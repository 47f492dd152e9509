import PolyPlot.Proofs.Evaluation.Outcome
import PolyPlot.Proofs.Printer.RoundTrip
import PolyPlot.Report.Analysis

namespace PolyPlot

namespace Coeffs

open Double Decimal PrintedTerm Expression

variable {places n k : ℕ} {m : ℤ} {p r : Coeffs Float} {a b : Float} {ts : List PrintedTerm}

/-- Some vector is read from a text under a cap on powers. -/
def Accepted (m : ℤ) (text : String) : Prop :=
  ∃ v, compileWith id ⟨tolerance, m⟩ none none text = .ok v

/-- A power below `2 ^ 52` is within a cap exactly if it is read as one that is. -/
theorem readPower_le_iff (hm : m < leadingBit) (hfinite : (ofRat n).isFinite = true) :
    (readPower n : ℤ) ≤ m ↔ (n : ℤ) ≤ m := by
  rcases le_or_gt n leadingBit with hle | hlt
  · rw [readPower_of_le hle]
  · have hread := leadingBit_le_readPower hlt.le hfinite
    omega

theorem PrintsAll.accepted_iff (hm : 1 ≤ m) (hm' : m < leadingBit)
    (hr : ∀ i, IsRounded places (r.getD i 0)) (h : PrintsAll r r.length ts) :
    Accepted m (printed ts) ↔ ∀ n : ℕ, m < n → Double.value (r.getD n 0) = 0 := by
  have hfinite (i : ℕ) := (hr i).1
  have hsound := h.sound hfinite
  constructor
  · rintro ⟨v, hv⟩ n hn
    obtain ⟨hreadable, -, -⟩ := (compileWith_printed_iff hsound).mp hv
    by_contra hne
    have hlt : n < r.length := by
      by_contra hge
      exact hne (value_getD_of_length_le (not_lt.mp hge))
    obtain ⟨t, ht, rfl⟩ := h.exists_mem hlt hne
    obtain ⟨hdouble, hallowed⟩ := hreadable t ht
    have hlarge : ¬ t.power < 2 := by omega
    have hle := (readPower_le_iff hm' (hdouble.resolve_left hlarge)).mp (hallowed.resolve_left hlarge)
    omega
  · intro hzero
    have hpower : ∀ t ∈ ts, (t.power : ℤ) ≤ m := by
      intro t ht
      by_contra hlarge
      exact (h.prints ht).2.ne_zero (hzero _ (not_le.mp hlarge))
    have hread : ∀ t ∈ ts, readPower t.power = t.power := by
      intro t ht
      have hle := hpower t ht
      exact readPower_of_le (by omega)
    have hreadable : ∀ t ∈ ts, Readable ⟨tolerance, m⟩ t.power := by
      intro t ht
      have hle := hpower t ht
      refine ⟨.inr (isFinite_of_readsBack (.inl (by omega))), .inr ?_⟩
      rw [hread t ht]
      exact hle
    exact ⟨_, (compileWith_printed_iff hsound).mpr ⟨hreadable, h.isFinite_vectorOf hfinite hread, rfl⟩⟩

/-- An entry is rounded to zero exactly if its magnitude is no more than half of the last place. -/
theorem RoundsTo.value_eq_zero_iff (hplaces : places ≤ 9) (ha : a.isFinite = true)
    (h : RoundsTo places a b) :
    Double.value b = 0 ↔ |Double.value a| * 10 ^ places ≤ 1 / 2 := by
  obtain ⟨s, m, e, hparts⟩ := isFinite_iff.mp ha
  obtain ⟨k, hk, hfinite, hround⟩ := roundPlaces_eq_ok hplaces (ofFloat_abs hparts)
  have hmagnitude : |Double.value a| = m * 2 ^ e := by
    rw [value_of_ofFloat hparts, abs_withSign, abs_of_nonneg (by positivity)]
  have hentry := h.eq_ok
  unfold roundEntry at hentry
  rw [hround] at hentry
  have hb := Except.ok.inj hentry
  rw [hmagnitude, ← hk.eq_zero_iff (by positivity), ← hb]
  have hkept (hlarge : ¬ nearest false k (10 ^ places) < tolerance) :
      Double.value (nearest false k (10 ^ places)) = 0 ↔ k = 0 := by
    refine iff_of_false (fun hzero => hlarge ?_) (mt (lt_tolerance_iff hplaces hfinite).mpr hlarge)
    rw [lt_iff hfinite isFinite_tolerance, hzero]
    exact value_tolerance_pos
  split_ifs with hsmall hneg
  · exact iff_of_true value_zero ((lt_tolerance_iff hplaces hfinite).mp hsmall)
  · rw [value_neg hfinite, neg_eq_zero, hkept hsmall]
  · exact hkept hsmall

/-- The text of a vector is accepted exactly if all entries of powers above the cap are rounded to
zero. -/
theorem accepted_format_iff (hplaces : places ≤ 9) (hm : 1 ≤ m) (hm' : m < leadingBit)
    (hp : ∀ a ∈ p, a.isFinite = true) :
    ∃ text, format tolerance places p = .ok text ∧
      (Accepted m text ↔ ∀ n : ℕ, m < n → |Double.value (p.getD n 0)| * 10 ^ places ≤ 1 / 2) := by
  obtain ⟨r, hall, hformat⟩ := exists_roundsTo_format_eq hplaces hp
  obtain ⟨-, hentry⟩ := (forall₂_iff_getD (roundsTo_zero hplaces)).mp hall
  obtain ⟨ts, hts, htext⟩ := exists_format hplaces fun i => (hentry i).rounded
  refine ⟨_, hformat.trans htext, ?_⟩
  rw [hts.accepted_iff hm hm' fun i => (hentry i).rounded]
  exact forall_congr' fun n => imp_congr_right fun _ =>
    (hentry n).value_eq_zero_iff hplaces (isFinite_getD hp n)

/-- The vector of an expression under the usual limits has a text. It is accepted under these limits
exactly if every coefficient of a power above fifty is so small that it is not printed. -/
theorem accepted_format_of_compiled_iff {text : String}
    (h : compileWith id ({} : Options).limits none none text = .ok p) :
    ∃ written, format ({} : Options).epsilon Report.defaultPlaces p = .ok written ∧
      ((∃ v, compileWith id ({} : Options).limits none none written = .ok v) ↔
        ∀ n, 50 < n → |Double.value (p.getD n 0)| ≤ 1 / 20000) := by
  have hreduced : Reduced ({} : Options).epsilon p := reduced_of_compileWith (by decide) h
  obtain ⟨written, hformat, haccepted⟩ :=
    @accepted_format_iff 4 50 p (by decide) (by decide) (by decide) hreduced.isFinite
  refine ⟨written, hformat, haccepted.trans (forall_congr' fun n => ?_)⟩
  have hlarge : (50 : ℤ) < n ↔ 50 < n := by omega
  have hsmall : |Double.value (p.getD n 0)| * 10 ^ 4 ≤ 1 / 2 ↔
      |Double.value (p.getD n 0)| ≤ 1 / 20000 := by
    constructor <;> intro hle <;> linarith
  rw [hlarge, hsmall]

/-- A product of allowed powers has a power above the cap. -/
theorem not_accepted_product_of_powers :
    compileWith id ({} : Options).limits none none "x^50*x" = .ok (monomial 51 1) ∧
      ∃ written, format ({} : Options).epsilon Report.defaultPlaces (monomial 51 1) = .ok written ∧
        ¬ ∃ v, compileWith id ({} : Options).limits none none written = .ok v := by
  let t : Tree Float := .binary .multiply (.power .x (.literal 50)) .x
  have hread : Tree.read none (normalize "x^50*x") = .ok t := rfl
  have hpower : Tree.Evaluates ({} : Options).limits (.power .x (.literal 50)) (monomial 50 1) :=
    .power .x (.literal 50) (n := 50) (by decide +kernel)
      (Tree.raise_eq_ok_iff.mpr ⟨by decide, (power_x 50).symm⟩)
  have hevaluates : Tree.Evaluates ({} : Options).limits t (monomial 51 1) :=
    .binary hpower .x (congrArg Except.ok (monomial_multiply_x 50))
  have hfinite : ∀ a ∈ monomial 51 1, Scalar.isFinite a = true := by decide +kernel
  have hraw : rawVector id ({} : Options).limits none none "x^50*x" = .ok (monomial 51 1) :=
    rawVector_eq_ok_iff.mpr ⟨by decide, t, hread,
      Tree.map_id t ▸ Tree.evaluate_eq_ok_iff.mpr hevaluates, hfinite⟩
  have hcompile : compileWith id ({} : Options).limits none none "x^50*x" = .ok (monomial 51 1) := by
    unfold compileWith
    rw [hraw]
    decide +kernel
  obtain ⟨written, hformat, hiff⟩ := accepted_format_of_compiled_iff hcompile
  refine ⟨hcompile, written, hformat, fun haccepted => ?_⟩
  have hsmall := hiff.mp haccepted 51 (by decide)
  rw [getD_monomial, value_one] at hsmall
  norm_num at hsmall

end Coeffs

end PolyPlot
