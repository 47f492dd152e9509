import PolyPlot.Proofs.Coeffs.Trim
import PolyPlot.Proofs.Printer.Reading

namespace PolyPlot.Coeffs

open Double Decimal PrintedTerm

variable {places n : ℕ} {m : ℤ} {p q r : Coeffs Float} {a b : Float} {ts : List PrintedTerm}

/-- A text is read as the canonical form of a vector, which is printed as the text again. -/
def ReadsAs (m : ℤ) (places : ℕ) (text : String) (r : Coeffs Float) : Prop :=
  ∃ v, Expression.compileWith id ⟨tolerance, m⟩ none none text = .ok v ∧
    List.Forall₂ (fun a b => (a == b) = true) v (r.canonical tolerance) ∧
      format tolerance places v = .ok text

theorem IsRounded.congr (ha : IsRounded places a) (hb : b.isFinite = true)
    (h : Double.value b = Double.value a) :
    IsRounded places b := by
  obtain ⟨hfinite, k, hk⟩ := ha
  exact ⟨hb, k, by rw [abs_eq_of_value hb hfinite (by rw [h]), hk]⟩

/-- A vector has a last entry other than zero, unless all entries behind the first are zero. -/
theorem exists_last (p : Coeffs Float) :
    ∃ k, (k = 0 ∨ Double.value (p.getD k 0) ≠ 0) ∧ ∀ i, k < i → Double.value (p.getD i 0) = 0 := by
  refine ⟨Nat.findGreatest (fun i => Double.value (p.getD i 0) ≠ 0) p.length, ?_, fun i hi => ?_⟩
  · by_cases hzero : Nat.findGreatest (fun i => Double.value (p.getD i 0) ≠ 0) p.length = 0
    · exact .inl hzero
    · exact .inr (Nat.findGreatest_of_ne_zero rfl hzero)
  · rcases Nat.lt_or_ge p.length i with hlt | hle
    · exact value_getD_of_length_le hlt.le
    · exact not_not.mp (Nat.findGreatest_is_greatest hi hle)

theorem entry_zero (i : ℕ) : Entry [0] i 0 := by
  have hzero := entry_monomial isFinite_zero 0 i
  rwa [value_zero, ite_self] at hzero

theorem Entry.canonical_zero {ε : Float} {i : ℕ} (h : Entry p i 0) : Entry (canonical ε p) i 0 := by
  rcases getD_canonical ε p i with hkept | hdropped
  · exact ⟨by rw [hkept]; exact h.finite, by rw [hkept]; exact h.value_eq⟩
  · exact ⟨by rw [hdropped]; exact isFinite_zero, by rw [hdropped]; exact value_zero⟩

/-- The canonical form of a rounded vector ends with the last entry other than zero, and keeps all
values. -/
theorem canonical_of_last {k : ℕ} (hplaces : places ≤ 9) (hp : ∀ i, IsRounded places (p.getD i 0))
    (hlast : k = 0 ∨ Double.value (p.getD k 0) ≠ 0)
    (hbehind : ∀ i, k < i → Double.value (p.getD i 0) = 0) :
    (canonical tolerance p).length = k + 1 ∧
      ∀ i, Entry (canonical tolerance p) i (Double.value (p.getD i 0)) := by
  by_cases hempty : p = []
  · subst hempty
    have hk : k = 0 := hlast.resolve_right fun hne => hne value_zero
    refine ⟨by rw [hk]; rfl, fun i => ?_⟩
    rw [List.getD_nil, value_zero]
    exact entry_zero i
  · have hk : k < p.length := by
      rcases hlast with rfl | hne
      · exact List.length_pos_iff.mpr hempty
      · exact not_le.mp fun hle => hne (value_getD_of_length_le hle)
    have hlarge : k = 0 ∨ ¬ Scalar.abs p[k] < tolerance := by
      refine hlast.imp_right fun hne hless => hne (((hp k).abs_lt_iff hplaces).mp ?_)
      rwa [List.getD_eq_getElem p 0 hk]
    have hsmall : ∀ a ∈ p.drop (k + 1), Scalar.abs a < tolerance := by
      intro a ha
      obtain ⟨i, hi, rfl⟩ := List.getElem_of_mem ha
      rw [List.length_drop] at hi
      have hentry := ((hp (k + 1 + i)).abs_lt_iff hplaces).mpr (hbehind _ (by omega))
      rw [List.getD_eq_getElem p 0 (by omega)] at hentry
      rwa [List.getElem_drop]
    have hlength : (p.take (k + 1)).length = k + 1 := by
      rw [List.length_take]
      omega
    rw [canonical_eq_take hk hlarge hsmall]
    refine ⟨hlength, fun i => ?_⟩
    rcases Nat.lt_or_ge k i with hlt | hle
    · rw [hbehind i hlt]
      have hdefault := List.getD_eq_default (p.take (k + 1)) 0 (by omega : (p.take (k + 1)).length ≤ i)
      exact ⟨by rw [hdefault]; exact isFinite_zero, by rw [hdefault]; exact value_zero⟩
    · have hkept := List.getD_append (p.take (k + 1)) (p.drop (k + 1)) 0 i (by omega)
      rw [List.take_append_drop] at hkept
      exact ⟨by rw [← hkept]; exact (hp i).1, by rw [hkept]⟩

/-- Rounded vectors with the same values have canonical forms with the same values. -/
theorem forall₂_canonical (hplaces : places ≤ 9) (hp : ∀ i, IsRounded places (p.getD i 0))
    (hq : ∀ i, IsRounded places (q.getD i 0))
    (h : ∀ i, Double.value (p.getD i 0) = Double.value (q.getD i 0)) :
    List.Forall₂ (fun a b => (a == b) = true) (canonical tolerance p) (canonical tolerance q) := by
  have hzero : ((0 : Float) == 0) = true := (beq_iff isFinite_zero isFinite_zero).mpr rfl
  obtain ⟨k, hlast, hbehind⟩ := exists_last q
  obtain ⟨hlength, hentry⟩ := canonical_of_last hplaces hq hlast hbehind
  simp only [← h] at hlast hbehind
  obtain ⟨hlength', hentry'⟩ := canonical_of_last hplaces hp hlast hbehind
  refine (forall₂_iff_getD hzero).mpr ⟨hlength'.trans hlength.symm, fun i => ?_⟩
  rw [beq_iff (hentry' i).finite (hentry i).finite, (hentry' i).value_eq, (hentry i).value_eq, h i]

/-- A canonical form is printed as the rounded vector is. -/
theorem format_canonical (hplaces : places ≤ 9) (hp : ∀ i, IsRounded places (p.getD i 0)) :
    format tolerance places (canonical tolerance p) = format tolerance places p := by
  obtain ⟨k, hlast, hbehind⟩ := exists_last p
  obtain ⟨-, hentry⟩ := canonical_of_last hplaces hp hlast hbehind
  exact format_eq_of_value hplaces (fun i => (hp i).congr (hentry i).finite (hentry i).value_eq) hp
    fun i => (hentry i).value_eq

theorem readPower_eq_self (h : ReadsBack n) : readPower n = n := by
  rcases Nat.eq_zero_or_pos n with rfl | hpos
  · exact readPower_zero
  · exact (readPower_eq_self_iff hpos (isFinite_of_readsBack h)).mpr h

/-- A text whose powers are found again is read as what was printed. -/
theorem PrintsAll.readsAs (hplaces : places ≤ 9) (hr : ∀ i, IsRounded places (r.getD i 0))
    (hlength : r.length ≤ m + 1) (h : PrintsAll r r.length ts)
    (hformat : format tolerance places r = .ok (printed ts))
    (hback : ∀ n, Double.value (r.getD n 0) ≠ 0 → ReadsBack n) : ReadsAs m places (printed ts) r := by
  have hfinite (i : ℕ) := (hr i).1
  have hsound := h.sound hfinite
  have hpower : ∀ t ∈ ts, ReadsBack t.power := fun t ht => hback _ (h.prints ht).2.ne_zero
  have hread : ∀ t ∈ ts, readPower t.power = t.power := fun t ht => readPower_eq_self (hpower t ht)
  have hentry := h.entry_vectorOf hfinite hread
  have hrounded (i : ℕ) : IsRounded places ((vectorOf ts).getD i 0) :=
    (hr i).congr (hentry i).finite (hentry i).value_eq
  have hreadable : ∀ t ∈ ts, Readable ⟨tolerance, m⟩ t.power := by
    intro t ht
    have hlt := (h.prints ht).1
    refine ⟨.inr (isFinite_of_readsBack (hpower t ht)), .inr ?_⟩
    rw [hread t ht]
    change (t.power : ℤ) ≤ m
    omega
  have hall := h.isFinite_vectorOf hfinite hread
  refine ⟨_, (compileWith_printed_iff hsound).mpr ⟨hreadable, hall, rfl⟩, ?_, ?_⟩
  · exact forall₂_canonical hplaces hrounded hr fun i => (hentry i).value_eq
  · rw [format_canonical hplaces hrounded, ← hformat]
    exact format_eq_of_value hplaces hrounded hr fun i => (hentry i).value_eq

/-- A power that is not found again is missing from what is read. -/
theorem PrintsAll.readsBack (hplaces : places ≤ 9) (hr : ∀ i, IsRounded places (r.getD i 0))
    (h : PrintsAll r r.length ts) (hread : ReadsAs m places (printed ts) r)
    (hn : Double.value (r.getD n 0) ≠ 0) :
    ReadsBack n := by
  have hzero : ((0 : Float) == 0) = true := (beq_iff isFinite_zero isFinite_zero).mpr rfl
  have hsound := h.sound fun i => (hr i).1
  obtain ⟨v, hcompile, hequal, -⟩ := hread
  obtain ⟨hreadable, -, rfl⟩ := (compileWith_printed_iff hsound).mp hcompile
  by_contra hlost
  have hnowhere : ∀ t ∈ ts, n ≠ readPower t.power := by
    rintro t ht rfl
    rcases (hreadable t ht).1 with hsmall | hfinite
    · have hle : t.power ≤ leadingBit := (Nat.le_of_lt_succ hsmall).trans (by decide)
      exact hlost (.inl ((readPower_of_le hle).symm ▸ hle))
    · exact hlost (readsBack_readPower hfinite)
  obtain ⟨k, hlast, hbehind⟩ := exists_last r
  have hkept := (canonical_of_last hplaces hr hlast hbehind).2 n
  have hread := (entry_vectorOf_of_ne hsound hnowhere).canonical_zero (ε := tolerance)
  have hequal' := ((forall₂_iff_getD hzero).mp hequal).2 n
  rw [beq_iff hread.finite hkept.finite, hread.value_eq, hkept.value_eq] at hequal'
  exact hn hequal'.symm

/-- Printing has a text, and that is read as the canonical form of the rounded vector exactly if the
powers of all terms are found again when they are read as doubles. -/
theorem readsAs_format_iff (hplaces : places ≤ 9) (hlength : p.length ≤ m + 1)
    (hp : ∀ a ∈ p, a.isFinite = true) :
    ∃ text r, format tolerance places p = .ok text ∧ p.mapM (roundEntry tolerance places) = .ok r ∧
      (ReadsAs m places text r ↔ ∀ n, Double.value (r.getD n 0) ≠ 0 → ReadsBack n) := by
  obtain ⟨r, hmap, hlen, hr, hformat⟩ := exists_rounded hplaces hp
  obtain ⟨ts, hts, htext⟩ := exists_format hplaces hr
  refine ⟨_, r, hformat.trans htext, hmap, fun hread n hn => hts.readsBack hplaces hr hread hn,
    fun hback => ?_⟩
  exact hts.readsAs hplaces hr (by omega) htext hback

/-- A vector of at most `2 ^ 52 + 1` entries is found again. -/
theorem readsAs_format_of_length_le (hplaces : places ≤ 9) (hlength : p.length ≤ m + 1)
    (hp : ∀ a ∈ p, a.isFinite = true)
    (hmost : p.length ≤ leadingBit + 1) :
    ∃ text r, format tolerance places p = .ok text ∧ p.mapM (roundEntry tolerance places) = .ok r ∧
      ReadsAs m places text r := by
  obtain ⟨text, r, hformat, hmap, hiff⟩ := readsAs_format_iff hplaces hlength hp
  have hsame : p.length = r.length := (mapM_eq_ok_iff.mp hmap).length_eq
  refine ⟨text, r, hformat, hmap, hiff.mpr fun n hn => .inl ?_⟩
  by_contra hlarge
  exact hn (value_getD_of_length_le (by omega))

/-- One entry is rounded and another is dropped, and the text is read as the vector that is left. -/
theorem readsAs_format_of_lost_digits :
    let p : Coeffs Float := [0.123456, 2.5, -0.00004]
    (4 ≤ 9 ∧ (p.length : ℤ) ≤ 2 + 1 ∧ (∀ a ∈ p, a.isFinite = true) ∧ p.length ≤ leadingBit + 1) ∧
      ∃ r, format tolerance (4 : ℕ) p = .ok "2.5x + 0.1235" ∧
        p.mapM (roundEntry tolerance (4 : ℕ)) = .ok r ∧ ReadsAs 2 4 "2.5x + 0.1235" r := by
  intro p
  have hlength : (p.length : ℤ) ≤ 2 + 1 := by decide
  have hfinite : ∀ a ∈ p, a.isFinite = true := by decide +kernel
  have hmost : p.length ≤ leadingBit + 1 := by decide
  have hformat : format tolerance (4 : ℕ) p = .ok "2.5x + 0.1235" := by decide +kernel
  obtain ⟨text, r, htext, hr, hreads⟩ := readsAs_format_of_length_le (by decide : 4 ≤ 9) hlength hfinite hmost
  cases hformat.symm.trans htext
  exact ⟨⟨by decide, hlength, hfinite, hmost⟩, r, hformat, hr, hreads⟩

end PolyPlot.Coeffs
