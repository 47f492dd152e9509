import PolyPlot.Proofs.Coeffs.Trim
import PolyPlot.Proofs.Scalar.Rational

namespace PolyPlot.Coeffs

variable {ε δ : ℚ} {p q : Coeffs ℚ} {i j : ℕ}

theorem agree_nil_left : agree δ [] q = true ↔ ∀ b ∈ q, |b| ≤ δ := by
  simp [agree]

theorem agree_nil_right : agree δ p [] = true ↔ ∀ a ∈ p, |a| ≤ δ := by
  cases p <;> simp [agree]

theorem agree_cons {a b : ℚ} :
    agree δ (a :: p) (b :: q) = true ↔ |a - b| ≤ δ ∧ agree δ p q = true := by
  simp [agree]

theorem forall_getD_iff (hδ : 0 ≤ δ) : (∀ i, |p.getD i 0| ≤ δ) ↔ ∀ a ∈ p, |a| ≤ δ := by
  constructor
  · intro h a ha
    obtain ⟨i, hi, rfl⟩ := List.getElem_of_mem ha
    simpa [List.getD_eq_getElem?_getD, hi] using h i
  · intro h i
    rw [List.getD_eq_getElem?_getD]
    by_cases hi : i < p.length
    · simpa [hi] using h _ (List.getElem_mem hi)
    · simpa [List.getElem?_eq_none (not_lt.mp hi)] using hδ

/-- Two vectors agree within a tolerance exactly if no two entries of one power are farther apart, an
entry that is not there being zero. -/
theorem agree_iff (hδ : 0 ≤ δ) : agree δ p q = true ↔ ∀ i, |p.getD i 0 - q.getD i 0| ≤ δ := by
  induction p generalizing q with
  | nil => simpa [agree_nil_left] using (forall_getD_iff hδ).symm
  | cons a p ih =>
    cases q with
    | nil =>
      rw [agree_nil_right, ← forall_getD_iff hδ]
      simp
    | cons b q =>
      rw [agree_cons, ih]
      constructor
      · rintro ⟨hfirst, hrest⟩ i
        cases i with
        | zero => simpa using hfirst
        | succ i => simpa using hrest i
      · intro h
        exact ⟨by simpa using h 0, fun i => by simpa using h (i + 1)⟩

/-- An entry is kept, or it is small and zero takes its place. -/
theorem getD_dropSmall (ε : ℚ) (p : Coeffs ℚ) (i : ℕ) :
    (dropSmall ε p).getD i 0 = p.getD i 0 ∨ (dropSmall ε p).getD i 0 = 0 ∧ |p.getD i 0| < ε := by
  induction p generalizing i with
  | nil => exact .inl rfl
  | cons c rest ih =>
    unfold dropSmall
    cases hrest : dropSmall ε rest with
    | nil =>
      simp only [hrest] at ih
      by_cases hsmall : |c| < ε
      · cases i with
        | zero => exact .inr ⟨by simp [hsmall], by simpa using hsmall⟩
        | succ i => simpa [hsmall] using ih i
      · cases i with
        | zero => exact .inl (by simp [hsmall])
        | succ i => simpa [hsmall] using ih i
    | cons d kept =>
      rw [hrest] at ih
      cases i with
      | zero => exact .inl rfl
      | succ i => simpa using ih i

/-- From a power on from which every entry is small, zero takes their place. -/
theorem getD_dropSmall_of_lt (h : ∀ j, i ≤ j → |p.getD j 0| < ε) : (dropSmall ε p).getD i 0 = 0 := by
  apply List.getD_eq_default
  apply length_dropSmall_le
  intro a ha
  obtain ⟨n, hn, rfl⟩ := List.mem_drop_iff_getElem.mp ha
  have hsmall := h (i + n) (Nat.le_add_right i n)
  rw [Nat.add_comm] at hn
  rwa [List.getD_eq_getElem _ _ hn, ← Scalar.abs_rat] at hsmall

theorem lt_length_of_le (hε : 0 < ε) (hj : ε ≤ |p.getD j 0|) : j < p.length := by
  by_contra hout
  rw [List.getD_eq_default _ _ (not_lt.mp hout), abs_zero] at hj
  exact absurd hε hj.not_gt

/-- Up to an entry that is not small everything is kept. -/
theorem getD_dropSmall_of_le (hε : 0 < ε) (hij : i ≤ j) (hj : ε ≤ |p.getD j 0|) :
    (dropSmall ε p).getD i 0 = p.getD i 0 := by
  have hlength := lt_length_of_le hε hj
  rw [List.getD_eq_getElem _ _ hlength, ← Scalar.abs_rat] at hj
  have hkept := lt_length_dropSmall hlength (not_lt.mpr hj)
  obtain ⟨rest, hrest⟩ := dropSmall_prefix ε p
  rw [← List.getD_append _ rest 0 i (hij.trans_lt hkept), hrest]

theorem getD_canonical_of_le (hε : 0 < ε) (hij : i ≤ j) (hj : ε ≤ |p.getD j 0|) :
    (canonical ε p).getD i 0 = p.getD i 0 := by
  cases p with
  | nil => exact absurd (lt_length_of_le hε hj) (Nat.not_lt_zero j)
  | cons c rest =>
    cases i with
    | zero => rfl
    | succ i =>
      obtain ⟨j, rfl⟩ := Nat.exists_eq_add_one.mpr (Nat.zero_lt_of_lt hij)
      exact getD_dropSmall_of_le hε (Nat.le_of_succ_le_succ hij) hj

theorem abs_getD_canonical_sub_le (hε : 0 < ε) (i : ℕ) :
    |(canonical ε p).getD i 0 - p.getD i 0| ≤ ε := by
  cases p with
  | nil => cases i <;> simpa [canonical] using hε.le
  | cons c rest =>
    cases i with
    | zero => simpa [canonical] using hε.le
    | succ i =>
      rcases getD_dropSmall ε rest i with hkept | ⟨hdropped, hsmall⟩
      · simpa only [canonical, List.getD_cons_succ, hkept, sub_self, abs_zero] using hε.le
      · simpa only [canonical, List.getD_cons_succ, hdropped, zero_sub, abs_neg] using hsmall.le

end PolyPlot.Coeffs
