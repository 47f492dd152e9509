import Mathlib.Tactic.NormNum
import PolyPlot.Coeffs.Analysis
import PolyPlot.Proofs.Coeffs.Tolerance

namespace PolyPlot.Coeffs

variable {ε c k : ℚ} {p : Coeffs ℚ} {i j n : ℕ}

theorem getD_timesPowers (n : ℕ) (p : Coeffs ℚ) (i : ℕ) :
    (timesPowers n p).getD i 0 = p.getD i 0 * ((n + i : ℕ) : ℚ) := by
  induction p generalizing n i with
  | nil => simp [timesPowers]
  | cons c p ih =>
    cases i with
    | zero => simp [timesPowers]
    | succ i =>
      rw [timesPowers, List.getD_cons_succ, List.getD_cons_succ, ih, Nat.add_right_comm, Nat.add_assoc]

theorem getD_overPowers (n : ℕ) (p : Coeffs ℚ) (i : ℕ) :
    (overPowers n p).getD i 0 = p.getD i 0 / ((n + i : ℕ) : ℚ) := by
  induction p generalizing n i with
  | nil => simp [overPowers]
  | cons c p ih =>
    cases i with
    | zero => simp [overPowers]
    | succ i =>
      rw [overPowers, List.getD_cons_succ, List.getD_cons_succ, ih, Nat.add_right_comm, Nat.add_assoc]

theorem derivative_cons (ε c : ℚ) (p : Coeffs ℚ) :
    derivative ε (c :: p) = canonical ε (timesPowers 1 p) := by
  cases p <;> rfl

theorem succ_cast_pos (i : ℕ) : (0 : ℚ) < ((1 + i : ℕ) : ℚ) := by
  positivity

theorem abs_overPowers_lt_iff :
    |(overPowers 1 p).getD i 0| < ε ↔ |p.getD i 0| < (i + 1) * ε := by
  rw [getD_overPowers, abs_div, abs_of_pos (succ_cast_pos i), div_lt_iff₀ (succ_cast_pos i), mul_comm ε]
  push_cast
  rw [add_comm (1 : ℚ)]

/-- From this power on every coefficient is lost in the antiderivative: divided by its power plus one, it
is below the tolerance. -/
def LostFrom (ε : ℚ) (p : Coeffs ℚ) (i : ℕ) : Prop :=
  ∀ j, i ≤ j → |p.getD j 0| < (j + 1) * ε

theorem getD_derivative_integral_of_lost (k : ℚ) (h : LostFrom ε p i) :
    (derivative ε (integral ε k p)).getD i 0 = 0 := by
  have hdropped : (dropSmall ε (overPowers 1 p)).getD i 0 = 0 :=
    getD_dropSmall_of_lt fun j hij => abs_overPowers_lt_iff.mpr (h j hij)
  rw [integral, canonical, derivative_cons]
  rcases getD_canonical ε (timesPowers 1 (dropSmall ε (overPowers 1 p))) i with hkept | hzero
  · rw [hkept, getD_timesPowers, hdropped, zero_mul]
  · exact hzero

theorem getD_derivative_integral_of_not_lost (hε : 0 < ε) (k : ℚ) (h : ¬ LostFrom ε p i) :
    (derivative ε (integral ε k p)).getD i 0 = p.getD i 0 := by
  unfold LostFrom at h
  push Not at h
  obtain ⟨j, hij, hlarge⟩ := h
  have hquotient : ε ≤ |(overPowers 1 p).getD j 0| :=
    not_lt.mp (mt abs_overPowers_lt_iff.mp hlarge.not_gt)
  -- Up to the power of a coefficient that is kept, a quotient times its divisor is the coefficient.
  have hback (m : ℕ) (hm : m ≤ j) :
      (timesPowers 1 (dropSmall ε (overPowers 1 p))).getD m 0 = p.getD m 0 := by
    rw [getD_timesPowers, getD_dropSmall_of_le hε hm hquotient, getD_overPowers,
      div_mul_cancel₀ _ (succ_cast_pos m).ne']
  have hproduct : ε ≤ |(timesPowers 1 (dropSmall ε (overPowers 1 p))).getD j 0| := by
    rw [hback j le_rfl]
    calc ε ≤ (j + 1) * ε := le_mul_of_one_le_left hε.le (by simp)
      _ ≤ |p.getD j 0| := hlarge
  rw [integral, canonical, derivative_cons, getD_canonical_of_le hε hij hproduct, hback i hij]

/-- Differentiation brings back every coefficient of an antiderivative but those that it has lost. So the
vector that it gives agrees with the first one exactly if no lost coefficient exceeds the tolerance. -/
theorem agree_derivative_integral_iff (hε : 0 < ε) (k : ℚ) (p : Coeffs ℚ) :
    (∀ i, ¬ LostFrom ε p i → (derivative ε (integral ε k p)).getD i 0 = p.getD i 0) ∧
      (∀ i, LostFrom ε p i → (derivative ε (integral ε k p)).getD i 0 = 0) ∧
      (agree ε (derivative ε (integral ε k p)) p = true ↔ ∀ i, LostFrom ε p i → |p.getD i 0| ≤ ε) := by
  have hkept (i : ℕ) (h : ¬ LostFrom ε p i) := getD_derivative_integral_of_not_lost hε k h
  have hlost (i : ℕ) (h : LostFrom ε p i) := getD_derivative_integral_of_lost k h
  refine ⟨hkept, hlost, ?_⟩
  rw [agree_iff hε.le]
  apply forall_congr'
  intro i
  by_cases h : LostFrom ε p i
  · rw [hlost i h, zero_sub, abs_neg]
    exact ⟨fun hsmall _ => hsmall, fun hsmall => hsmall h⟩
  · rw [hkept i h, sub_self, abs_zero]
    exact iff_of_true hε.le fun h' => absurd h' h

/-- A canonical vector whose leading coefficient exceeds the tolerance, and is lost. -/
theorem not_agree_derivative_integral :
    let ε : ℚ := 1 / 10 ^ 10
    let p : Coeffs ℚ := [0, 3 / 2 * ε]
    0 < ε ∧ canonical ε p = p ∧ agree ε (derivative ε (integral ε 0 p)) p = false := by
  decide +kernel

/-- Of two coefficients above the tolerance the one of the higher power is lost. -/
theorem agree_derivative_integral_of_lost_leading :
    let ε : ℚ := 1 / 10
    let p : Coeffs ℚ := [1, 1 / 4, 1 / 5]
    0 < ε ∧ canonical ε p = p ∧ (derivative ε (integral ε 7 p)).getD 1 0 = 1 / 4 ∧
      (derivative ε (integral ε 7 p)).getD 2 0 = 0 ∧
      agree ε (derivative ε (integral ε 7 p)) p = false := by
  intro ε p
  have hε : 0 < ε := by norm_num [ε]
  obtain ⟨hkept, hlost, hagree⟩ := agree_derivative_integral_iff hε 7 p
  have hfirst : ¬ LostFrom ε p 1 := by
    intro h
    have hsmall := h 1 le_rfl
    norm_num [ε, p] at hsmall
  have hsecond : LostFrom ε p 2 := by
    intro j hj
    obtain ⟨n, rfl⟩ := Nat.exists_eq_add_of_le hj
    cases n with
    | zero => norm_num [ε, p, abs_of_pos]
    | succ n =>
      rw [List.getD_eq_default _ _ (by simp [p]; omega), abs_zero]
      positivity
  refine ⟨hε, by decide +kernel, hkept 1 hfirst, hlost 2 hsecond, ?_⟩
  rw [Bool.eq_false_iff, Ne, hagree]
  intro h
  have hlarge := h 2 hsecond
  norm_num [ε, p, abs_of_pos] at hlarge

theorem getD_integral_succ (ε c : ℚ) (p : Coeffs ℚ) (i : ℕ) :
    (integral ε c p).getD (i + 1) 0 = (dropSmall ε (overPowers 1 p)).getD i 0 :=
  rfl

/-- A derivative loses no coefficient above the tolerance. -/
theorem getD_derivative_cons (hε : 0 < ε) (c : ℚ) (p : Coeffs ℚ) (i : ℕ) :
    (derivative ε (c :: p)).getD i 0 = p.getD i 0 * ((1 + i : ℕ) : ℚ) ∨
      (derivative ε (c :: p)).getD i 0 = 0 ∧ |p.getD i 0| ≤ ε := by
  rw [derivative_cons]
  rcases getD_canonical ε (timesPowers 1 p) i with hkept | hzero
  · rw [hkept, getD_timesPowers]
    exact .inl rfl
  · have hsmall := abs_getD_canonical_sub_le (p := timesPowers 1 p) hε i
    rw [hzero, zero_sub, abs_neg, getD_timesPowers, abs_mul, abs_of_pos (succ_cast_pos i)] at hsmall
    refine .inr ⟨hzero, ?_⟩
    calc |p.getD i 0| ≤ |p.getD i 0| * ((1 + i : ℕ) : ℚ) :=
          le_mul_of_one_le_right (abs_nonneg _) (by simp)
      _ ≤ ε := hsmall

theorem abs_getD_integral_derivative_sub_le (hε : 0 < ε) (c : ℚ) (p : Coeffs ℚ) (i : ℕ) :
    |(integral ε c (derivative ε (c :: p))).getD i 0 - (c :: p).getD i 0| ≤ ε := by
  cases i with
  | zero =>
    rw [integral, canonical, List.getD_cons_zero, List.getD_cons_zero, sub_self, abs_zero]
    exact hε.le
  | succ i =>
    rw [getD_integral_succ, List.getD_cons_succ]
    have hquotient := getD_overPowers 1 (derivative ε (c :: p)) i
    have hresult := getD_dropSmall ε (overPowers 1 (derivative ε (c :: p))) i
    rcases getD_derivative_cons hε c p i with hkept | ⟨hzero, hsmall⟩
    · rw [hkept, mul_div_cancel_right₀ _ (succ_cast_pos i).ne'] at hquotient
      rw [hquotient] at hresult
      rcases hresult with hsame | ⟨hdropped, hsmall⟩
      · rw [hsame, sub_self, abs_zero]
        exact hε.le
      · rw [hdropped, zero_sub, abs_neg]
        exact hsmall.le
    · rw [hzero, zero_div] at hquotient
      rw [hquotient] at hresult
      rw [hresult.elim id And.left, zero_sub, abs_neg]
      exact hsmall

/-- Integration brings back every coefficient of a derivative but those that are small, given the value of
the vector at zero. No entry is farther off than the tolerance, so that the vectors agree. -/
theorem agree_integral_derivative (hε : 0 < ε) (c : ℚ) (p : Coeffs ℚ) :
    (∀ i, |(integral ε c (derivative ε (c :: p))).getD i 0 - (c :: p).getD i 0| ≤ ε) ∧
      agree ε (integral ε c (derivative ε (c :: p))) (c :: p) = true := by
  have hclose := abs_getD_integral_derivative_sub_le hε c p
  exact ⟨hclose, (agree_iff hε.le).mpr hclose⟩

/-- Both trimmings drop a coefficient. -/
theorem agree_integral_derivative_of_small :
    let ε : ℚ := 1 / 10
    let p : Coeffs ℚ := [2, 1, 3 / 50, 1 / 50]
    0 < ε ∧ derivative ε p = [1, 3 / 25] ∧ integral ε 2 (derivative ε p) = [2, 1] ∧
      agree ε (integral ε 2 (derivative ε p)) p = true := by
  intro ε p
  have hε : 0 < ε := by norm_num [ε]
  obtain ⟨-, hagree⟩ := agree_integral_derivative hε 2 [1, 3 / 50, 1 / 50]
  exact ⟨hε, by decide +kernel, by decide +kernel, hagree⟩

end PolyPlot.Coeffs
