import PolyPlot.Proofs.Coeffs.Polynomial
import PolyPlot.Proofs.Evaluation.Relation
import PolyPlot.Proofs.Scalar.Rational

namespace PolyPlot

namespace Tree

variable {limits : Limits ℚ} {t : Tree ℚ} {p q r c : Coeffs ℚ}

/-- An operation on two numbers; a quotient by zero has no value. -/
def applyAt? : Operator → ℚ → ℚ → Option ℚ
  | .add, a, b => some (a + b)
  | .subtract, a, b => some (a - b)
  | .multiply, a, b => some (a * b)
  | .divide, a, b => if b = 0 then none else some (a / b)

/-- A number to the whole power nearest to an exponent, a half going up; a negative power has no
value, and the power zero of any number is one. -/
def raiseAt? (b e : ℚ) : Option ℚ :=
  if ⌊e + 1 / 2⌋ < 0 then none else some (b ^ ⌊e + 1 / 2⌋.toNat)

/-- The value of a tree where `x` has a value. -/
def valueAt? (point : ℚ) : Tree ℚ → Option ℚ
  | literal v => some v
  | x => some point
  | negate t => (t.valueAt? point).map (- ·)
  | binary op a b => do applyAt? op (← a.valueAt? point) (← b.valueAt? point)
  | power b e => do raiseAt? (← b.valueAt? point) (← e.valueAt? point)

theorem exponent_eq_ok_iff {n : ℤ} :
    exponent q = .ok n ↔ ∃ v, q = [v] ∧ ⌊v + 1 / 2⌋ = n := by
  unfold exponent
  split
  · next v => simp [mapError_eq_ok_iff]
  · next hlength =>
    constructor
    · intro h
      cases h
    · rintro ⟨v, rfl, -⟩
      exact absurd rfl (hlength v)

theorem mapM_div?_eq_ok_iff {d : ℚ} (hp : p ≠ []) :
    p.mapM (Scalar.div? · d) = .ok r ↔ d ≠ 0 ∧ r = p.map (· / d) := by
  by_cases hd : d = 0
  · obtain ⟨a, rest, rfl⟩ := List.exists_cons_of_ne_nil hp
    simp [hd, Scalar.div?_rat_zero, bind, Except.bind]
  · have hdiv : (Scalar.div? · d) = fun a : ℚ => (pure (a / d) : Except Fault ℚ) :=
      funext fun a => Scalar.div?_rat hd
    rw [hdiv, List.mapM_pure]
    simp [hd, pure, Except.pure, eq_comm]

theorem quotient_eq_ok_iff (hp : p ≠ []) :
    quotient limits p q = .ok r ↔
      ∃ d, q = [d] ∧ limits.epsilon ≤ |d| ∧ d ≠ 0 ∧ r = p.map (· / d) := by
  rw [quotient_eq_ok_iff_exists]
  refine exists_congr fun d => ?_
  rw [mapM_div?_eq_ok_iff hp, Scalar.abs_rat, not_lt]

/-- Evaluation to a vector agrees at every point with evaluation at that point. -/
theorem Evaluates.valueAt?_eq_some (h : Evaluates limits t c) (point : ℚ) :
    t.valueAt? point = some (c.value point) := by
  induction h with
  | literal v => rfl
  | x => simp [valueAt?, Coeffs.value]
  | negate ht ih => simp [valueAt?, ih, Coeffs.value_eq_eval, Coeffs.toPolynomial_negate]
  | @binary op a b p q r ha hb hr iha ihb =>
    simp only [valueAt?, iha, ihb, Option.bind_eq_bind, Option.bind_some]
    cases op with
    | add =>
      cases hr
      simp [applyAt?, Coeffs.value_eq_eval, Coeffs.toPolynomial_add]
    | subtract =>
      cases hr
      simp [applyAt?, Coeffs.value_eq_eval, Coeffs.toPolynomial_subtract]
    | multiply =>
      cases hr
      simp [applyAt?, Coeffs.value_eq_eval, Coeffs.toPolynomial_multiply]
    | divide =>
      obtain ⟨d, rfl, -, hd, rfl⟩ := (quotient_eq_ok_iff ha.ne_nil).mp hr
      simp [applyAt?, Coeffs.value, hd, Coeffs.value_map_div]
  | @power b e p q r n hb he hn hr ihb ihe =>
    obtain ⟨v, rfl, rfl⟩ := exponent_eq_ok_iff.mp hn
    obtain ⟨⟨hnonneg, -⟩, rfl⟩ := raise_eq_ok_iff.mp hr
    simp only [valueAt?, ihb, ihe, Option.bind_eq_bind, Option.bind_some, Coeffs.value, raiseAt?,
      if_neg (not_lt.mpr hnonneg)]
    simp [Coeffs.value_eq_eval, Coeffs.toPolynomial_power]

/-- Wherever evaluation succeeds, within whatever limits, the vector has at every point the value that
the expression has there. -/
theorem valueAt?_of_evaluateUpTo {levels : Option ℕ} (h : t.evaluateUpTo limits levels = .ok c)
    (point : ℚ) : t.valueAt? point = some (c.value point) :=
  (evaluateUpTo_eq_ok_iff.mp h).2.valueAt?_eq_some point

/-- The value of `-((x - 1) / 4) ^ 2.5` at three, an exponent being rounded up from its half. -/
theorem valueAt?_rounded_power :
    (negate (power (binary .divide (binary .subtract x (literal 1)) (literal 4))
    (literal (5 / 2)))).evaluateUpTo
        (⟨1 / 10 ^ 10, 50⟩ : Limits ℚ) none = .ok [1 / 64, -3 / 64, 3 / 64, -1 / 64] ∧
      (negate (power (binary .divide (binary .subtract x (literal 1)) (literal 4))
      (literal (5 / 2)))).valueAt? 3 =
        some (Coeffs.value 3 [1 / 64, -3 / 64, 3 / 64, -1 / 64]) := by
  have h : (negate (power (binary .divide (binary .subtract x (literal 1)) (literal 4))
      (literal (5 / 2)))).evaluateUpTo (⟨1 / 10 ^ 10, 50⟩ : Limits ℚ) none =
      .ok [1 / 64, -3 / 64, 3 / 64, -1 / 64] := by
    decide +kernel
  exact ⟨h, valueAt?_of_evaluateUpTo h 3⟩

end Tree

end PolyPlot
