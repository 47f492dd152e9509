import Mathlib
import PolyPlot.Proofs.Coeffs.Length
import PolyPlot.Scalar.Rational

open Polynomial

namespace PolyPlot.Coeffs

/-- The polynomial with given coefficients. -/
noncomputable def toPolynomial : Coeffs ℚ → ℚ[X]
  | [] => 0
  | c :: p => C c + X * toPolynomial p

@[simp] theorem toPolynomial_nil : toPolynomial [] = 0 :=
  rfl

@[simp] theorem toPolynomial_cons (c : ℚ) (p : Coeffs ℚ) :
    toPolynomial (c :: p) = C c + X * toPolynomial p :=
  rfl

theorem toPolynomial_add (p q : Coeffs ℚ) :
    toPolynomial (p.add q) = toPolynomial p + toPolynomial q := by
  induction p generalizing q with
  | nil => simp [add]
  | cons a p ih =>
    cases q with
    | nil => simp [add]
    | cons b q =>
      simp only [add, toPolynomial_cons, ih, zero_add, map_add]
      ring

theorem toPolynomial_negate (p : Coeffs ℚ) : toPolynomial p.negate = -toPolynomial p := by
  induction p with
  | nil => simp [negate]
  | cons c p ih =>
    simp only [negate, List.map_cons, toPolynomial_cons, map_neg] at ih ⊢
    rw [ih]
    ring

theorem toPolynomial_subtract (p q : Coeffs ℚ) :
    toPolynomial (p.subtract q) = toPolynomial p - toPolynomial q := by
  induction p generalizing q with
  | nil => simpa [subtract, negate] using toPolynomial_negate q
  | cons a p ih =>
    cases q with
    | nil => simp [subtract]
    | cons b q =>
      simp only [subtract, toPolynomial_cons, ih, zero_add, map_sub]
      ring

theorem toPolynomial_map_div (p : Coeffs ℚ) (d : ℚ) :
    toPolynomial (p.map (· / d)) = toPolynomial p * C d⁻¹ := by
  induction p with
  | nil => simp
  | cons a p ih =>
    rw [List.map_cons, toPolynomial_cons, toPolynomial_cons, ih, div_eq_mul_inv, map_mul]
    ring

theorem toPolynomial_replicate_zero (n : ℕ) : toPolynomial (List.replicate n 0) = 0 := by
  induction n with
  | zero => rfl
  | succ n ih => simp [List.replicate_succ, ih]

theorem toPolynomial_addMultiple (a : ℚ) {sums q : Coeffs ℚ} (hlength : q.length ≤ sums.length) :
    toPolynomial (addMultiple a sums q) = toPolynomial sums + C a * toPolynomial q := by
  induction sums generalizing q with
  | nil =>
    obtain rfl := List.eq_nil_of_length_eq_zero (Nat.le_zero.mp hlength)
    simp [addMultiple]
  | cons s sums ih =>
    cases q with
    | nil => simp [addMultiple]
    | cons b q =>
      simp only [addMultiple, toPolynomial_cons, ih (by simpa using hlength), map_add, map_mul]
      ring

/-- The sums must have room for the whole product: a vector is not made longer. -/
theorem toPolynomial_addProduct {sums p q : Coeffs ℚ} (hq : q ≠ [])
    (hlength : p.length + q.length ≤ sums.length + 1) :
    toPolynomial (addProduct sums p q) = toPolynomial sums + toPolynomial p * toPolynomial q := by
  have hpositive := List.length_pos_iff.mpr hq
  induction p generalizing sums with
  | nil => simp [addProduct]
  | cons a p ih =>
    simp only [List.length_cons] at hlength
    have hfirst : toPolynomial (addMultiple a sums q) = toPolynomial sums + C a * toPolynomial q :=
      toPolynomial_addMultiple a (by omega)
    have hrest := length_addMultiple a sums q
    unfold addProduct
    split
    · next h =>
      rw [h, List.length_nil] at hrest
      omega
    · next s rest h =>
      rw [h, List.length_cons] at hrest
      rw [h, toPolynomial_cons] at hfirst
      rw [toPolynomial_cons, toPolynomial_cons, ih (by omega), mul_add, ← add_assoc, hfirst]
      ring

theorem toPolynomial_multiply (p q : Coeffs ℚ) :
    toPolynomial (p.multiply q) = toPolynomial p * toPolynomial q := by
  by_cases hp : p = []
  · simp [multiply, hp]
  by_cases hq : q = []
  · simp [multiply, hq]
  have hroom : p.length + q.length ≤ (List.replicate (p.length + q.length - 1) (0 : ℚ)).length + 1 := by
    simp
    omega
  rw [multiply, if_neg (by simp [hp, hq]), toPolynomial_addProduct hq hroom, toPolynomial_replicate_zero,
    zero_add]

theorem toPolynomial_multiplyMore (product p : Coeffs ℚ) (n : ℕ) :
    toPolynomial (multiplyMore product p n) = toPolynomial product * toPolynomial p ^ n := by
  induction n generalizing product with
  | zero => simp [multiplyMore]
  | succ n ih =>
    rw [multiplyMore, ih, toPolynomial_multiply]
    ring

theorem toPolynomial_power (p : Coeffs ℚ) (n : ℕ) :
    toPolynomial (p.power n) = toPolynomial p ^ n := by
  cases n with
  | zero => simp [power]
  | succ n =>
    rw [power, toPolynomial_multiplyMore]
    ring

/-- Nested multiplication evaluates the polynomial. -/
theorem value_eq_eval (x : ℚ) (p : Coeffs ℚ) : p.value x = (toPolynomial p).eval x := by
  induction p with
  | nil => simp [value]
  | cons c p ih =>
    cases p with
    | nil => simp [value]
    | cons d p =>
      rw [value, ih, toPolynomial_cons c]
      · simp only [eval_add, eval_mul, eval_C, eval_X]
        ring
      · simp

theorem value_map_div (x : ℚ) (p : Coeffs ℚ) (d : ℚ) : value x (p.map (· / d)) = p.value x / d := by
  rw [value_eq_eval, toPolynomial_map_div, eval_mul, eval_C, value_eq_eval, div_eq_mul_inv]

end PolyPlot.Coeffs
