import Mathlib.Data.Rat.Floor
import Mathlib.Algebra.Order.Ring.Abs
import PolyPlot.Scalar.Rational

namespace PolyPlot.Scalar

@[simp] theorem isFinite_rat (r : ℚ) : Scalar.isFinite r = true :=
  rfl

@[simp] theorem ofInt_rat (n : ℤ) : (Scalar.ofInt n : ℚ) = n :=
  rfl

@[simp] theorem floor_rat (r : ℚ) : Scalar.floor r = .ok ⌊r⌋ :=
  rfl

@[simp] theorem ceil_rat (r : ℚ) : Scalar.ceil r = .ok ⌈r⌉ :=
  congrArg Except.ok (Rat.ceil_eq_neg_floor_neg r)

@[simp] theorem half_rat : (Scalar.half : ℚ) = 1 / 2 := by
  norm_num [half]

@[simp] theorem abs_rat (r : ℚ) : Scalar.abs r = |r| := by
  change Rat.abs r = |r|
  rcases le_total 0 r with h | h
  · rw [Rat.abs_of_nonneg h, abs_of_nonneg h]
  · rw [Rat.abs_of_nonpos h, abs_of_nonpos h]

@[simp] theorem isZero_rat (r : ℚ) : isZero r = true ↔ r = 0 := by
  simp only [isZero, Bool.and_eq_true, decide_eq_true_eq]
  exact ⟨fun ⟨hle, hge⟩ => le_antisymm hle hge, fun h => ⟨h.le, h.ge⟩⟩

theorem div?_rat {a b : ℚ} (hb : b ≠ 0) : div? a b = .ok (a / b) := by
  rw [div?, if_neg (by simpa using hb)]

theorem remainder_rat (a b : ℚ) : Scalar.remainder a b = a - b * ⌊a / b⌋ :=
  rfl

theorem div?_rat_zero (a : ℚ) : div? a 0 = .error .divisionByZero := by
  rw [div?, if_pos (by simp)]

end PolyPlot.Scalar
