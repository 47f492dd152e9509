import Mathlib.Analysis.Real.Sqrt
import PolyPlot.Scalar

namespace PolyPlot

noncomputable instance : Scalar ℝ where
  decideLT := Real.decidableLT
  decideLE := Real.decidableLE
  ofInt n := (n : ℝ)
  abs r := |r|
  isFinite _ := true
  floor r := .ok ⌊r⌋
  ceil r := .ok ⌈r⌉
  remainder a b := a - b * ⌊a / b⌋

noncomputable instance : SquareRoot ℝ where
  sqrt := Real.sqrt

namespace Scalar

@[simp] theorem ofInt_real (n : ℤ) : (Scalar.ofInt n : ℝ) = n :=
  rfl

@[simp] theorem abs_real (r : ℝ) : Scalar.abs r = |r| :=
  rfl

@[simp] theorem sqrt_real (r : ℝ) : SquareRoot.sqrt r = √r :=
  rfl

@[simp] theorem isZero_real (r : ℝ) : isZero r = true ↔ r = 0 := by
  simp only [isZero, Bool.and_eq_true, decide_eq_true_eq]
  exact ⟨fun ⟨hle, hge⟩ => le_antisymm hle hge, fun h => ⟨h.le, h.ge⟩⟩

theorem div?_real {a b : ℝ} (hb : b ≠ 0) : div? a b = .ok (a / b) := by
  rw [div?, if_neg (by simpa using hb)]

end Scalar

end PolyPlot
