import PolyPlot.Plot.Viewport
import PolyPlot.Proofs.Answers

namespace PolyPlot

/-- A whole number that is not too great to have a number of a kind. -/
def Scalar.Represents (α : Type) [Scalar α] (n : Int) : Prop :=
  Scalar.isFinite (Scalar.ofInt n : α) = true

instance (α : Type) [Scalar α] (n : Int) : Decidable (Scalar.Represents α n) :=
  inferInstanceAs (Decidable (_ = true))

namespace Viewport

open Scalar

variable {α : Type} [Scalar α] {v : Viewport α} {size : Int} {pan : α}

/-- The middle of so many pixels, moved by a pan. -/
def middle (size : Int) (pan : α) : α :=
  ofInt size / ofInt 2 + pan

/-- The column of the origin. -/
def originX (v : Viewport α) : α :=
  middle v.width v.panX

/-- The row of the origin. -/
def originY (v : Viewport α) : α :=
  middle v.height v.panY

/-- The column of an abscissa. -/
def columnOf (v : Viewport α) (x : α) : α :=
  v.originX + x * v.scale

/-- The row of an ordinate. -/
def rowOf (v : Viewport α) (y : α) : α :=
  v.originY - y * v.scale

theorem center_eq (h : Represents α size) (pan : α) : center size pan = .ok (middle size pan) := by
  have hnumber : ofInt? size = .ok (ofInt size : α) := if_pos h
  rw [center, hnumber]
  rfl

theorem center_eq_overflow (h : ¬ Represents α size) (pan : α) : center size pan = .error .overflow := by
  have hnumber : (ofInt? size : Except Fault α) = .error .overflow := if_neg h
  rw [center, hnumber]
  rfl

/-- A canvas whose size is not too great has an origin, and each point of the plane a place on it. -/
theorem centerX_eq (h : Represents α v.width) : v.centerX = .ok v.originX :=
  center_eq h v.panX

theorem centerY_eq (h : Represents α v.height) : v.centerY = .ok v.originY :=
  center_eq h v.panY

theorem toPixelX_eq (h : Represents α v.width) (x : α) : v.toPixelX x = .ok (v.columnOf x) := by
  rw [toPixelX, centerX_eq h]
  rfl

theorem toPixelY_eq (h : Represents α v.height) (y : α) : v.toPixelY y = .ok (v.rowOf y) := by
  rw [toPixelY, centerY_eq h]
  rfl

theorem toPixelY_eq_overflow (h : ¬ Represents α v.height) (y : α) : v.toPixelY y = .error .overflow := by
  rw [toPixelY, centerY, center_eq_overflow h]
  rfl

theorem toMathX_eq (h : Represents α v.width) (hscale : isZero v.scale = false) (column : α) :
    v.toMathX column = .ok ((column - v.originX) / v.scale) := by
  rw [toMathX, centerX_eq h, ok_bind, div?, hscale]
  rfl

theorem toMathX_eq_overflow (h : ¬ Represents α v.width) (column : α) :
    v.toMathX column = .error .overflow := by
  rw [toMathX, centerX, center_eq_overflow h]
  rfl

end Viewport

end PolyPlot
