import PolyPlot.Exact.System
import PolyPlot.Proofs.Coeffs.Polynomial

open Polynomial

namespace PolyPlot.Exact

namespace System

variable {V : Type}

/-- A system computes with numbers as rationals do. -/
structure ExactArithmetic (S : System V) : Prop where
  negate (r : ℚ) : S.negate (S.number r) = S.number (-r)
  add (r s : ℚ) : S.add (S.number r) (S.number s) = S.number (r + s)
  subtract (r s : ℚ) : S.subtract (S.number r) (S.number s) = S.number (r - s)
  multiply (r s : ℚ) : S.multiply (S.number r) (S.number s) = S.number (r * s)
  divide (r s : ℚ) (hs : s ≠ 0) : S.divide (S.number r) (S.number s) = S.number (r / s)
  power (r : ℚ) (n : ℕ) : S.power (S.number r) (S.number n) = S.number (r ^ n)
  expand (r : ℚ) : S.expand (S.number r) = S.number r
  isConstant (r : ℚ) : S.isConstant (S.number r) = true
  floor (r : ℚ) : S.floor (S.number r) = S.number ⌊r⌋

/-- A value is built from numbers and `x` by the arithmetic of polynomials, and so has a polynomial. -/
inductive Builds (S : System V) : V → ℚ[X] → Prop
  | number (r : ℚ) : Builds S (S.number r) (C r)
  | x : Builds S S.x X
  | negate {v : V} {p : ℚ[X]} (hv : Builds S v p) : Builds S (S.negate v) (-p)
  | add {v w : V} {p q : ℚ[X]} (hv : Builds S v p) (hw : Builds S w q) : Builds S (S.add v w) (p + q)
  | subtract {v w : V} {p q : ℚ[X]} (hv : Builds S v p) (hw : Builds S w q) :
      Builds S (S.subtract v w) (p - q)
  | multiply {v w : V} {p q : ℚ[X]} (hv : Builds S v p) (hw : Builds S w q) :
      Builds S (S.multiply v w) (p * q)
  | divide {v : V} {p : ℚ[X]} {r : ℚ} (hv : Builds S v p) (hr : r ≠ 0) :
      Builds S (S.divide v (S.number r)) (p * C r⁻¹)
  | power {v : V} {p : ℚ[X]} (hv : Builds S v p) (n : ℕ) : Builds S (S.power v (S.number n)) (p ^ n)

/-- The power zero of a value that is built so is one, also that of zero. -/
def PowerZero (S : System V) : Prop :=
  ∀ v p, S.Builds v p → S.power v (S.number 0) = S.number 1

/-- A number as an exponent is rounded to the nearest whole number, a half going up. -/
theorem exponent_number {S : System V} (harithmetic : S.ExactArithmetic) (r : ℚ) :
    S.exponent (S.number r) = S.number ⌊r + 1 / 2⌋ := by
  rw [exponent, harithmetic.expand, if_pos (harithmetic.isConstant r), harithmetic.add, harithmetic.floor]

end System

end PolyPlot.Exact
