namespace PolyPlot

/-- The steps of arithmetic that have no answer. -/
inductive Fault where
  /-- A quotient or remainder by zero. -/
  | divisionByZero
  /-- A whole number was asked of an infinity, or a double of a number beyond its range. -/
  | overflow
  /-- A whole number was asked of something that is not a number. -/
  | notANumber
  /-- Digits after the point were asked for in a number that cannot count them. -/
  | badPrecision
  /-- A whole number with too many digits was to be written. -/
  | tooManyDigits
  /-- A value within more others than there are levels left. -/
  | tooDeep
  /-- A walk towards a limit that it never reaches. -/
  | unending
  deriving DecidableEq, Repr

/-- The numbers that coefficients, points and pixel positions are made of: doubles, which run, and rationals, in
which the laws are stated. Some pairs may be incomparable, and infinities and undefined values have no whole
part. -/
class Scalar (α : Type) extends
    Zero α, One α, Add α, Sub α, Mul α, Div α, Neg α, LT α, LE α where
  decideLT : DecidableLT α
  decideLE : DecidableLE α
  /-- The number of a whole number. -/
  ofInt : Int → α
  abs : α → α
  /-- Whether the number is neither infinite nor undefined. -/
  isFinite : α → Bool
  /-- The greatest whole number not above. -/
  floor : α → Except Fault Int
  /-- The least whole number not below. -/
  ceil : α → Except Fault Int
  /-- The remainder of a division rounded down, so it has the divisor's sign; the divisor is not zero. -/
  remainder : α → α → α

class SquareRoot (α : Type) where
  sqrt : α → α

namespace Scalar

variable {α : Type} [Scalar α]

instance : DecidableLT α := decideLT

instance : DecidableLE α := decideLE

/-- Whether the number equals zero, of either sign. -/
def isZero (a : α) : Bool :=
  decide (a ≤ 0) && decide (0 ≤ a)

/-- The quotient, refused only for a divisor that equals zero. -/
def div? (a b : α) : Except Fault α :=
  if isZero b then .error .divisionByZero else .ok (a / b)

/-- The remainder with the divisor's sign, refused only for a divisor that equals zero. -/
def remainder? (a b : α) : Except Fault α :=
  if isZero b then .error .divisionByZero else .ok (remainder a b)

/-- The number of a whole number that is not too great to have one. -/
def ofInt? (n : Int) : Except Fault α :=
  if isFinite (ofInt n : α) then .ok (ofInt n) else .error .overflow

def half : α :=
  1 / ofInt 2

end Scalar

end PolyPlot
