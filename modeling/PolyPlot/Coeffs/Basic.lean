import PolyPlot.Scalar

namespace PolyPlot

/-- The coefficients of a polynomial, the one of the lowest power first. Zeros at the end are kept. -/
abbrev Coeffs (α : Type) := List α

namespace Coeffs

variable {α : Type} [Scalar α]

/-- The sum of two vectors, as long as the longer one. -/
def add : Coeffs α → Coeffs α → Coeffs α
  | [], q => q.map (0 + ·)
  | p, [] => p.map (0 + ·)
  | a :: p, b :: q => (0 + a + b) :: add p q

/-- The difference of two vectors, as long as the longer one. -/
def subtract : Coeffs α → Coeffs α → Coeffs α
  | [], q => q.map (0 - ·)
  | p, [] => p.map (0 + ·)
  | a :: p, b :: q => (0 + a - b) :: subtract p q

/-- The vector with every sign turned. -/
def negate (p : Coeffs α) : Coeffs α :=
  p.map (- ·)

/-- Adds the multiple of a vector by `a` to the front of `sums`, which is at least as long. -/
def addMultiple (a : α) : Coeffs α → Coeffs α → Coeffs α
  | s :: sums, b :: q => (s + a * b) :: addMultiple a sums q
  | sums, _ => sums

/-- Adds the product of two vectors to `sums`, one coefficient of the left one after the other. The
first sum takes no part in later powers. -/
def addProduct (sums : Coeffs α) : Coeffs α → Coeffs α → Coeffs α
  | [], _ => sums
  | a :: p, q =>
    match addMultiple a sums q with
    | [] => []
    | s :: rest => s :: addProduct rest p q

/-- The product of two vectors, empty if one of them is. -/
def multiply (p q : Coeffs α) : Coeffs α :=
  if p.isEmpty || q.isEmpty then []
  else addProduct (List.replicate (p.length + q.length - 1) 0) p q

/-- The quotient by a number, `none` if its magnitude is below the tolerance. -/
def divide (ε : α) (p : Coeffs α) (scalar : α) : Except Fault (Option (Coeffs α)) :=
  if Scalar.abs scalar < ε then .ok none
  else (p.mapM (Scalar.div? · scalar)).map some

def multiplyMore (product p : Coeffs α) : Nat → Coeffs α
  | 0 => product
  | n + 1 => multiplyMore (multiply product p) p n

/-- A power by repeated multiplication; the power zero is the constant one. -/
def power (p : Coeffs α) : Nat → Coeffs α
  | 0 => [1]
  | n + 1 => multiplyMore p p n

/-- The value at a point, by nested multiplication; an empty vector has the value zero. -/
def value (x : α) : Coeffs α → α
  | [] => 0
  | [c] => c
  | c :: rest => value x rest * x + c

end Coeffs

end PolyPlot
