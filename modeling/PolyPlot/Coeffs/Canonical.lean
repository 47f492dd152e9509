import PolyPlot.Coeffs.Basic

namespace PolyPlot.Coeffs

variable {α : Type} [Scalar α]

/-- The vector without the entries at its end whose magnitude is below the tolerance. -/
def dropSmall (ε : α) : Coeffs α → Coeffs α
  | [] => []
  | c :: rest =>
    match dropSmall ε rest with
    | [] => if Scalar.abs c < ε then [] else [c]
    | kept => c :: kept

/-- The vector without small entries at its end, except that its first entry stays; the empty vector
becomes the zero polynomial. -/
def canonical (ε : α) : Coeffs α → Coeffs α
  | [] => [0]
  | c :: rest => c :: dropSmall ε rest

/-- Whether two vectors, the shorter filled up with zeros, differ nowhere by more than the
tolerance. -/
def agree (ε : α) : Coeffs α → Coeffs α → Bool
  | [], q => q.all fun b => decide (Scalar.abs (0 - b) ≤ ε)
  | p, [] => p.all fun a => decide (Scalar.abs (a - 0) ≤ ε)
  | a :: p, b :: q => decide (Scalar.abs (a - b) ≤ ε) && agree ε p q

/-- The highest power whose coefficient exceeds the tolerance. -/
def leading? (ε : α) : Coeffs α → Option Nat
  | [] => none
  | c :: rest =>
    match leading? ε rest with
    | some n => some (n + 1)
    | none => if ε < Scalar.abs c then some 0 else none

/-- The highest power whose coefficient exceeds the tolerance, zero if there is none. -/
def degree (ε : α) (p : Coeffs α) : Nat :=
  (leading? ε p).getD 0

end PolyPlot.Coeffs
