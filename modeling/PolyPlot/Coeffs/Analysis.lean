import PolyPlot.Coeffs.Canonical

namespace PolyPlot.Coeffs

variable {α : Type} [Scalar α]

/-- The entries multiplied by the powers from `n` on. -/
def timesPowers (n : Nat) : Coeffs α → Coeffs α
  | [] => []
  | c :: rest => c * Scalar.ofInt n :: timesPowers (n + 1) rest

/-- The entries divided by the powers from `n` on. -/
def overPowers (n : Nat) : Coeffs α → Coeffs α
  | [] => []
  | c :: rest => c / Scalar.ofInt n :: overPowers (n + 1) rest

/-- The derivative in canonical form. -/
def derivative (ε : α) : Coeffs α → Coeffs α
  | [] => [0]
  | [_] => [0]
  | _ :: rest => canonical ε (timesPowers 1 rest)

/-- The antiderivative with a given value at zero, in canonical form. -/
def integral (ε : α) (constant : α) (p : Coeffs α) : Coeffs α :=
  canonical ε (constant :: overPowers 1 p)

/-- The zero of `b + a x`. -/
def linearRoots (a b : α) : Except Fault (List α) :=
  (Scalar.div? (-b) a).map fun root => [root]

/-- The zeros of `c + b x + a x ^ 2` in ascending order; two zeros closer than the tolerance are
given as one. -/
def quadraticRoots [SquareRoot α] (ε a b c : α) : Except Fault (List α) := do
  let discriminant := b * b - Scalar.ofInt 4 * a * c
  if discriminant < 0 then return []
  let root := SquareRoot.sqrt discriminant
  let first ← Scalar.div? (-b - root) (Scalar.ofInt 2 * a)
  let second ← Scalar.div? (-b + root) (Scalar.ofInt 2 * a)
  if Scalar.abs (first - second) < ε then return [first]
  return if second < first then [second, first] else [first, second]

/-- The real zeros in ascending order for the degrees one and two; no zeros are sought otherwise. -/
def roots [SquareRoot α] (ε : α) (p : Coeffs α) : Except Fault (List α) :=
  match degree ε p, p with
  | 1, b :: a :: _ => linearRoots a b
  | 2, c :: b :: a :: _ => quadraticRoots ε a b c
  | _, _ => .ok []

end PolyPlot.Coeffs
