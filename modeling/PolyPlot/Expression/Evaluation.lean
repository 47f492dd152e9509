import PolyPlot.Coeffs.Basic
import PolyPlot.Expression.Error
import PolyPlot.Expression.Tree

namespace PolyPlot

/-- What evaluation needs to know besides the tree. -/
structure Limits (α : Type) where
  /-- A divisor of smaller magnitude counts as zero. -/
  epsilon : α
  /-- The greatest exponent. -/
  maxExponent : Int

namespace Tree

open Expression (Failure Error)

variable {α : Type} [Scalar α]

/-- The whole number nearest to a constant exponent, a half going up. -/
def exponent (e : Coeffs α) : Except Failure Int :=
  match e with
  | [v] =>
    if Scalar.isFinite v then (Scalar.floor (v + Scalar.half)).mapError .fault
    else .error (.refused .exponentNotFinite)
  | _ => .error (.refused .nonConstantExponent)

/-- A vector to a whole power within the limits. -/
def raise (limits : Limits α) (b : Coeffs α) (n : Int) : Except Failure (Coeffs α) :=
  if n < 0 ∨ limits.maxExponent < n then (Error.exponentOutOfRange n limits.maxExponent).refuse
  else .ok (b.power n.toNat)

/-- A vector divided by a constant vector. -/
def quotient (limits : Limits α) (p q : Coeffs α) : Except Failure (Coeffs α) :=
  match q with
  | [d] =>
    match p.divide limits.epsilon d with
    | .ok (some r) => .ok r
    | .ok none => .error (.refused .zeroDivisor)
    | .error f => .error (.fault f)
  | _ => .error (.refused .nonConstantDivisor)

/-- An operation on two vectors. -/
def combine (limits : Limits α) : Operator → Coeffs α → Coeffs α → Except Failure (Coeffs α)
  | .add, p, q => .ok (p.add q)
  | .subtract, p, q => .ok (p.subtract q)
  | .multiply, p, q => .ok (p.multiply q)
  | .divide, p, q => quotient limits p q

/-- The vector of a tree, refused where it has more than so many levels. A refusal found before that
level is reached stands. -/
def evaluateWithin (limits : Limits α) : Nat → Tree α → Except Failure (Coeffs α)
  | 0, _ => .error (.refused .nestedTooDeeply)
  | _ + 1, literal v => .ok [v]
  | _ + 1, x => .ok [0, 1]
  | n + 1, negate t => do
    let p ← evaluateWithin limits n t
    return p.negate
  | n + 1, binary op a b => do
    let p ← evaluateWithin limits n a
    let q ← evaluateWithin limits n b
    combine limits op p q
  | n + 1, power b e => do
    let p ← evaluateWithin limits n b
    let q ← evaluateWithin limits n e
    raise limits p (← exponent q)

/-- The vector of a tree, with as many levels as it needs. -/
def evaluate (limits : Limits α) (t : Tree α) : Except Failure (Coeffs α) :=
  evaluateWithin limits t.height t

def evaluateUpTo (limits : Limits α) (levels : Option Nat) (t : Tree α) :
    Except Failure (Coeffs α) :=
  match levels with
  | some n => evaluateWithin limits n t
  | none => evaluate limits t

end Tree

end PolyPlot
