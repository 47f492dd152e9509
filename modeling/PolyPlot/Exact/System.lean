import PolyPlot.Decimal.Digits
import PolyPlot.Expression.Tree

namespace PolyPlot.Exact

inductive Expansion where
  | polynomial (coefficients : List Rat)
  /-- An undefined constant. -/
  | undefined

/-- The operations of a system of computer algebra on its values of type `V`. An operation that fails
gives a value without an expansion. -/
structure System (V : Type) where
  number : Rat → V
  x : V
  negate : V → V
  add : V → V → V
  subtract : V → V → V
  multiply : V → V → V
  divide : V → V → V
  power : V → V → V
  /-- A value multiplied out. -/
  expand : V → V
  /-- Whether no `x` occurs in a value. -/
  isConstant : V → Bool
  /-- The greatest whole number not above a value. -/
  floor : V → V
  /-- The coefficients of a value that is a polynomial. -/
  expansion? : V → Option Expansion

namespace System

variable {V : Type} (S : System V)

def exponent (v : V) : V :=
  let e := S.expand v
  if S.isConstant e then S.floor (S.add e (S.number (1 / 2))) else e

def value : Tree Rat → V
  | .literal r => S.number r
  | .x => S.x
  | .negate t => S.negate (value t)
  | .binary .add a b => S.add (value a) (value b)
  | .binary .subtract a b => S.subtract (value a) (value b)
  | .binary .multiply a b => S.multiply (value a) (value b)
  | .binary .divide a b => S.divide (value a) (value b)
  | .power b e => S.power (value b) (S.exponent (value e))

end System

/-- The number that the shortest text of a double writes. -/
def literal (v : Float) : Rat :=
  match Binary.ofFloat v with
  | .finite _ 0 _ => 0
  | .finite negative m e =>
    let d := Decimal.shortest m e
    mkRat (Binary.signed negative (Decimal.numerator d.digits d.exponent))
      (Decimal.denominator d.exponent)
  | _ => 0

/-- The exact expansion of an expression, or none if it is no polynomial. -/
def System.expandTree? {V : Type} (S : System V) (t : Tree Float) : Option Expansion :=
  S.expansion? (S.expand (S.value (t.map literal)))

/-- A kind of numbers in which a vector is computed and compared with an expansion. -/
structure Numbers (α : Type) where
  /-- The number of a literal. -/
  literal : Float → α
  /-- The number of an exact coefficient. -/
  ofRat : Rat → α
  /-- The number of an undefined constant, if there is one. -/
  undefined? : Option α

namespace Numbers

/-- Doubles, exact coefficients being rounded to the nearest one. -/
def doubles : Numbers Float :=
  ⟨id, Double.ofRat, some Double.undefined⟩

end Numbers

def Expansion.vector? {α : Type} (numbers : Numbers α) : Expansion → Option (List α)
  | polynomial p => some (p.map numbers.ofRat)
  | undefined => numbers.undefined?.map fun u => [u]

end PolyPlot.Exact
