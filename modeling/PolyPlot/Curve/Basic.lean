import PolyPlot.Curve.Palette
import PolyPlot.Expression.Compilation

namespace PolyPlot

structure Curve where
  id? : Option String := none
  expression? : Option String := none
  coefficients? : Option (Coeffs Float) := none
  color? : Option String := none
  visible? : Option Bool := none
  /-- Whether the last text was accepted. -/
  valid? : Option Bool := none

namespace Curve

/-- Whether the curve is drawn; it is unless the record says otherwise. -/
def visible (c : Curve) : Bool :=
  c.visible?.getD true

/-- Whether the text of the curve was accepted; it was unless the record says otherwise. -/
def valid (c : Curve) : Bool :=
  c.valid?.getD true

/-- The id of the n-th curve that is given one of its own. -/
def autoId (n : Nat) : String :=
  "auto" ++ String.ofList (Decimal.text n)

/-- The curve of an expression, with so many levels of nesting left. -/
def build (levels : Nat) (o : Expression.Options) (text color id : String) :
    Except Expression.Failure Curve := do
  let p ← Expression.compile (levels - 1) o text
  return ⟨some id, some text, some p, some color, some true, some true⟩

/-- Changes the text; the coefficients follow only if the text is accepted. -/
def applyExpression (levels : Nat) (o : Expression.Options) (text : String) (c : Curve) :
    Except Fault Curve := do
  match ← Expression.parse (levels - 1) o text with
  | some p => return { c with expression? := some text, valid? := some true, coefficients? := some p }
  | none => return { c with expression? := some text, valid? := some false }

/-- Hides a curve that is drawn, and shows one that is not. -/
def toggle (c : Curve) : Curve :=
  { c with visible? := some (!c.visible) }

def recolor (color : String) (c : Curve) : Curve :=
  { c with color? := some color }

/-- A list of curves with one more at its end, coloured by its place. -/
def add (levels : Nat) (o : Expression.Options) (text id : String) (curves : List Curve) :
    Except Expression.Failure (List Curve) := do
  let c ← build (levels - 1) o text (Palette.color curves.length) id
  return curves ++ [c]

def update (levels : Nat) (o : Expression.Options) (id text : String) (curves : List Curve) :
    Except Fault (List Curve) :=
  curves.mapM fun c =>
    if c.id? = some id then c.applyExpression (levels - 2) o text else .ok c

def remove (id : String) (curves : List Curve) : List Curve :=
  curves.filter fun c => c.id? ≠ some id

def find? (id : String) (curves : List Curve) : Option Curve :=
  List.find? (fun c => c.id? = some id) curves

end Curve

end PolyPlot
