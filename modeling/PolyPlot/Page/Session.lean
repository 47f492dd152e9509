import PolyPlot.Curve.Basic
import PolyPlot.Plot.Viewport
import PolyPlot.Scalar.Binary

namespace PolyPlot.Page

/-- What the visitor does at once. -/
structure Interaction where
  /-- The values entered into fields, each with the name of its field. -/
  entered : List (String × String) := []
  /-- The names of the buttons that are pressed. -/
  pressed : List String := []

/-- The state of a visit. -/
structure Session where
  curves : List Curve
  viewport : Viewport Float
  /-- The count of curves that were given an id of their own. -/
  generated : Nat := 0
  /-- The values of fields by name, the newest first. -/
  fields : List (String × String) := []

namespace Session

/-- The expression of the curve that a visit starts with. -/
def firstExpression : String := "x^2"

/-- The canvas that a visit starts with. -/
def firstViewport : Viewport Float :=
  { (Viewport.standard : Viewport Float) with width := 900 }

/-- Appends the curve of an expression. -/
def add (levels : Nat) (text : String) (s : Session) : Except Expression.Failure Session := do
  let curves ← Curve.add levels {} text (Curve.autoId (s.generated + 1)) s.curves
  return { s with curves, generated := s.generated + 1 }

def start (levels : Nat) (curves? : Option (List Curve)) (viewport? : Option (Viewport Float)) :
    Session :=
  let empty : Session := { curves := [], viewport := viewport?.getD firstViewport }
  match curves? with
  | some curves => { empty with curves }
  | none => (empty.add levels firstExpression).toOption.getD empty

def enter (values : List (String × String)) (s : Session) : Session :=
  { s with fields := values ++ s.fields }

def field (name default : String) (s : Session) : String :=
  (s.fields.lookup name).getD default

end Session

end PolyPlot.Page
