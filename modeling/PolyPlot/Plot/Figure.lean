import PolyPlot.Curve.Basic
import PolyPlot.Plot.Color
import PolyPlot.Plot.Grid
import PolyPlot.Plot.Trace

namespace PolyPlot

/-- How a line of a figure is drawn. -/
inductive Stroke where
  | grid
  | axis
  /-- A curve in a colour of six hexadecimal digits. -/
  | curve (color : String)

namespace Stroke

def color : Stroke → String
  | grid | axis => "#000000"
  | curve color => color

/-- The opacity of a line, missing where it is left to the medium. -/
def opacity? : Stroke → Option Float
  | grid => some 0.06
  | axis => some 0.25
  | curve _ => none

def width : Stroke → Float
  | grid | axis => 1
  | curve _ => 2

end Stroke

/-- Where a line of a figure runs. -/
inductive Shape where
  /-- From top to bottom in a column. -/
  | column (x : Float)
  /-- From side to side in a row. -/
  | row (y : Float)
  | path (points : List (Float × Float))

/-- Which part of a label stands at its position. -/
inductive Align where
  | center
  | right

/-- A text of a figure. -/
structure Label where
  x : Float
  y : Float
  text : String
  align : Align

/-- A drawing: its size in inches, the ends of its axes, and lines and labels in drawing order. -/
structure Figure where
  inches : Float × Float
  xLimits : Float × Float
  yLimits : Float × Float
  lines : List (Shape × Stroke)
  labels : List Label

namespace Figure

/-- Why a figure cannot be drawn. -/
inductive Failure where
  | fault (fault : Fault)
  | negativeSize
  | unknownColor (text : String)
  deriving DecidableEq, Repr

/-- The pixels of an inch, unless told otherwise. -/
def defaultDpi : Int := 100

/-- The size in inches of so many pixels. -/
def size (v : Viewport Float) (dpi : Int) : Except Failure (Float × Float) := do
  let inches := fun pixels : Int => Except.mapError Failure.fault do
    let perInch : Float ← Scalar.ofInt? dpi
    Scalar.div? (← Scalar.ofInt? pixels) perInch
  let (w, h) := (← inches v.width, ← inches v.height)
  if w < 0 ∨ h < 0 then throw .negativeSize
  return (w, h)

/-- The ends of an axis; an axis without length is widened. -/
def limits (first last : Int) : Float × Float :=
  if first = last then (-0.05, 0.05) else (Scalar.ofInt first, Scalar.ofInt last)

/-- The labels of the ticks: below the horizontal axis and left of the vertical one. -/
def tickLabels (v : Viewport Float) : Except Fault (List Label) := do
  let (xTicks, yTicks) ← v.ticks
  let number := fun n : Int => String.ofList (Decimal.intText n)
  let (x, y) := (← v.centerX, ← v.centerY)
  let below := xTicks.map fun t => ⟨t.position, y + 16, number t.value, .center⟩
  let beside := yTicks.map fun t => ⟨x - 8, t.position + 4, number t.value, .right⟩
  return below ++ beside

/-- The polylines of a curve in its colour, none if the curve is hidden or empty. -/
def curveLines (v : Viewport Float) (margin : Float) (c : Curve) :
    Except Failure (List (Shape × Stroke)) := do
  let p := c.coefficients?.getD []
  if !c.visible || p.isEmpty then return []
  let segments ← (v.trace margin p).mapError .fault
  if segments.isEmpty then return []
  let text := c.color?.getD "#000000"
  match Color.read? text with
  | some color => return segments.map fun points => (.path points, .curve color)
  | none => throw (.unknownColor text)

/-- The figure of curves on a canvas. -/
def build (curves : List Curve) (v : Viewport Float) (margin : Float) (dpi : Int) :
    Except Failure Figure := do
  let inches ← size v dpi
  let columns ← v.gridColumns.mapError .fault
  let rows ← v.gridRows.mapError .fault
  let axes := (← v.centerY.mapError .fault, ← v.centerX.mapError .fault)
  let labels ← (tickLabels v).mapError .fault
  let drawn ← curves.mapM (curveLines v margin)
  return {
    inches
    xLimits := limits 0 v.width
    yLimits := limits v.height 0
    lines :=
      columns.map (fun x => (.column x, .grid)) ++ rows.map (fun y => (.row y, .grid))
        ++ [(.row axes.1, .axis), (.column axes.2, .axis)] ++ drawn.flatten
    labels }

end Figure

end PolyPlot
