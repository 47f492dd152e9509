import PolyPlot.Coeffs.Basic
import PolyPlot.Plot.Viewport

namespace PolyPlot.Viewport

variable {α : Type} [Scalar α]

/-- The pixels beyond the canvas up to which a curve is drawn. -/
def defaultMargin : α :=
  Scalar.ofInt 1000

/-- The point of a curve in a column, if its value and row are finite and its row is at most `margin`
pixels outside the canvas. -/
def sampleAt (v : Viewport α) (margin : α) (p : Coeffs α) (column : Nat) :
    Except Fault (Option (α × α)) := do
  let px := Scalar.ofInt column
  let y := p.value (← v.toMathX px)
  if !Scalar.isFinite y then return none
  let py ← v.toPixelY y
  if !Scalar.isFinite py then return none
  if py < -margin || Scalar.ofInt v.height + margin < py then return none
  return some (px, py)

def splitRuns {β : Type} : List (Option β) → List β × List (List β)
  | [] => ([], [])
  | none :: rest =>
    match splitRuns rest with
    | ([], runs) => ([], runs)
    | (run, runs) => ([], run :: runs)
  | some b :: rest =>
    let (run, runs) := splitRuns rest
    (b :: run, runs)

def runs {β : Type} (samples : List (Option β)) : List (List β) :=
  match splitRuns samples with
  | ([], later) => later
  | (run, later) => run :: later

/-- The polylines of a curve. -/
def trace (v : Viewport α) (margin : α) (p : Coeffs α) : Except Fault (List (List (α × α))) := do
  let samples ← (List.range v.width.toNat).mapM (v.sampleAt margin p)
  return runs samples

end PolyPlot.Viewport
