import PolyPlot.Scalar

namespace PolyPlot

/-- A canvas and the part of the plane that it shows. The origin is at the middle of the canvas, moved by the
pan; one unit spans `scale` pixels, and rows count downwards. -/
structure Viewport (α : Type) where
  width : Int
  height : Int
  zoom : α
  panX : α
  panY : α
  /-- The pixels of one unit at zoom one. -/
  baseScale : α

namespace Viewport

variable {α : Type} [Scalar α]

/-- A canvas of the usual size, not zoomed and not panned. -/
def standard : Viewport α :=
  ⟨800, 600, 1, 0, 0, Scalar.ofInt 50⟩

def minZoom : α :=
  1 / Scalar.ofInt 5

def maxZoom : α :=
  Scalar.ofInt 5

def zoomStep : α :=
  Scalar.ofInt 6 / Scalar.ofInt 5

/-- The pixels of one unit. -/
def scale (v : Viewport α) : α :=
  v.baseScale * v.zoom

/-- The middle of so many pixels, moved by a pan. -/
def center (size : Int) (pan : α) : Except Fault α := do
  return (← Scalar.ofInt? size) / Scalar.ofInt 2 + pan

/-- The column of the origin. -/
def centerX (v : Viewport α) : Except Fault α :=
  center v.width v.panX

/-- The row of the origin. -/
def centerY (v : Viewport α) : Except Fault α :=
  center v.height v.panY

def toMathX (v : Viewport α) (column : α) : Except Fault α := do
  Scalar.div? (column - (← v.centerX)) v.scale

/-- The column of an abscissa. -/
def toPixelX (v : Viewport α) (x : α) : Except Fault α := do
  return (← v.centerX) + x * v.scale

/-- The row of an ordinate. -/
def toPixelY (v : Viewport α) (y : α) : Except Fault α := do
  return (← v.centerY) - y * v.scale

/-- Multiplies the zoom, up to the greatest one. -/
def zoomedIn (v : Viewport α) (factor : α) : Viewport α :=
  let zoom := v.zoom * factor
  { v with zoom := if maxZoom < zoom then maxZoom else zoom }

/-- Divides the zoom, down to the least one. -/
def zoomedOut (v : Viewport α) (factor : α) : Except Fault (Viewport α) := do
  let zoom ← Scalar.div? v.zoom factor
  return { v with zoom := if zoom < minZoom then minZoom else zoom }

/-- Moves the origin on the canvas. -/
def panned (v : Viewport α) (dx dy : α) : Viewport α :=
  { v with panX := v.panX + dx, panY := v.panY + dy }

/-- Zoom one and the origin in the middle. -/
def reset (v : Viewport α) : Viewport α :=
  { v with zoom := 1, panX := 0, panY := 0 }

end Viewport

end PolyPlot
