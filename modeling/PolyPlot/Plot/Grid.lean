import PolyPlot.Plot.Viewport

namespace PolyPlot.Viewport

variable {α : Type} [Scalar α]

/-- A walk through a region in steps of one length. -/
structure Walk (α : Type) where
  inside : α → Bool
  spacing : α

/-- The steps from a position on that a walk takes before it leaves its region, added to those counted so
far; none if it never leaves. -/
def Walk.steps (w : Walk α) (count : Nat) (position : α) : Option Nat :=
  if w.inside position then w |>.steps (count + 1) (position + w.spacing) else some count
partial_fixpoint

/-- The positions of a walk of so many steps. -/
def positions (spacing : α) : Nat → α → List α
  | 0, _ => []
  | count + 1, position => position :: positions spacing count (position + spacing)

/-- The positions in a region that a walk passes from the remainder of `start` by `spacing` on, in steps
of `spacing`. -/
def gridLines (start : α) (inside : α → Bool) (spacing : α) : Except Fault (List α) := do
  let first ← Scalar.remainder? start spacing
  match Walk.steps ⟨inside, spacing⟩ 0 first with
  | some count => return positions spacing count first
  | none => throw .unending

/-- Whether a position is below a whole number, compared without rounding. Only negative infinity is
below it without having a whole part. -/
def isBelow (limit : Int) (position : α) : Bool :=
  match Scalar.floor position with
  | .ok n => n < limit
  | .error _ => position < 0

def gridColumns (v : Viewport α) : Except Fault (List α) := do
  gridLines (← v.centerX) (isBelow v.width) v.scale

def gridRows (v : Viewport α) : Except Fault (List α) := do
  gridLines (← v.centerY) (isBelow v.height) v.scale

/-- A whole number on an axis and where it stands on the canvas. -/
structure Tick (α : Type) where
  value : Int
  position : α

/-- The tick of a whole number, given where numbers stand. -/
def tick (position : α → Except Fault α) (n : Int) : Except Fault (Tick α) := do
  return ⟨n, ← position (Scalar.ofInt n)⟩

/-- The whole numbers from `first` to `last` except zero. -/
def wholeNumbers (first last : Int) : List Int :=
  ((List.range (last - first + 1).toNat).map fun n : Nat => first + n).filter (· ≠ 0)

/-- The first and last whole number that may be visible on an axis, given the position of the origin
and the size of the canvas along it. -/
def tickRange (center size scale : α) : Except Fault (Int × Int) := do
  let first ← Scalar.floor (← Scalar.div? (-center) scale)
  let last ← Scalar.ceil (← Scalar.div? (size - center) scale)
  return (first, last)

/-- The ticks of the horizontal and of the vertical axis. -/
def ticks (v : Viewport α) : Except Fault (List (Tick α) × List (Tick α)) := do
  let (xFirst, xLast) ← tickRange (← v.centerX) (Scalar.ofInt v.width) v.scale
  let (yFirst, yLast) ← tickRange (← v.centerY) (Scalar.ofInt v.height) v.scale
  let xTicks ← (wholeNumbers xFirst xLast).mapM (tick v.toPixelX)
  let yTicks ← (wholeNumbers yFirst yLast).mapM (tick v.toPixelY)
  return (xTicks, yTicks)

end PolyPlot.Viewport
