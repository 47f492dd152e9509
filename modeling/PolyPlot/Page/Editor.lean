import PolyPlot.Coeffs.Analysis
import PolyPlot.Coeffs.Printer
import PolyPlot.Page.Pass

namespace PolyPlot.Page.Editor

/-- A field that a record must have. -/
def required {α : Type} : Option α → Except Failure α
  | some a => .ok a
  | none => .error .missingField

/-- Puts a record in the place of each with its id. All records must have one. -/
def replace (id : String) (updated : Curve) (curves : List Curve) : Except Failure (List Curve) :=
  curves.mapM fun c => do
    let other ← required c.id?
    return if other = id then updated else c

def textEntered (levels : Nat) (id shown entered : String) (curves : List Curve) :
    Except Failure (List Curve) :=
  if entered = shown then .ok curves
  else (Curve.update levels {} id entered curves).mapError .fault

/-- The curves after a colour is chosen for a curve: the record `c` from the start of the pass takes the place of
the one in the session. -/
def colorChosen (id shown chosen : String) (c : Curve) (curves : List Curve) :
    Except Failure (List Curve) :=
  if chosen = shown then .ok curves else replace id (c.recolor chosen) curves

def visibilityPressed (id : String) (pressed : Bool) (c : Curve) (curves : List Curve) :
    Except Failure (List Curve) :=
  if pressed then replace id c.toggle curves else .ok curves

/-- The place of a colour among those that can be chosen, the first one for any other colour. -/
def optionIndex (color : String) : Nat :=
  (Palette.options.findIdx? fun o => o.value = color).getD 0

def colorNamed (name : String) : Except Failure String :=
  match Palette.options.find? fun o => o.name = name with
  | some option => .ok option.value
  | none => .error .unknownOption

def visibilityLabel (c : Curve) : String :=
  if c.visible then "👁" else "○"

def refusedCaption : String :=
  ":red[Expressao invalida: mantendo a ultima curva valida.]"

/-- A vector and its roots. -/
def summary (p : Coeffs Float) : Except Fault String := do
  let ε := ({} : Expression.Options).epsilon
  let roots ← p.roots ε
  let text ← p.format ε 4
  return if roots.isEmpty then text
    else text ++ "  |  raizes: " ++ ", ".intercalate (roots.map (Decimal.general 4))

/-- What is told about a curve. -/
def captionOf (c : Curve) : Except Failure String := do
  if !c.valid then return refusedCaption
  (summary (← required c.coefficients?)).mapError .fault

def edit (levels : Nat) (pressed : List String) (c : Curve) : Pass Unit := do
  let id ← Pass.require (required c.id?)
  let text ← Pass.require (required c.expression?)
  let entered ← Pass.textInput ("expr-" ++ id) text
  Pass.changeCurves (textEntered (levels - 1) id text entered)
  let color ← Pass.require (required c.color?)
  let name ← Pass.choice ("color-" ++ id) (Palette.options.map Named.name) (optionIndex color)
  let chosen ← Pass.require (colorNamed name)
  Pass.changeCurves (colorChosen id color chosen c)
  let toggled ← Pass.button pressed ("vis-" ++ id) (visibilityLabel c)
  Pass.changeCurves (visibilityPressed id toggled c)
  if ← Pass.button pressed ("del-" ++ id) "✕" then
    Pass.changeCurves fun curves => .ok (Curve.remove id curves)
    Pass.rerun
  match Curve.find? id (← Pass.session).curves with
  | some latest => Pass.put (.caption (← Pass.require (captionOf latest)))
  | none => return ()

end PolyPlot.Page.Editor
