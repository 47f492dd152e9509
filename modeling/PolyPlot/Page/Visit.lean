import PolyPlot.Page.Editor

namespace PolyPlot.Page

def title : String := "Ilustrador de Equacoes"

def noExample : String := "-"

/-- The expression to add: that of the chosen example, or the text that was entered. -/
def wanted (entered chosen : String) : Except Failure String :=
  if chosen = noExample then .ok entered
  else
    match Palette.presets.find? fun p => p.name = chosen with
    | some preset => .ok preset.value
    | none => .error .unknownExample

/-- The form for a new curve. -/
def addition (levels : Nat) (pressed : List String) : Pass Unit := do
  let entered ← Pass.textInput "Nova curva" ""
  let chosen ← Pass.choice "Exemplos" (noExample :: Palette.presets.map Named.name) 0
  if ← Pass.button pressed "Adicionar" "Adicionar" then
    let text ← Pass.require (wanted entered chosen)
    match (← Pass.session).add (levels - 1) text with
    | .ok s =>
      Pass.setSession s
      Pass.rerun
    | .error (.refused e) => Pass.put (.error e.message)
    | .error (.fault f) => Pass.require (.error (.fault f))

/-- The pixels of one step of panning. -/
def panStep : Float := 50

/-- The buttons that change the canvas, with what they do. -/
def controls : List (String × (Viewport Float → Except Fault (Viewport Float))) :=
  [("+", fun v => .ok (v.zoomedIn Viewport.zoomStep)),
    ("−", fun v => v.zoomedOut Viewport.zoomStep),
    ("←", fun v => .ok (v.panned panStep 0)),
    ("→", fun v => .ok (v.panned (-panStep) 0)),
    ("↑", fun v => .ok (v.panned 0 panStep)),
    ("↓", fun v => .ok (v.panned 0 (-panStep))),
    ("Resetar", fun v => .ok v.reset)]

/-- The buttons of the canvas and its zoom. -/
def navigation (pressed : List String) : Pass Unit := do
  let s ← Pass.session
  let viewport ← controls.foldlM (fun v (label, change) => do
    if ← Pass.button pressed label label then Pass.require ((change v).mapError .fault)
    else return v) s.viewport
  Pass.setSession { s with viewport }
  Pass.put (.caption ("Zoom: " ++ Decimal.fixed 0 (viewport.zoom * 100) ++ "%"))

def whole (levels : Nat) (pressed : List String) : Pass Figure := do
  Pass.put (.page title "ƒ" "wide")
  Pass.put (.title title)
  Pass.put (.header "Curvas")
  (← Pass.session).curves.forM (Editor.edit (levels - 1) pressed)
  addition levels pressed
  navigation pressed
  let s ← Pass.session
  Pass.require ((Figure.build s.curves s.viewport Viewport.defaultMargin Figure.defaultDpi).mapError
    .figure)

/-- What the visitor sees after an interaction. -/
structure View where
  /-- What is on the page, in order. -/
  shown : List Element
  /-- How often the page was made anew. -/
  reruns : Nat
  figure : Figure

/-- The outcome of a pass, what it put on the page, and the session after it. -/
def runPass (levels : Nat) (pressed : List String) (s : Session) :
    Except Interruption Figure × Progress :=
  (whole levels pressed).run.run { session := s }

/-- The page made anew, with no button pressed. Only a button has it made anew once more, so that would
go on for ever. -/
def anew (levels : Nat) (s : Session) : Except Failure View × Session :=
  match runPass levels [] s with
  | (.ok figure, p) => (.ok ⟨p.shown, 1, figure⟩, p.session)
  | (.error (.failed failure), p) => (.error failure, p.session)
  | (.error .rerun, p) => (.error (.fault .unending), p.session)

def visit (levels : Nat) (i : Interaction) (s : Session) : Except Failure View × Session :=
  match runPass levels i.pressed (s.enter i.entered) with
  | (.ok figure, p) => (.ok ⟨p.shown, 0, figure⟩, p.session)
  | (.error (.failed failure), p) => (.error failure, p.session)
  | (.error .rerun, p) => anew levels p.session

end PolyPlot.Page
