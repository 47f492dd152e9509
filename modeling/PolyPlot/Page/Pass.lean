import PolyPlot.Page.Session
import PolyPlot.Plot.Figure

namespace PolyPlot.Page

/-- What stands on the page. -/
inductive Element where
  | page (title icon layout : String)
  | title (text : String)
  | header (text : String)
  | textInput (name value : String)
  /-- A field with so many options to choose from. -/
  | choice (name value : String) (options : Nat)
  | button (name label : String)
  | caption (text : String)
  | error (text : String)
  deriving DecidableEq, Repr

/-- Why the page cannot be made. -/
inductive Failure where
  | fault (fault : Fault)
  /-- A curve lacks a field that is shown. -/
  | missingField
  /-- A field holds a value that is not among its options. -/
  | unknownOption
  /-- The chosen example does not exist. -/
  | unknownExample
  | figure (failure : Figure.Failure)
  deriving DecidableEq, Repr

/-- Why a pass ends before the end of the page. -/
inductive Interruption where
  /-- The page is made anew. -/
  | rerun
  | failed (failure : Failure)
  deriving DecidableEq, Repr

/-- How far a pass has come. -/
structure Progress where
  session : Session
  /-- What is on the page, in order. -/
  shown : List Element := []

abbrev Pass (α : Type) := ExceptT Interruption (StateM Progress) α

namespace Pass

/-- Ends the pass, and the page is made anew. -/
def rerun : Pass Unit :=
  throw Interruption.rerun

/-- The value of a computation, whose failure ends the pass. -/
def require {α : Type} : Except Failure α → Pass α
  | .ok a => pure a
  | .error failure => throw (Interruption.failed failure)

def session : Pass Session :=
  return (← get).session

def setSession (s : Session) : Pass Unit :=
  modify fun p => { p with session := s }

def changeCurves (change : List Curve → Except Failure (List Curve)) : Pass Unit := do
  let s ← session
  let curves ← require (change s.curves)
  setSession { s with curves }

def put (e : Element) : Pass Unit :=
  modify fun p => { p with shown := p.shown ++ [e] }

/-- Puts a field for a text on the page. -/
def textInput (name default : String) : Pass String := do
  let value := (← session).field name default
  put (.textInput name value)
  return value

/-- Puts a field with options on the page. -/
def choice (name : String) (options : List String) (default : Nat) : Pass String := do
  let value := (← session).field name (options.getD default "")
  put (.choice name value options.length)
  return value

/-- Puts a button on the page and tells whether it is among those that are pressed. -/
def button (pressed : List String) (name label : String) : Pass Bool := do
  put (.button name label)
  return pressed.contains name

end Pass

end PolyPlot.Page
