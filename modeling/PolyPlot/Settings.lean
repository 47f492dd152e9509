import PolyPlot.Expression.Compilation
import PolyPlot.Text.Path
import PolyPlot.Yaml.Value

namespace PolyPlot

namespace Settings

/-- The tolerance of zero, and the places after the point in texts. -/
structure Precision where
  epsilon : Float := 1e-10
  formatDecimals : Int := 4

structure Limits where
  maxExponent : Int := 50
  maxExpressionLength : Option Int := none

/-- The canvas of a plot, and how far a curve is followed beyond it. -/
structure Plot where
  width : Int := 800
  height : Int := 600
  baseScale : Float := 50
  zoom : Float := 1
  margin : Float := 1000
  dpi : Int := 100

end Settings

structure Settings where
  version : String := "1.0.0"
  precision : Settings.Precision := {}
  limits : Settings.Limits := {}
  plot : Settings.Plot := {}
  logging : List (Yaml.Value × Yaml.Value) := []

namespace Settings

open Yaml (Value)

def compilerOptions (s : Settings) : Expression.Options :=
  { epsilon := s.precision.epsilon
    maxExponent := s.limits.maxExponent
    maxLength := s.limits.maxExpressionLength }

/-- Why a document gives no settings. -/
inductive Error where
  | missingFile
  | malformed
  | rootNotMapping
  | sectionNotMapping (name : String)
  | invalidValue
  | epsilonNotPositive
  | negativeExponent
  | lengthNotPositive
  deriving DecidableEq, Repr

def Error.message (path : String) : Error → String
  | missingFile => "Configuration file not found: " ++ Path.plain path
  | malformed => "Invalid YAML in " ++ Path.plain path
  | rootNotMapping => "Configuration root must be a mapping in " ++ Path.plain path
  | sectionNotMapping name => "'" ++ name ++ "' must be a mapping"
  | invalidValue => "Invalid value in " ++ path
  | epsilonNotPositive => "precision.epsilon must be positive"
  | negativeExponent => "limits.max_exponent must be non-negative"
  | lengthNotPositive => "limits.max_expression_length must be positive when set"

/-- How reading settings ends without settings. -/
inductive Failure where
  | refused (error : Error)
  /-- A number is beyond what it is converted to. -/
  | fault (fault : Fault)
  /-- A part of the document is marked as something that it is not. -/
  | document (error : Yaml.Error)
  deriving DecidableEq, Repr

def membersOr (error : Error) (v : Value) : Except Failure (List (Value × Value)) :=
  match v with
  | .mapping members => .ok members
  | v => if v.isTruthy then .error (.refused error) else .ok []

/-- The members of a section of a document. -/
def sectionOf (name : String) (root : List (Value × Value)) : Except Failure (List (Value × Value)) :=
  match Value.get? name root with
  | some v => membersOr (.sectionNotMapping name) v
  | none => .ok []

def orInvalid {β : Type} (named? : Option β) : Except Failure β :=
  match named? with
  | some b => .ok b
  | none => .error (.refused .invalidValue)

def toDouble : Value → Except Failure Float
  | .bool b => .ok (if b then 1 else 0)
  | .int n =>
    let x := Double.ofRat n
    if x.isFinite then .ok x else .error (.fault .overflow)
  | .float x => .ok x
  | .text s => orInvalid (Decimal.readDouble? s)
  | .bytes b => orInvalid (Decimal.readDouble? (Yaml.Bytes.text b))
  | _ => .error (.refused .invalidValue)

/-- A value as a whole number: a number cut towards zero, a truth value, or a text that names a whole
number. -/
def toInt : Value → Except Failure Int
  | .bool b => .ok (if b then 1 else 0)
  | .int n => .ok n
  | .float x =>
    match Double.truncate x with
    | .ok n => .ok n
    | .error .overflow => .error (.fault .overflow)
    | .error _ => .error (.refused .invalidValue)
  | .text s => orInvalid (Decimal.readInt? s)
  | .bytes b => orInvalid (Decimal.readInt? (Yaml.Bytes.text b))
  | _ => .error (.refused .invalidValue)

def field {β : Type} (convert : Value → Except Failure β) (usual : β) (name : String)
    (members : List (Value × Value)) : Except Failure β :=
  match Value.get? name members with
  | some v => convert v
  | none => .ok usual

/-- A whole number or null. -/
def toIntOrNull : Value → Except Failure (Option Int)
  | .null => .ok none
  | v => (toInt v).map some

/-- The precision that a section tells. -/
def Precision.ofMembers (members : List (Value × Value)) : Except Failure Precision := do
  return {
    epsilon := ← field toDouble 1e-10 "epsilon" members
    formatDecimals := ← field toInt 4 "format_decimals" members }

/-- The limits that a section tells. -/
def Limits.ofMembers (members : List (Value × Value)) : Except Failure Limits := do
  return {
    maxExponent := ← field toInt 50 "max_exponent" members
    maxExpressionLength := ← field toIntOrNull none "max_expression_length" members }

/-- The canvas that a section tells. -/
def Plot.ofMembers (members : List (Value × Value)) : Except Failure Plot := do
  return {
    width := ← field toInt 800 "width" members
    height := ← field toInt 600 "height" members
    baseScale := ← field toDouble 50 "base_scale" members
    zoom := ← field toDouble 1 "zoom" members
    margin := ← field toDouble 1000 "margin" members
    dpi := ← field toInt 100 "dpi" members }

/-- The numbers that the sections of a document tell. -/
def numbersOf (root : List (Value × Value)) : Except Failure (Precision × Limits × Plot) := do
  let precisionPart ← sectionOf "precision" root
  let limitsPart ← sectionOf "limits" root
  let plotPart ← sectionOf "plot" root
  return (← Precision.ofMembers precisionPart, ← Limits.ofMembers limitsPart, ← Plot.ofMembers plotPart)

/-- Refuses settings that are out of range. -/
def check (p : Precision) (l : Limits) : Except Failure Unit :=
  if p.epsilon ≤ 0 then .error (.refused .epsilonNotPositive)
  else if l.maxExponent < 0 then .error (.refused .negativeExponent)
  else if l.maxExpressionLength.any (· ≤ 0) then .error (.refused .lengthNotPositive)
  else .ok ()

/-- The version that a document tells, as it is written. -/
def versionOf (levels : Nat) (root : List (Value × Value)) : Except Failure String :=
  match Value.get? "version" root with
  | some v => (v.write levels).mapError .fault
  | none => .ok "1.0.0"

/-- The settings that a document holds, with so many levels of nesting left to write its version. -/
def ofValue (levels : Nat) (document : Value) : Except Failure Settings := do
  let root ← membersOr .rootNotMapping document
  let (precision, limits, plot) ← numbersOf root
  check precision limits
  return {
    version := ← versionOf levels root, precision, limits, plot, logging := ← sectionOf "logging" root }

def ofText (levels : Nat) (text : String) : Except Failure Settings :=
  match Yaml.read text with
  | .ok document => ofValue levels document
  | .error .malformed => .error (.refused .malformed)
  | .error e => .error (.document e)

/-- The path of the settings, unless told otherwise. -/
def defaultPath : String := "configs/polycurve.yml"

def load (levels : Nat) (fileAt : String → Option String) (path : String) : Except Failure Settings :=
  match fileAt (Path.plain path) with
  | some text => ofText levels text
  | none => .error (.refused .missingFile)

/-- The name of the level from which on records are logged. -/
def logLevel (levels : Nat) (s : Settings) : Except Fault String :=
  match Value.get? "level" s.logging with
  | some v => v.write levels
  | none => .ok "INFO"

end Settings

end PolyPlot
