import PolyPlot.Json.Basic
import PolyPlot.Scalar.Binary
import PolyPlot.Service.Number

namespace PolyPlot.Service

/-- What is wrong with a value. -/
inductive Flaw where
  | missing
  | notJson
  | notObject
  | notText
  | notList
  | notDouble
  | unreadableDouble
  | notInt
  | unreadableInt
  | fractional
  | notFinite
  | tooLong
  | notAbove
  | above
  deriving DecidableEq, Repr

def Flaw.name : Flaw → String
  | missing => "missing"
  | notJson => "json_invalid"
  | notObject => "model_attributes_type"
  | notText => "string_type"
  | notList => "list_type"
  | notDouble => "float_type"
  | unreadableDouble => "float_parsing"
  | notInt => "int_type"
  | unreadableInt => "int_parsing"
  | fractional => "int_from_float"
  | notFinite => "finite_number"
  | tooLong => "int_parsing_size"
  | notAbove => "greater_than"
  | above => "less_than_equal"

/-- A step on the way to a value in a request. -/
inductive Step where
  | field (name : String)
  | index (n : Nat)
  deriving DecidableEq, Repr

/-- A flaw and the way to the value that has it. -/
structure Problem where
  flaw : Flaw
  path : List Step := []
  deriving DecidableEq, Repr

/-- A value that has been checked, or all problems with it. -/
inductive Checked (β : Type) where
  | ok (value : β)
  | flawed (problems : List Problem)

namespace Checked

variable {β γ : Type}

def flaw (f : Flaw) : Checked β :=
  flawed [⟨f, []⟩]

def map (f : β → γ) : Checked β → Checked γ
  | ok b => ok (f b)
  | flawed problems => flawed problems

/-- Two checked values; the problems of the first come first. -/
def both : Checked β → Checked γ → Checked (β × γ)
  | ok b, ok c => ok (b, c)
  | ok _, flawed problems => flawed problems
  | flawed problems, ok _ => flawed problems
  | flawed problems, flawed more => flawed (problems ++ more)

def apply (f : Checked (β → γ)) (b : Checked β) : Checked γ :=
  (f.both b).map fun (g, x) => g x

instance : Applicative Checked where
  pure := ok
  seq f b := f.apply (b ())

def under (step : Step) : Checked β → Checked β
  | ok b => ok b
  | flawed problems => flawed (problems.map fun p => { p with path := step :: p.path })

/-- A value that has to pass a test. -/
def require (test : β → Bool) (f : Flaw) : Checked β → Checked β
  | ok b => if test b then ok b else flaw f
  | flawed problems => flawed problems

end Checked

def checkText : Json → Checked String
  | .text s => .ok s
  | _ => .flaw .notText

/-- A double: a number within the range of doubles, a truth value, or a text that names a double. -/
def checkDouble : Json → Checked Float
  | .float x => .ok x
  | .int n =>
    let x := Double.ofRat n
    if x.isFinite then .ok x else .flaw .notDouble
  | .bool b => .ok (if b then 1 else 0)
  | .text s =>
    match readDouble? s with
    | some x => .ok x
    | none => .flaw .unreadableDouble
  | _ => .flaw .notDouble

def wholeDouble (x : Float) : Checked Int :=
  match (Binary.ofFloat x).rational? with
  | none => .flaw .notFinite
  | some r =>
    if r.den ≠ 1 then .flaw .fractional
    else if -0x8000000000000000 ≤ r.num ∧ r.num ≤ 0x8000000000000000 then .ok r.num
    else .flaw .tooLong

/-- A whole number: as a number, a truth value, or a text that names a whole number. -/
def checkInt : Json → Checked Int
  | .int n => .ok n
  | .bool b => .ok (if b then 1 else 0)
  | .float x => wholeDouble x
  | .text s =>
    match readInt? s with
    | some n => .ok n
    | none => .flaw .unreadableInt
  | _ => .flaw .notInt

def checkItems {β : Type} (check : Json → Checked β) (index : Nat) : List Json → Checked (List β)
  | [] => .ok []
  | item :: rest =>
    (((check item).under (.index index)).both (checkItems check (index + 1) rest)).map
      fun (b, bs) => b :: bs

def checkList {β : Type} (check : Json → Checked β) : Json → Checked (List β)
  | .array items => checkItems check 0 items
  | _ => .flaw .notList

def checkField {β : Type} (request : Json) (name : String) (usual : β) (check : Json → Checked β) :
    Checked β :=
  match request.get? name with
  | some v => (check v).under (.field name)
  | none => .ok usual

end PolyPlot.Service
