import PolyPlot.Yaml.Bytes
import PolyPlot.Yaml.Node
import PolyPlot.Yaml.Number

namespace PolyPlot.Yaml

inductive Value where
  | null
  | bool (b : Bool)
  | int (n : Int)
  | float (x : Float)
  | text (s : String)
  | bytes (b : List UInt8)
  | moment (m : Moment)
  | list (items : List Value)
  /-- An item of a list of pairs. -/
  | pair (first second : Value)
  | set (items : List Value)
  | mapping (members : List (Value × Value))
  deriving Inhabited

namespace Value

/-- Whether two numbers are equal; an undefined value equals itself. -/
def sameNumber (a b : Float) : Bool :=
  a == b || (a.isNaN && b.isNaN)

/-- Whether a whole number and a double are equal. -/
def isWhole (n : Int) (x : Float) : Bool :=
  (Binary.ofFloat x).rational? = some (n : Rat)

def whole? : Value → Option Int
  | bool b => some (if b then 1 else 0)
  | int n => some n
  | _ => none

def sameMoment (a b : Moment) : Bool :=
  let instant := fun (m : Moment) (c : Clock) (offset : Int) =>
    let day := (List.range m.month).foldl (fun n k => n + Moment.monthLength m.year k) 0 + m.day
    let year := m.year - 1
    let days : Int := 365 * year + year / 4 - year / 100 + year / 400 + day
    ((days * 1440 + 60 * c.hour + c.minute - offset) * 60 + c.second) * 1000000 + c.micros
  match a.clock?, b.clock? with
  | some c, some d =>
    match c.offset?, d.offset? with
    | some m, some n => instant a c m = instant b d n
    | _, _ => a = b
  | _, _ => a = b

def sameKey (a b : Value) : Bool :=
  match a, b with
  | null, null => true
  | text s, text t => s = t
  | bytes b, bytes c => b = c
  | moment m, moment n => sameMoment m n
  | float x, float y => sameNumber x y
  | float x, b => b.whole?.any (isWhole · x)
  | a, float y => a.whole?.any (isWhole · y)
  | a, b => a.whole?.isSome && a.whole? = b.whole?

def isKey : Value → Bool
  | list _ | pair _ _ | set _ | mapping _ => false
  | _ => true

/-- Puts a member into a mapping: a key keeps its place, and the last value for it stays. -/
def put (key value : Value) : List (Value × Value) → List (Value × Value)
  | [] => [(key, value)]
  | (k, v) :: rest => if sameKey k key then (k, value) :: rest else (k, v) :: put key value rest

def get? (key : String) (members : List (Value × Value)) : Option Value :=
  (members.find? fun m => sameKey m.1 (text key)).map Prod.snd

/-- Whether a value counts as something: neither null, false, zero nor empty. -/
def isTruthy : Value → Bool
  | null => false
  | bool b => b
  | int n => n ≠ 0
  | float x => !(x == 0)
  | text s => !s.isEmpty
  | bytes b => !b.isEmpty
  | moment _ | pair _ _ => true
  | list items | set items => !items.isEmpty
  | mapping members => !members.isEmpty

/-- A value as part of another one; a text stands in quotes. -/
def shown : Value → String
  | null => "None"
  | bool b => if b then "True" else "False"
  | int n => String.ofList (Decimal.intText n)
  | float x => Decimal.written x
  | text s => Text.shown s
  | bytes b => Bytes.shown b
  | moment m => m.text
  | list items => "[" ++ ", ".intercalate (shownItems items) ++ "]"
  | pair v w => "(" ++ shown v ++ ", " ++ shown w ++ ")"
  | set items =>
    if items.isEmpty then "set()" else "\x7b" ++ ", ".intercalate (shownItems items) ++ "\x7d"
  | mapping members => "\x7b" ++ ", ".intercalate (shownMembers members) ++ "\x7d"
where
  shownItems : List Value → List String
    | [] => []
    | v :: rest => shown v :: shownItems rest
  shownMembers : List (Value × Value) → List String
    | [] => []
    | (k, v) :: rest => (shown k ++ ": " ++ shown v) :: shownMembers rest

/-- A value on its own; a text has no quotes. -/
def plain : Value → String
  | text s => s
  | v => shown v

/-- Refuses to write a value that nests beyond the levels left, or holds a whole number with too many
digits; what comes first in the text decides. -/
def requireWritable : Value → Nat → Except Fault Unit
  | int n, _ => Decimal.requireWritable n
  | list items, levels + 1 | set items, levels + 1 => itemsWritable items levels
  | pair v w, levels + 1 => do
    requireWritable v levels
    requireWritable w levels
  | mapping members, levels + 1 => membersWritable members levels
  | list _, 0 | set _, 0 | pair _ _, 0 | mapping _, 0 => .error .tooDeep
  | null, _ | bool _, _ | float _, _ | text _, _ | bytes _, _ | moment _, _ => .ok ()
where
  itemsWritable : List Value → Nat → Except Fault Unit
    | [], _ => .ok ()
    | v :: rest, levels => do
      requireWritable v levels
      itemsWritable rest levels
  membersWritable : List (Value × Value) → Nat → Except Fault Unit
    | [], _ => .ok ()
    | (k, v) :: rest, levels => do
      requireWritable k levels
      requireWritable v levels
      membersWritable rest levels

def write (levels : Nat) (v : Value) : Except Fault String := do
  requireWritable v levels
  return plain v

end Value

namespace Node

def kind : Node → Kind
  | scalar k _ | list k _ | mapping k _ => k

def truthValue (s : String) : Except Error Value :=
  match Kind.truthNames.lookup (Kind.small s) with
  | some b => .ok (.bool b)
  | none => .error .noTruthValue

def momentValue (s : String) : Except Error Value := do
  match MomentText.read? 1 s.toList with
  | some m => return .moment (← Moment.ofText m)
  | none => throw .noMoment

def scalarValue (k : Kind) (s : String) : Except Error Value :=
  match k with
  | .null => .ok .null
  | .bool => truthValue s
  | .int => (readInt s.toList).map .int
  | .float => (readFloat s.toList).map .float
  | .text => .ok (.text s)
  | .bytes => (Bytes.ofText s).map .bytes
  | .moment => momentValue s
  | _ => .error .malformed

mutual

/-- The text of a scalar; a mapping may name a value that stands for it. -/
def text? : Node → Option String
  | scalar _ s => some s
  | list .. => none
  | mapping _ members => standInText? members

/-- The text of the value that stands for a mapping. -/
def standInText? : List (Node × Node) → Option String
  | [] => none
  | (k, v) :: rest => if k.kind = .standIn then text? v else standInText? rest

end

/-- The members of a mapping that takes over the first ones and has the second ones of its own, which
are preferred. -/
def combine (ms : List (Value × Value) × List (Value × Value)) : List (Value × Value) :=
  (ms.1 ++ ms.2).foldl (fun read m => Value.put m.1 m.2 read) []

mutual

def value : Node → Except Error Value
  | scalar k s => scalarValue k s
  | list .list items => return .list (← values items)
  | list .pairs items => return .list (← pairs items)
  | list _ _ => throw .malformed
  | mapping .mapping members => return .mapping (combine (← memberValues members))
  | mapping .set members => return .set ((combine (← memberValues members)).map Prod.fst)
  | mapping k members =>
    match standInText? members with
    | some s => scalarValue k s
    | none => throw .malformed

def values : List Node → Except Error (List Value)
  | [] => return []
  | item :: rest => return (← value item) :: (← values rest)

def pairs : List Node → Except Error (List Value)
  | [] => return []
  | mapping _ [(k, v)] :: rest => return .pair (← value k) (← value v) :: (← pairs rest)
  | _ => throw .malformed

/-- The members that a mapping takes over from others, and its own. -/
def memberValues : List (Node × Node) → Except Error (List (Value × Value) × List (Value × Value))
  | [] => return ([], [])
  | (scalar .merge _, v) :: rest => do
    let more ← mergedMembers v
    let (taken, own) ← memberValues rest
    return (more ++ taken, own)
  | (scalar .standIn s, v) :: rest => do
    let v ← value v
    let (taken, own) ← memberValues rest
    return (taken, (.text s, v) :: own)
  | (k, v) :: rest => do
    let k ← value k
    if !k.isKey then throw .malformed
    let v ← value v
    let (taken, own) ← memberValues rest
    return (taken, (k, v) :: own)

/-- The members that a mapping or a list of mappings hands over. Of several mappings the first one is
preferred, so it comes last. -/
def mergedMembers : Node → Except Error (List (Value × Value))
  | mapping _ ms => do
    let (taken, own) ← memberValues ms
    return taken ++ own
  | list _ items => itemMembers items
  | scalar .. => throw .malformed

def itemMembers : List Node → Except Error (List (Value × Value))
  | [] => return []
  | mapping _ ms :: rest => do
    let (taken, own) ← memberValues ms
    return (← itemMembers rest) ++ taken ++ own
  | _ => throw .malformed

end

end Node

/-- The value of a text; one without a document holds nothing. -/
def read (text : String) : Except Error Value := do
  let s := text.toList
  if !s.all isAllowed then throw .malformed
  match ← Node.ofTokens? (← tokens (foldLineEnds s)) with
  | some n => n.value
  | none => return .null

end PolyPlot.Yaml
