import PolyPlot.Json.Reader
import PolyPlot.Text.Quoted

namespace PolyPlot.Log.Template

/-- Why a message cannot be made. -/
inductive Error where
  /-- A directive is not finished. -/
  | incomplete
  /-- A directive ends in a character that names no conversion. -/
  | unsupported (c : Char)
  /-- A width or a precision is beyond all bounds. -/
  | tooWide
  | tooFewArguments
  | unusedArguments
  /-- A member is asked for and no object is given. -/
  | noObject
  | noMember (key : String)
  /-- An argument does not suit its conversion. -/
  | wrongType
  | fault (fault : Fault)
  deriving DecidableEq, Repr

structure Arguments where
  pending : List Json
  /-- The members that can be asked for by name. -/
  members? : Option (List (String × Json))

/-- One object with members is given by name, all else in order. -/
def Arguments.ofList (args : List Json) : Arguments :=
  match args with
  | [.object (m :: ms)] => ⟨args, some (m :: ms)⟩
  | _ => ⟨args, none⟩

def Arguments.next (a : Arguments) : Except Error (Json × Arguments) :=
  match a.pending with
  | [] => .error .tooFewArguments
  | v :: rest => .ok (v, { a with pending := rest })

/-- What a directive asks for besides its conversion. -/
structure Layout where
  left : Bool := false
  plus : Bool := false
  blank : Bool := false
  alternate : Bool := false
  zeros : Bool := false
  width : Nat := 0
  precision? : Option Nat := none

/-- The widest field. -/
def mostWidth : Nat := 9223372036854775807

def mostPrecision : Nat := 2147483647

/-- The flags at the front of a text, and the text behind them. -/
def takeFlags (l : Layout) : List Char → Layout × List Char
  | '-' :: rest => takeFlags { l with left := true } rest
  | '+' :: rest => takeFlags { l with plus := true } rest
  | ' ' :: rest => takeFlags { l with blank := true } rest
  | '#' :: rest => takeFlags { l with alternate := true } rest
  | '0' :: rest => takeFlags { l with zeros := true } rest
  | s => (l, s)

/-- The number at the front of a text, and the text behind it. -/
def takeNumber (s : List Char) : Nat × List Char :=
  (Decimal.ofAscii (s.takeWhile Char.isDigit), s.dropWhile Char.isDigit)

/-- An argument as a whole number; truth values are one and zero. -/
def wholeArgument? : Json → Option Int
  | .int n => some n
  | .bool b => some (if b then 1 else 0)
  | _ => none

/-- The width of a field. A negative one from the arguments asks for the left side. -/
def takeWidth (l : Layout) (a : Arguments) :
    List Char → Except Error (Layout × Arguments × List Char)
  | '*' :: rest => do
    let (v, a) ← a.next
    match wholeArgument? v with
    | none => throw .wrongType
    | some n =>
      if mostWidth < n.natAbs then throw (.fault .overflow)
      return ({ l with left := l.left || n < 0, width := n.natAbs }, a, rest)
  | s =>
    let (n, rest) := takeNumber s
    if mostWidth < n then .error .tooWide else .ok ({ l with width := n }, a, rest)

/-- The precision of a field, behind a point. -/
def takePrecision (l : Layout) (a : Arguments) :
    List Char → Except Error (Layout × Arguments × List Char)
  | '.' :: '*' :: rest => do
    let (v, a) ← a.next
    match wholeArgument? v with
    | none => throw .wrongType
    | some n =>
      if mostPrecision < n.natAbs then throw (.fault .overflow)
      return ({ l with precision? := some n.toNat }, a, rest)
  | '.' :: rest =>
    let (n, rest) := takeNumber rest
    if mostPrecision < n then .error .tooWide else .ok ({ l with precision? := some n }, a, rest)
  | s => .ok (l, a, s)

/-- A letter for the size of a number, which says nothing here. -/
def dropSize : List Char → List Char
  | 'h' :: rest | 'l' :: rest | 'L' :: rest => rest
  | s => s

/-- The name in parentheses at the front of a text, which may hold balanced parentheses, and the text
behind it. `depth` counts the parentheses that are open. -/
def takeName (depth : Nat) : List Char → Option (List Char × List Char)
  | [] => none
  | c :: rest =>
    if c = ')' ∧ depth = 0 then some ([], rest)
    else
      let inner := if c = '(' then depth + 1 else if c = ')' then depth - 1 else depth
      (takeName inner rest).map fun (name, after) => (c :: name, after)

/-- Chooses the member that a name in parentheses asks for. -/
def takeMember (a : Arguments) : List Char → Except Error (Arguments × List Char)
  | '(' :: rest =>
    match a.members? with
    | none => .error .noObject
    | some members =>
      match takeName 0 rest with
      | none => .error .incomplete
      | some (name, after) =>
        match members.lookup (String.ofList name) with
        | some v => .ok ({ a with pending := [v] }, after)
        | none => .error (.noMember (String.ofList name))
  | s => .ok (a, s)

/-- A field filled up to its width: zeros go behind the sign and the mark of a number. -/
def fill (l : Layout) (numeric : Bool) (front body : List Char) : List Char :=
  let missing := l.width - (front.length + body.length)
  if l.left then front ++ body ++ List.replicate missing ' '
  else if numeric && l.zeros then front ++ List.replicate missing '0' ++ body
  else List.replicate missing ' ' ++ front ++ body

/-- The sign of a number in a field. -/
def signOf (l : Layout) (negative : Bool) : List Char :=
  if negative then ['-'] else if l.plus then ['+'] else if l.blank then [' '] else []

def wholeField (l : Layout) (base : Nat) (mark : List Char) (upper : Bool) (n : Int) : List Char :=
  let digits := (Nat.toDigits base n.natAbs).map fun c => if upper then c.toUpper else c
  let padded := List.replicate (l.precision?.getD 0 - digits.length) '0' ++ digits
  fill l true (signOf l (n < 0) ++ (if l.alternate then mark else [])) padded

def keepPoint (keep : Bool) (body : List Char) : List Char :=
  if keep && !body.contains '.' then
    let mantissa := body.takeWhile fun c => c ≠ 'e'
    mantissa ++ '.' :: body.drop mantissa.length
  else body

def doubleField (l : Layout) (conversion : Char) (x : Float) : List Char :=
  let lower := conversion.toLower
  let places := l.precision?.getD 6
  let magnitude := fun n d : Nat =>
    keepPoint l.alternate <|
      if lower = 'f' then Decimal.fixedChars places n d
      else if lower = 'e' then Decimal.scientificChars 'e' places n d
      else Decimal.generalChars 'e' l.alternate (max places 1) n d
  let (negative, body) := Decimal.takeSign (Decimal.withSign magnitude x)
  let body := body.map fun c => if conversion.isUpper then c.toUpper else c
  fill l true (signOf l negative) body

def textField (l : Layout) (s : String) : List Char :=
  let body := match l.precision? with
    | some n => s.toList.take n
    | none => s.toList
  fill l false [] body

def doubleArgument (v : Json) : Except Error Float :=
  match v with
  | .float x => .ok x
  | _ =>
    match wholeArgument? v with
    | some n =>
      let x := Double.ofRat n
      if x.isFinite then .ok x else .error (.fault .overflow)
    | none => .error .wrongType

def cutArgument (v : Json) : Except Error Int :=
  match v with
  | .float x => (Double.truncate x).mapError .fault
  | _ => match wholeArgument? v with
    | some n => .ok n
    | none => .error .wrongType

/-- An argument as a whole number that is one already. -/
def integerArgument (v : Json) : Except Error Int :=
  match wholeArgument? v with
  | some n => .ok n
  | none => .error .wrongType

/-- An argument as one character, given by itself or by its code point. -/
def charArgument (v : Json) : Except Error String :=
  match v with
  | .text s => if s.length = 1 then .ok s else .error .wrongType
  | _ => do
    let n ← integerArgument v
    if n < 0 ∨ 0x110000 ≤ n then throw (.fault .overflow)
    return String.singleton (Char.ofNat n.toNat)

/-- A whole number that can be written. -/
def writableArgument (v : Json) : Except Error Int := do
  let n ← cutArgument v
  (Decimal.requireWritable n).mapError .fault
  return n

/-- The text of a value that can be written, with so many levels of nesting left. -/
def writableText (levels : Nat) (written : Json → String) (v : Json) : Except Error String := do
  (v.requireWritable levels).mapError .fault
  return written v

def convert (levels : Nat) (l : Layout) (conversion : Char) (v : Json) : Except Error (List Char) :=
  match conversion with
  | 's' => (writableText levels Json.plain v).map (textField l)
  | 'r' => (writableText levels Json.shown v).map (textField l)
  | 'a' => (writableText levels Json.shown v).map fun s => textField l (Text.asciiOnly s)
  | 'c' => (charArgument v).map fun s => textField { l with precision? := none } s
  | 'd' | 'i' | 'u' => (writableArgument v).map (wholeField l 10 [] false)
  | 'x' => (integerArgument v).map (wholeField l 16 ['0', 'x'] false)
  | 'X' => (integerArgument v).map (wholeField l 16 ['0', 'X'] true)
  | 'o' => (integerArgument v).map (wholeField l 8 ['0', 'o'] false)
  | 'e' | 'E' | 'f' | 'F' | 'g' | 'G' => (doubleArgument v).map (doubleField l conversion)
  | c => .error (.unsupported c)

/-- A directive behind its percent sign: its text, the arguments that are left, and the rest of the
template. -/
def directive (levels : Nat) (a : Arguments) (s : List Char) :
    Except Error (List Char × Arguments × List Char) := do
  let (a, s) ← takeMember a s
  let (l, s) := takeFlags {} s
  let (l, a, s) ← takeWidth l a s
  let (l, a, s) ← takePrecision l a s
  match dropSize s with
  | [] => throw .incomplete
  | conversion :: rest =>
    let (v, a) ← a.next
    return (← convert levels l conversion v, a, rest)

/-- The text of a template. Each directive reads a character, so the template's length is enough of a
budget. -/
def fillIn (levels budget : Nat) (a : Arguments) (s : List Char) : Except Error (List Char) :=
  match budget with
  | 0 => .ok s
  | budget + 1 =>
    match s with
    | [] =>
      if a.members?.isNone && !a.pending.isEmpty then .error .unusedArguments else .ok []
    | '%' :: '%' :: rest => (fillIn levels budget a rest).map ('%' :: ·)
    | '%' :: rest => do
      let (text, a, rest) ← directive levels a rest
      let after ← fillIn levels budget a rest
      return text ++ after
    | c :: rest => (fillIn levels budget a rest).map (c :: ·)

/-- The text of a message. Without arguments the template is the text. -/
def message (levels : Nat) (template : String) (args : List Json) : Except Error String :=
  if args.isEmpty then .ok template
  else
    let s := template.toList
    (fillIn levels (s.length + 1) (.ofList args) s).map String.ofList

end PolyPlot.Log.Template
