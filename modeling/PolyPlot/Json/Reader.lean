import PolyPlot.Decimal.Reading
import PolyPlot.Json.Basic

namespace PolyPlot.Json

/-- The text from the character on at which reading stopped. -/
structure Refusal where
  rest : List Char

/-- The count of characters before the place at which reading stopped. -/
def Refusal.offset (text : String) (r : Refusal) : Nat :=
  text.length - r.rest.length

def isSpace (c : Char) : Bool :=
  c = ' ' || c = '\t' || c = '\n' || c = '\r'

def skipSpace (s : List Char) : List Char :=
  s.dropWhile isSpace

/-- The value of a hexadecimal digit. -/
def hexValue? (c : Char) : Option Nat :=
  if c.isDigit then some (c.toNat - '0'.toNat)
  else if 'a' ≤ c ∧ c ≤ 'f' then some (c.toNat - 'a'.toNat + 10)
  else if 'A' ≤ c ∧ c ≤ 'F' then some (c.toNat - 'A'.toNat + 10)
  else none

/-- The number that four hexadecimal digits write. -/
def hexUnit? (a b c d : Char) : Option Nat := do
  return 4096 * (← hexValue? a) + 256 * (← hexValue? b) + 16 * (← hexValue? c) + (← hexValue? d)

/-- The character that a letter after a backslash stands for. -/
def escaped? : Char → Option Char
  | '"' => some '"'
  | '\\' => some '\\'
  | '/' => some '/'
  | 'b' => some '\x08'
  | 'f' => some '\x0c'
  | 'n' => some '\n'
  | 'r' => some '\r'
  | 't' => some '\t'
  | _ => none

/-- Code points from a sequence in which a pair of surrogates stands for one. A surrogate alone has no
character and becomes the replacement character. -/
def joinSurrogates : List Nat → List Char
  | [] => []
  | high :: low :: rest =>
    if 0xD800 ≤ high ∧ high < 0xDC00 ∧ 0xDC00 ≤ low ∧ low < 0xE000 then
      Char.ofNat (0x10000 + (high - 0xD800) * 0x400 + (low - 0xDC00)) :: joinSurrogates rest
    else
      single high :: joinSurrogates (low :: rest)
  | [n] => [single n]
where
  single (n : Nat) : Char :=
    if 0xD800 ≤ n ∧ n < 0xE000 then Char.ofNat 0xFFFD else Char.ofNat n

/-- The code points of a string up to its closing quote. `opening` is the text from the opening quote
on, at which a string without an end is refused. -/
def readUnits (opening : List Char) : List Char → Except Refusal (List Nat × List Char)
  | [] => .error ⟨opening⟩
  | '"' :: rest => .ok ([], rest)
  | '\\' :: 'u' :: a :: b :: c :: d :: rest =>
    match hexUnit? a b c d, rest with
    | some unit, _ :: _ =>
      (readUnits opening rest).map fun (units, after) => (unit :: units, after)
    | _, _ => .error ⟨'u' :: a :: b :: c :: d :: rest⟩
  | '\\' :: 'u' :: rest => .error ⟨'u' :: rest⟩
  | ['\\'] => .error ⟨opening⟩
  | '\\' :: c :: rest =>
    match escaped? c with
    | some e => (readUnits opening rest).map fun (units, after) => (e.toNat :: units, after)
    | none => .error ⟨'\\' :: c :: rest⟩
  | c :: rest =>
    if c.toNat < 0x20 then .error ⟨c :: rest⟩
    else (readUnits opening rest).map fun (units, after) => (c.toNat :: units, after)

/-- A string, given the text from its opening quote on. -/
def readString : List Char → Except Refusal (String × List Char)
  | '"' :: rest =>
    (readUnits ('"' :: rest) rest).map fun (units, after) =>
      (String.ofList (joinSurrogates units), after)
  | s => .error ⟨s⟩

/-- The digits after a point, and the text behind them; no digit leaves the point unread. -/
def readFraction? : List Char → Option (List Char × List Char)
  | '.' :: rest =>
    match rest.takeWhile Char.isDigit with
    | [] => none
    | digits => some (digits, rest.dropWhile Char.isDigit)
  | _ => none

/-- An exponent, and the text behind it; no digit leaves its mark unread. -/
def readExponent? : List Char → Option (Int × List Char)
  | mark :: rest =>
    if mark = 'e' ∨ mark = 'E' then
      let (negative, body) := Decimal.takeSign rest
      match body.takeWhile Char.isDigit with
      | [] => none
      | digits => some (Binary.signed negative (Decimal.ofAscii digits), body.dropWhile Char.isDigit)
    else none
  | [] => none

/-- The number with the digits `whole` before its point, and the text behind it. It is whole if it has
neither a fraction nor an exponent. -/
def readPlaces (negative : Bool) (whole rest : List Char) : Json × List Char :=
  let float := fun (digits : List Char) (exponent : Int) =>
    Json.float (Decimal.toDouble negative ⟨Decimal.ofAscii digits, exponent⟩)
  match readFraction? rest with
  | some (fraction, rest) =>
    let places : Int := fraction.length
    match readExponent? rest with
    | some (e, rest) => (float (whole ++ fraction) (e - places), rest)
    | none => (float (whole ++ fraction) (-places), rest)
  | none =>
    match readExponent? rest with
    | some (e, rest) => (float whole e, rest)
    | none => (.int (Binary.signed negative (Decimal.ofAscii whole)), rest)

/-- Whether a number has a minus sign, and the text behind the sign. -/
def takeMinus : List Char → Bool × List Char
  | '-' :: rest => (true, rest)
  | s => (false, s)

/-- The digits before the point of a number, and the text behind them. A zero stands by itself. -/
def takeWhole : List Char → List Char × List Char
  | '0' :: rest => (['0'], rest)
  | s => (s.takeWhile Char.isDigit, s.dropWhile Char.isDigit)

def readNumber (s : List Char) : Except Refusal (Json × List Char) :=
  let (negative, body) := takeMinus s
  let (whole, rest) := takeWhole body
  if whole.isEmpty then .error ⟨s⟩ else .ok (readPlaces negative whole rest)

/-- A value without parts, given the text from its first character on. -/
def readScalar : List Char → Except Refusal (Json × List Char)
  | 'n' :: 'u' :: 'l' :: 'l' :: rest => .ok (.null, rest)
  | 't' :: 'r' :: 'u' :: 'e' :: rest => .ok (.bool true, rest)
  | 'f' :: 'a' :: 'l' :: 's' :: 'e' :: rest => .ok (.bool false, rest)
  | 'N' :: 'a' :: 'N' :: rest => .ok (.float Double.undefined, rest)
  | 'I' :: 'n' :: 'f' :: 'i' :: 'n' :: 'i' :: 't' :: 'y' :: rest => .ok (.float Double.infinity, rest)
  | '-' :: 'I' :: 'n' :: 'f' :: 'i' :: 'n' :: 'i' :: 't' :: 'y' :: rest =>
    .ok (.float (-Double.infinity), rest)
  | s => readNumber s

mutual

/-- A value, given the text from its first character on. Each call reads a character, so a budget of
twice the text's length is never used up. -/
def readValue (budget : Nat) (s : List Char) : Except Refusal (Json × List Char) :=
  match budget with
  | 0 => .error ⟨s⟩
  | budget + 1 =>
    match s with
    | '"' :: _ => (readString s).map fun (content, rest) => (.text content, rest)
    | '[' :: rest =>
      match skipSpace rest with
      | ']' :: after => .ok (.array [], after)
      | first => (readItems budget first).map fun (items, after) => (.array items, after)
    | '{' :: rest =>
      match skipSpace rest with
      | '}' :: after => .ok (.object [], after)
      | first => (readMembers budget [] first).map fun (members, after) => (.object members, after)
    | _ => readScalar s

def readItems (budget : Nat) (s : List Char) : Except Refusal (List Json × List Char) :=
  match budget with
  | 0 => .error ⟨s⟩
  | budget + 1 => do
    let (item, rest) ← readValue budget s
    match skipSpace rest with
    | ']' :: after => .ok ([item], after)
    | ',' :: after =>
      let (items, after) ← readItems budget (skipSpace after)
      .ok (item :: items, after)
    | stop => .error ⟨stop⟩

def readMembers (budget : Nat) (read : List (String × Json)) (s : List Char) :
    Except Refusal (List (String × Json) × List Char) :=
  match budget with
  | 0 => .error ⟨s⟩
  | budget + 1 => do
    let (key, rest) ← readString s
    match skipSpace rest with
    | ':' :: rest =>
      let (value, rest) ← readValue budget (skipSpace rest)
      let members := put key value read
      match skipSpace rest with
      | '}' :: after => .ok (members, after)
      | ',' :: after => readMembers budget members (skipSpace after)
      | stop => .error ⟨stop⟩
    | stop => .error ⟨stop⟩

end

/-- The value that a whole text writes, with blanks around it. -/
def read (text : String) : Except Refusal Json := do
  let s := text.toList
  let (value, rest) ← readValue (2 * s.length + 2) (skipSpace s)
  match skipSpace rest with
  | [] => .ok value
  | extra => .error ⟨extra⟩

end PolyPlot.Json
