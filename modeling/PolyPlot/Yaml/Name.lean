import PolyPlot.Decimal.Digits
import PolyPlot.Yaml.Basic

namespace PolyPlot.Yaml

def isNameChar (c : Char) : Bool :=
  c.isAlphanum || c = '-' || c = '_'

def readName (s : List Char) : Except Error (String × List Char) :=
  match s.takeWhile isNameChar with
  | [] => .error .malformed
  | name => .ok (String.ofList name, s.dropWhile isNameChar)

def readAnchor (s : List Char) : Except Error (String × List Char) := do
  let (name, rest) ← readName s
  match rest with
  | [] => return (name, rest)
  | c :: _ =>
    if endsToken rest || "?:,]\x7d%@\x60".toList.contains c then return (name, rest)
    else throw .malformed

/-- A tag as it is written: a handle that stands for a beginning, and the end. -/
structure TagName where
  handle? : Option String
  ending : String
  deriving DecidableEq, Repr

/-- What a line in front of a document says. -/
inductive Directive where
  /-- The first number of the language's version. -/
  | version (major : Nat)
  /-- The beginning that a handle stands for. -/
  | handle (name beginning : String)
  | unknown
  deriving DecidableEq, Repr

/-- The value of a hexadecimal digit. -/
def hexDigit? (c : Char) : Option Nat :=
  if c.isDigit then some (c.toNat - '0'.toNat)
  else if 'a' ≤ c ∧ c ≤ 'f' then some (c.toNat - 'a'.toNat + 10)
  else if 'A' ≤ c ∧ c ≤ 'F' then some (c.toNat - 'A'.toNat + 10)
  else none

def isTagChar (c : Char) : Bool :=
  c.isAlphanum || "-;/?:@&=+$,_.!~*'()[]".toList.contains c

/-- The bytes of a run of escapes, each a percent sign and two digits. -/
def takeBytes : List Char → Except Error (List UInt8 × List Char)
  | '%' :: a :: b :: rest =>
    match hexDigit? a, hexDigit? b with
    | some high, some low => do
      let (bytes, after) ← takeBytes rest
      return (UInt8.ofNat (16 * high + low) :: bytes, after)
    | _, _ => .error .malformed
  | '%' :: _ => .error .malformed
  | s => .ok ([], s)

/-- The end of a tag: characters that stand for themselves, and runs of escapes that are text in
UTF-8. Each round reads a character, so a budget of the text's length is never used up. -/
def readTagText (budget : Nat) (s : List Char) : Except Error (List Char × List Char) :=
  match budget, s with
  | _, [] => .ok ([], [])
  | 0, _ => .ok ([], s)
  | budget + 1, c :: rest =>
    if c = '%' then do
      let (bytes, after) ← takeBytes s
      match String.fromUTF8? ⟨bytes.toArray⟩ with
      | some text =>
        let (ending, after) ← readTagText budget after
        return (text.toList ++ ending, after)
      | none => throw .malformed
    else if isTagChar c then do
      let (ending, after) ← readTagText budget rest
      return (c :: ending, after)
    else .ok ([], s)

def readTagEnding (s : List Char) : Except Error (String × List Char) := do
  if s.head?.any fun c => c = '%' || isTagChar c then
    let (ending, rest) ← readTagText s.length s
    return (String.ofList ending, rest)
  else throw .malformed

/-- A handle: a name between exclamation marks, or a single mark in front of a space. -/
def readHandle : List Char → Except Error (String × List Char)
  | '!' :: ' ' :: rest => .ok ("!", ' ' :: rest)
  | '!' :: rest =>
    let name := rest.takeWhile isNameChar
    match rest.dropWhile isNameChar with
    | '!' :: after => .ok (String.ofList ('!' :: name ++ ['!']), after)
    | _ => .error .malformed
  | _ => .error .malformed

/-- A tag, given the text behind its exclamation mark. -/
def readTag (s : List Char) : Except Error (TagName × List Char) := do
  let (tag, rest) ←
    match s with
    | '<' :: inner =>
      match ← readTagEnding inner with
      | (ending, '>' :: rest) => pure (TagName.mk none ending, rest)
      | _ => throw .malformed
    | _ =>
      if endsToken s then pure (TagName.mk none "!", s)
      else if (s.takeWhile fun c => c ≠ ' ' && !isBreak c).contains '!' then
        let (handle, rest) ← readHandle ('!' :: s)
        let (ending, rest) ← readTagEnding rest
        pure (TagName.mk (some handle) ending, rest)
      else
        let (ending, rest) ← readTagEnding s
        pure (TagName.mk (some "!") ending, rest)
  if endsWord rest then return (tag, rest) else throw .malformed

def readDigits (s : List Char) : Except Error (Nat × List Char) :=
  match s.takeWhile Char.isDigit with
  | [] => .error .malformed
  | digits => .ok (Decimal.ofAscii digits, s.dropWhile Char.isDigit)

/-- The version in a directive: two numbers with a point between them. -/
def readVersion (s : List Char) : Except Error (Directive × List Char) := do
  match ← readDigits (skipSpaces s) with
  | (major, '.' :: rest) =>
    let (_, rest) ← readDigits rest
    if endsWord rest then return (.version major, rest) else throw .malformed
  | _ => throw .malformed

def readHandleDirective (s : List Char) : Except Error (Directive × List Char) := do
  let (handle, rest) ← readHandle (skipSpaces s)
  if rest.head? = some ' ' then
    let (beginning, rest) ← readTagEnding (skipSpaces rest)
    if endsWord rest then return (.handle handle beginning, rest) else throw .malformed
  else throw .malformed

/-- A directive with its whole line, given the text behind the percent sign. -/
def readDirective (s : List Char) : Except Error (Directive × List Char) := do
  let (name, rest) ← readName s
  if !endsWord rest then throw .malformed
  let (directive, rest) ←
    match name with
    | "YAML" => readVersion rest
    | "TAG" => readHandleDirective rest
    | _ => pure (Directive.unknown, rest.dropWhile (!isBreak ·))
  return (directive, ← skipLine rest)

end PolyPlot.Yaml
