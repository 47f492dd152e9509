import PolyPlot.Decimal.Layout
import PolyPlot.Decimal.Reading
import PolyPlot.Json.Basic

namespace PolyPlot.Json

def hexDigit (n : Nat) : Char :=
  if n < 10 then Char.ofNat ('0'.toNat + n) else Char.ofNat ('a'.toNat + (n - 10))

def unitEscape (n : Nat) : List Char :=
  ['\\', 'u', hexDigit (n / 4096 % 16), hexDigit (n / 256 % 16), hexDigit (n / 16 % 16), hexDigit (n % 16)]

/-- A character inside a string. Whatever is not visible ASCII is escaped, beyond sixteen bits as a
pair of surrogates. -/
def escape (c : Char) : List Char :=
  match c with
  | '"' => ['\\', '"']
  | '\\' => ['\\', '\\']
  | '\n' => ['\\', 'n']
  | '\r' => ['\\', 'r']
  | '\t' => ['\\', 't']
  | '\x08' => ['\\', 'b']
  | '\x0c' => ['\\', 'f']
  | _ =>
    let n := c.toNat
    if 0x20 ≤ n ∧ n < 0x7F then [c]
    else if n < 0x10000 then unitEscape n
    else unitEscape (0xD800 + (n - 0x10000) / 0x400) ++ unitEscape (0xDC00 + (n - 0x10000) % 0x400)

def quoted (s : String) : List Char :=
  '"' :: s.toList.flatMap escape ++ ['"']

/-- A double; those that are not finite have names. -/
def floatChars (x : Float) : List Char :=
  match Binary.ofFloat x with
  | .undefined => ['N', 'a', 'N']
  | .infinite negative => Decimal.sign negative ++ "Infinity".toList
  | .finite .. => Decimal.writtenChars x

/-- A value on one line with the texts that stand between items and behind a key. -/
def lineChars : Json → List Char
  | null => "null".toList
  | bool b => if b then "true".toList else "false".toList
  | int n => Decimal.intText n
  | float x => floatChars x
  | text s => quoted s
  | array items => '[' :: itemsLine items ++ [']']
  | object members => '\x7b' :: membersLine members ++ ['\x7d']
where
  itemsLine : List Json → List Char
    | [] => []
    | [v] => lineChars v
    | v :: rest => lineChars v ++ ',' :: ' ' :: itemsLine rest
  membersLine : List (String × Json) → List Char
    | [] => []
    | [(k, v)] => quoted k ++ ':' :: ' ' :: lineChars v
    | (k, v) :: rest => quoted k ++ ':' :: ' ' :: lineChars v ++ ',' :: ' ' :: membersLine rest

def line (v : Json) : String :=
  String.ofList (lineChars v)

/-- Refuses to write a value that nests beyond the levels left, or holds a whole number with too many
digits; what comes first in the text decides. -/
def requireWritable : Json → Nat → Except Fault Unit
  | int n, _ => Decimal.requireWritable n
  | array items, levels + 1 => itemsWritable items levels
  | object members, levels + 1 => membersWritable members levels
  | array _, 0 | object _, 0 => .error .tooDeep
  | null, _ | bool _, _ | float _, _ | text _, _ => .ok ()
where
  itemsWritable : List Json → Nat → Except Fault Unit
    | [], _ => .ok ()
    | v :: rest, levels => do
      requireWritable v levels
      itemsWritable rest levels
  membersWritable : List (String × Json) → Nat → Except Fault Unit
    | [], _ => .ok ()
    | (_, v) :: rest, levels => do
      requireWritable v levels
      membersWritable rest levels

/-- Writes a value on one line, with so many levels of nesting left. -/
def write (levels : Nat) (v : Json) : Except Fault String := do
  requireWritable v levels
  return line v

/-- The end of a line with the blanks in front of an item so many levels deep. -/
def newLine (depth : Nat) : List Char :=
  '\n' :: List.replicate (2 * depth) ' '

/-- A value so many levels deep, with one item a line. -/
def pageChars (depth : Nat) : Json → List Char
  | array [] => ['[', ']']
  | object [] => ['\x7b', '\x7d']
  | array items => '[' :: itemsPage (depth + 1) items ++ newLine depth ++ [']']
  | object members => '\x7b' :: membersPage (depth + 1) members ++ newLine depth ++ ['\x7d']
  | v => lineChars v
where
  itemsPage (depth : Nat) : List Json → List Char
    | [] => []
    | [v] => newLine depth ++ pageChars depth v
    | v :: rest => newLine depth ++ pageChars depth v ++ ',' :: itemsPage depth rest
  membersPage (depth : Nat) : List (String × Json) → List Char
    | [] => []
    | [(k, v)] => newLine depth ++ quoted k ++ ':' :: ' ' :: pageChars depth v
    | (k, v) :: rest =>
      newLine depth ++ quoted k ++ ':' :: ' ' :: pageChars depth v ++ ',' :: membersPage depth rest

/-- A value with one item a line. -/
def page (v : Json) : String :=
  String.ofList (pageChars 0 v)

end PolyPlot.Json
