import PolyPlot.Decimal.Layout
import PolyPlot.Json.Writer
import PolyPlot.Text.Printable

namespace PolyPlot.Text

/-- The quote around a text. -/
def quoteOf (s : List Char) : Char :=
  if s.contains '\'' && !s.contains '"' then '"' else '\''

/-- A code point in hexadecimal digits, filled up with zeros. -/
def hexChars (width n : Nat) : List Char :=
  let digits := Nat.toDigits 16 n
  List.replicate (width - digits.length) '0' ++ digits

/-- A character by its code point, in as many digits as are needed of two, four and eight. -/
def codeEscape (c : Char) : List Char :=
  let n := c.toNat
  if n < 0x100 then '\\' :: 'x' :: hexChars 2 n
  else if n < 0x10000 then '\\' :: 'u' :: hexChars 4 n
  else '\\' :: 'U' :: hexChars 8 n

def shownChar (quote c : Char) : List Char :=
  if c = quote || c = '\\' then ['\\', c]
  else if c = '\n' then ['\\', 'n']
  else if c = '\r' then ['\\', 'r']
  else if c = '\t' then ['\\', 't']
  else if isPrintable c then [c]
  else codeEscape c

/-- A text in quotes. -/
def shown (s : String) : String :=
  let quote := quoteOf s.toList
  String.ofList (quote :: s.toList.flatMap (shownChar quote) ++ [quote])

/-- A text with every character beyond ASCII by its code point. -/
def asciiOnly (s : String) : String :=
  String.ofList (s.toList.flatMap fun c => if c.toNat < 0x80 then [c] else codeEscape c)

end PolyPlot.Text

namespace PolyPlot.Json

/-- A value inside a list or an object, or on its own with its quotes. -/
def shown : Json → String
  | null => "None"
  | bool b => if b then "True" else "False"
  | int n => String.ofList (Decimal.intText n)
  | float x => Decimal.written x
  | text s => Text.shown s
  | array items => "[" ++ ", ".intercalate (shownItems items) ++ "]"
  | object members => "\x7b" ++ ", ".intercalate (shownMembers members) ++ "\x7d"
where
  shownItems : List Json → List String
    | [] => []
    | v :: rest => shown v :: shownItems rest
  shownMembers : List (String × Json) → List String
    | [] => []
    | (k, v) :: rest => (Text.shown k ++ ": " ++ shown v) :: shownMembers rest

/-- A value on its own; a text has no quotes. -/
def plain : Json → String
  | text s => s
  | v => shown v

end PolyPlot.Json
