import PolyPlot.Yaml.Moment
import PolyPlot.Yaml.Name

namespace PolyPlot.Yaml

/-- What a node stands for. -/
inductive Kind where
  | null
  | bool
  | int
  | float
  | text
  | bytes
  /-- A day, or a moment of a day. -/
  | moment
  /-- A key whose value's members are taken over. -/
  | merge
  /-- The key of the value that stands for a whole mapping. -/
  | standIn
  | list
  | mapping
  | set
  /-- A list of mappings with one member each. -/
  | pairs
  | unknown
  deriving DecidableEq, Repr

namespace Kind

def ownBeginning : String := "tag:yaml.org,2002:"

def ofTag (tag : String) : Kind :=
  if ownBeginning.toList.isPrefixOf tag.toList then
    match String.ofList (tag.toList.drop ownBeginning.length) with
    | "null" => null
    | "bool" => bool
    | "int" => int
    | "float" => float
    | "str" => text
    | "binary" => bytes
    | "timestamp" => moment
    | "merge" => merge
    | "value" => standIn
    | "seq" => list
    | "map" => mapping
    | "set" => set
    | "omap" | "pairs" => pairs
    | _ => unknown
  else unknown

/-- Whether a text is a name for nothing. -/
def isNull (s : String) : Bool :=
  ["", "~", "null", "Null", "NULL"].contains s

def truthNames : List (String × Bool) :=
  [("yes", true), ("no", false), ("true", true), ("false", false), ("on", true), ("off", false)]

/-- Whether a name is written in small letters, in capitals, or with one capital in front. -/
def isUniform : List Char → Bool
  | [] => true
  | c :: rest => rest.all Char.isLower || (c.isUpper && rest.all Char.isUpper)

/-- A text in small letters. -/
def small (s : String) : String :=
  String.ofList (s.toList.map Char.toLower)

def isBool (s : String) : Bool :=
  isUniform s.toList && (truthNames.lookup (small s)).isSome

def isDigitRun (s : List Char) : Bool :=
  s.all fun c => c.isDigit || c = '_'

/-- Digits and underscores behind a first digit. -/
def isNumeral : List Char → Bool
  | c :: rest => c.isDigit && isDigitRun rest
  | [] => false

/-- A text without a sign at its front. -/
def unsigned : List Char → List Char
  | '-' :: rest | '+' :: rest => rest
  | s => s

/-- One or two digits of a number below sixty. -/
def isSixtieth : List Char → Bool
  | [c] => c.isDigit
  | [c, d] => c.isDigit && c ≤ '5' && d.isDigit
  | _ => false

/-- Whether a text is a whole number: binary, octal, hexadecimal, decimal, or in sixties. -/
def isInt (s : List Char) : Bool :=
  match unsigned s with
  | ['0'] => true
  | '0' :: 'b' :: c :: rest => (c :: rest).all fun d => d = '0' || d = '1' || d = '_'
  | '0' :: 'x' :: c :: rest => (c :: rest).all fun d => (hexDigit? d).isSome || d = '_'
  | '0' :: c :: rest => (c :: rest).all fun d => ('0' ≤ d && d ≤ '7') || d = '_'
  | body =>
    match body.splitOn ':' with
    | whole :: sixtieths => whole.head? ≠ some '0' && isNumeral whole && sixtieths.all isSixtieth
    | [] => false

/-- Whether a text is empty or an exponent of ten with its sign. -/
def isExponent : List Char → Bool
  | [] => true
  | mark :: sign :: c :: rest =>
    (mark = 'e' || mark = 'E') && (sign = '-' || sign = '+') && (c :: rest).all Char.isDigit
  | _ => false

/-- The digits behind a point, with an exponent behind them. -/
def isFraction (s : List Char) : Bool :=
  isExponent (s.dropWhile fun c => c.isDigit || c = '_')

/-- Whether a text is a number with a point. One that begins with the point has no sign. -/
def isFloat (s : List Char) : Bool :=
  let body := unsigned s
  let whole := body.takeWhile (· ≠ '.')
  match body.dropWhile (· ≠ '.') with
  | [] => false
  | _ :: fraction =>
    if whole.isEmpty then
      [".inf", ".Inf", ".INF"].contains (String.ofList body)
        || (body = s && ([".nan", ".NaN", ".NAN"].contains (String.ofList s)
          || (fraction.head?.any Char.isDigit && isFraction fraction)))
    else
      match whole.splitOn ':' with
      | [_] => isNumeral whole && isFraction fraction
      | first :: sixtieths => isNumeral first && sixtieths.all isSixtieth && isDigitRun fraction
      | [] => false

/-- The kind of a text without quotes. -/
def ofPlain (s : String) : Kind :=
  if isNull s then null
  else if isBool s then bool
  else if isInt s.toList then int
  else if isFloat s.toList then float
  else if (MomentText.read? 2 s.toList).isSome then moment
  else if s = "<<" then merge
  else if s = "=" then standIn
  else text

end Kind

end PolyPlot.Yaml
