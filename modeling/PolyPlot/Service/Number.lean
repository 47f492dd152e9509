import PolyPlot.Decimal.Reading

namespace PolyPlot.Service

/-- Whether a text has two underscores next to each other. -/
def hasDoubleUnderscore : List Char → Bool
  | '_' :: '_' :: _ => true
  | _ :: rest => hasDoubleUnderscore rest
  | [] => false

def withoutUnderscores? (s : List Char) : Option (List Char) :=
  if s.head? = some '_' || s.getLast? = some '_' || hasDoubleUnderscore s || !s.contains '_' then none
  else some (s.filter (· ≠ '_'))

/-- Whether a character can belong to a number in plain digits. -/
def isPlain (c : Char) : Bool :=
  '!' ≤ c && c ≤ '~' && c ≠ '_'

/-- The double that a text without blanks and underscores names. -/
def plainDouble? (s : List Char) : Option Float :=
  if s.all isPlain then Decimal.readDouble? (String.ofList s) else none

/-- The double that a text names. -/
def readDouble? (s : String) : Option Float :=
  plainDouble? (Text.trim s.toList)
    <|> (withoutUnderscores? s.toList).bind plainDouble?

/-- The whole number whose digits are given, the first of several not zero. -/
def plainNat? (s : List Char) : Option Nat :=
  if s.isEmpty || !s.all Char.isDigit || (s.head? = some '0' && s.length ≠ 1) then none
  else some (Decimal.ofAscii s)

/-- The whole number that a text without blanks, underscores and surplus zeros names. -/
def plainInt? : List Char → Option Int
  | '-' :: digits => (plainNat? digits).map fun n => -(n : Int)
  | digits => (plainNat? digits).map fun n => (n : Int)

/-- A number behind the zeros at its front, of which one stays in front of a point or the end. -/
def dropLeadingZeros? : List Char → Option (List Char)
  | '0' :: rest => go '0' rest
  | c :: rest => if c.isDigit || c = '-' then some (c :: rest) else none
  | [] => none
where
  /-- The text from here on, behind a character of the zeros. -/
  go (last : Char) : List Char → Option (List Char)
    | [] => some [last]
    | c :: rest =>
      if c = '0' || c = '_' then go c rest
      else if c.isDigit then some (c :: rest)
      else if c = '.' then some (last :: c :: rest)
      else none

/-- A number in front of its point, if only zeros stand behind that. -/
def dropZeroFraction (s : List Char) : List Char :=
  match s.dropWhile (· ≠ '.') with
  | '.' :: zeros => if zeros.all (· = '0') then s.takeWhile (· ≠ '.') else s
  | _ => s

/-- A text without a plus sign at its front; behind that no minus sign stands. -/
def dropPlus? : List Char → Option (List Char)
  | '+' :: '-' :: _ => none
  | '+' :: rest => some rest
  | s => some s

/-- The whole number that a text names. -/
def readInt? (s : String) : Option Int :=
  plainInt? s.toList <|> do
    let body ← dropPlus? (Text.trim s.toList)
    let number := dropZeroFraction (← dropLeadingZeros? body)
    plainInt? ((withoutUnderscores? number).getD number)

end PolyPlot.Service
