import PolyPlot.Text.Blank
import PolyPlot.Text.Digit
import PolyPlot.Text.Lowercase

namespace PolyPlot.Expression

/-- The sign of the grammar for a typographic one; every other character stands for itself. -/
def foldSign (c : Char) : Char :=
  match c with
  | '−' | '–' => '-'
  | '×' | '·' | '∙' => '*'
  | '÷' | '⁄' => '/'
  | _ => c

/-- The digit that a superscript digit raises. -/
def superscript? (c : Char) : Option Char :=
  match c with
  | '⁰' => some '0'
  | '¹' => some '1'
  | '²' => some '2'
  | '³' => some '3'
  | '⁴' => some '4'
  | '⁵' => some '5'
  | '⁶' => some '6'
  | '⁷' => some '7'
  | '⁸' => some '8'
  | '⁹' => some '9'
  | _ => none

/-- Writes each run of superscript digits as a caret and plain digits. `inside` tells whether the
character before belongs to such a run. -/
def lowerSuperscripts (inside : Bool) : List Char → List Char
  | [] => []
  | c :: rest =>
    match superscript? c with
    | some digit =>
      if inside then digit :: lowerSuperscripts true rest
      else '^' :: digit :: lowerSuperscripts true rest
    | none => c :: lowerSuperscripts false rest

/-- Whether two neighbouring characters are factors of a product: a digit before a parenthesis or `x`,
a closing parenthesis before a parenthesis, `x` or a digit, or `x` before a parenthesis or digit. -/
def callsForProduct (a b : Char) : Bool :=
  if a = ')' then b == '(' || b == 'x' || Text.isDecimal b
  else if a = 'x' then b == '(' || Text.isDecimal b
  else Text.isDecimal a && (b == '(' || b == 'x')

/-- Writes the product signs that neighbouring factors leave out. -/
def insertProducts : List Char → List Char
  | a :: b :: rest =>
    if callsForProduct a b then a :: '*' :: insertProducts (b :: rest)
    else a :: insertProducts (b :: rest)
  | s => s

/-- The normal form of a text. -/
def normalChars (s : List Char) : List Char :=
  let letters := Text.lower (s.filter fun c => !Text.isBlank c)
  insertProducts (lowerSuperscripts false (letters.map foldSign))

def normalize (text : String) : String :=
  String.ofList (normalChars text.toList)

end PolyPlot.Expression
