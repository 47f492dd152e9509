import PolyPlot.Decimal.Digits

namespace PolyPlot.Decimal

/-- Digits with a point after the first `whole` of them, filled up with zeros on either side so that
a digit stands before the point. Nothing follows the point if there are no more digits. -/
def pointed (digits : List Char) (whole : Int) : List Char :=
  let padded := List.replicate (1 - whole).toNat '0' ++ digits
  let before := (max whole 1).toNat
  let filled := padded ++ List.replicate (before - padded.length) '0'
  match filled.drop before with
  | [] => filled
  | fraction => filled.take before ++ '.' :: fraction

/-- The sign and at least two digits of an exponent, after its mark. -/
def exponentText (mark : Char) (e : Int) : List Char :=
  let digits := text e.natAbs
  mark :: (if e < 0 then '-' else '+') :: (List.replicate (2 - digits.length) '0' ++ digits)

/-- The least and the first too great exponent of a number written without an exponent. -/
def positionalFrom : Int := -4

/-- The first exponent of a number that is written with an exponent. -/
def positionalUntil : Int := 16

/-- A decimal number, positional from `1e-4` and below `1e16` and then with a digit after the point,
else with an exponent. -/
def shortText (x : Decimal) : List Char :=
  let digits := text x.digits
  let lead := x.exponent + digits.length - 1
  if positionalFrom ≤ lead ∧ lead < positionalUntil then
    let body := pointed digits (lead + 1)
    if body.contains '.' then body else body ++ ['.', '0']
  else
    pointed digits 1 ++ exponentText 'e' lead

def sign (negative : Bool) : List Char :=
  if negative then ['-'] else []

/-- The shortest text that reads back as the same double. -/
def writtenChars (x : Float) : List Char :=
  match Binary.ofFloat x with
  | .undefined => ['n', 'a', 'n']
  | .infinite negative => sign negative ++ ['i', 'n', 'f']
  | .finite negative 0 _ => sign negative ++ ['0', '.', '0']
  | .finite negative m e => sign negative ++ shortText (shortest m e)

/-- The shortest text that reads back as the same double. -/
def written (x : Float) : String :=
  String.ofList (writtenChars x)

/-- The digits of a fraction with so many places after the point. -/
def fixedChars (places n d : Nat) : List Char :=
  let digits := text (roundTo n d (-places))
  let padded := List.replicate (places + 1 - digits.length) '0' ++ digits
  pointed padded ((padded.length : Int) - places)

/-- The digits of a fraction with one before the point and so many after it, and an exponent. -/
def scientificChars (mark : Char) (places n d : Nat) : List Char :=
  let (digits, lead) :=
    if n = 0 then (0, 0) else significant (places + 1) n d
  let body := text digits
  pointed (body ++ List.replicate (places + 1 - body.length) '0') 1 ++ exponentText mark lead

/-- A text without the zeros at its end, and then without a point at its end. -/
def dropZeros (s : List Char) : List Char :=
  if s.contains '.' then
    ((s.reverse.dropWhile (· == '0')).dropWhile (· == '.')).reverse
  else s

/-- The digits of a fraction rounded to so many significant ones: with an exponent if it is below
`-4` or if not all digits before the point are significant. Zeros at the end are kept on request. -/
def generalChars (mark : Char) (keepZeros : Bool) (count n d : Nat) : List Char :=
  let finish := if keepZeros then id else dropZeros
  let (digits, lead) :=
    if n = 0 then (0, 0) else significant count n d
  let body := text digits
  let padded := body ++ List.replicate (count - body.length) '0'
  if positionalFrom ≤ lead ∧ lead < count then finish (pointed padded (lead + 1))
  else finish (pointed padded 1) ++ exponentText mark lead

/-- A double by a rule for the fraction that is its magnitude. -/
def withSign (magnitude : Nat → Nat → List Char) (x : Float) : List Char :=
  match Binary.ofFloat x with
  | .undefined => ['n', 'a', 'n']
  | .infinite negative => sign negative ++ ['i', 'n', 'f']
  | .finite negative m e => sign negative ++ magnitude (Binary.numerator m e) (Binary.denominator e)

/-- A double with so many places after the point. -/
def fixed (places : Nat) (x : Float) : String :=
  String.ofList (withSign (fixedChars places) x)

/-- A double rounded to so many significant digits. -/
def general (count : Nat) (x : Float) : String :=
  String.ofList (withSign (generalChars 'e' false (max count 1)) x)

end PolyPlot.Decimal
