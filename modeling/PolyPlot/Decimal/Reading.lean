import PolyPlot.Decimal.Digits
import PolyPlot.Text.Blank
import PolyPlot.Text.Digit

namespace PolyPlot.Decimal

/-- Powers of ten beyond which every double is infinite, or below whose negative it is zero. -/
def farthestExponent : Int := 400

/-- The double nearest to `digits * 10 ^ exponent`. -/
def toDouble (negative : Bool) (x : Decimal) : Float :=
  let lead := x.exponent + (text x.digits).length
  if x.digits = 0 ∨ lead < -farthestExponent then Double.nearest negative 0 1
  else if farthestExponent < lead then Double.ofMagnitudeBits negative Double.infinityBits
  else Double.nearest negative (numerator x.digits x.exponent) (denominator x.exponent)

/-- The digits that continue a run after its first, and the text behind the run. An underscore belongs
to the run if a digit follows it. -/
def moreDigits : List Char → List Nat × List Char
  | [] => ([], [])
  | '_' :: c :: rest =>
    match Text.digitValue? c with
    | some d => let (digits, after) := moreDigits rest; (d :: digits, after)
    | none => ([], '_' :: c :: rest)
  | c :: rest =>
    match Text.digitValue? c with
    | some d => let (digits, after) := moreDigits rest; (d :: digits, after)
    | none => ([], c :: rest)

/-- The run of digits at the front of a text and the text behind it. -/
def takeDigits : List Char → List Nat × List Char
  | [] => ([], [])
  | c :: rest => if Text.isDecimal c then moreDigits (c :: rest) else ([], c :: rest)

/-- Whether a text begins with a minus sign, and the text behind the sign it may begin with. -/
def takeSign : List Char → Bool × List Char
  | '-' :: rest => (true, rest)
  | '+' :: rest => (false, rest)
  | s => (false, s)

/-- The exponent that a whole text gives, zero for the empty text. -/
def readExponent? : List Char → Option Int
  | [] => some 0
  | mark :: rest =>
    let (negative, digits) := takeSign rest
    match takeDigits digits with
    | (d :: ds, []) =>
      if mark = 'e' ∨ mark = 'E' then some (Binary.signed negative (ofDigits (d :: ds))) else none
    | _ => none

/-- A number without a sign: digits before or after a point, and an exponent. -/
def readUnsigned? (s : List Char) : Option Decimal :=
  let (whole, afterWhole) := takeDigits s
  let (fraction, afterFraction) :=
    match afterWhole with
    | '.' :: rest => takeDigits rest
    | _ => ([], afterWhole)
  if whole.isEmpty && fraction.isEmpty then none
  else (readExponent? afterFraction).map fun e =>
    ⟨ofDigits (whole ++ fraction), e - (fraction.length : Nat)⟩

/-- The double that a text names: a number, or an infinity or undefined value by name in letters of
either case. -/
def readDouble? (s : String) : Option Float :=
  let (negative, body) := takeSign (Text.trim s.toList)
  match String.ofList (body.map Char.toLower) with
  | "inf" | "infinity" => some (Double.ofMagnitudeBits negative Double.infinityBits)
  | "nan" => some Double.undefined
  | _ => (readUnsigned? body).map (toDouble negative)

/-- The most digits of a whole number that is read from text or written as one. -/
def mostIntDigits : Nat := 4300

/-- Refuses to write a whole number with too many digits. -/
def requireWritable (n : Int) : Except Fault Unit :=
  if n.natAbs < Nat.pow 10 mostIntDigits then .ok () else .error .tooManyDigits

/-- The whole number that a text names. -/
def readInt? (s : String) : Option Int :=
  let (negative, body) := takeSign (Text.trim s.toList)
  match takeDigits body with
  | (d :: ds, []) =>
    if mostIntDigits ≤ ds.length then none else some (Binary.signed negative (ofDigits (d :: ds)))
  | _ => none

end PolyPlot.Decimal
