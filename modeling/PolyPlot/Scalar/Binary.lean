import PolyPlot.Scalar

namespace PolyPlot

/-- What a double stands for. -/
inductive Binary where
  /-- The number `mantissa * 2 ^ exponent`, or its negative. -/
  | finite (negative : Bool) (mantissa : Nat) (exponent : Int)
  | infinite (negative : Bool)
  | undefined
  deriving DecidableEq, Repr

namespace Double

/-- The bit of a mantissa above the fifty-two bits of its fraction. -/
def leadingBit : Nat := 0x10000000000000

def infinityBits : Nat := 0x7FF0000000000000

end Double

namespace Binary

/-- Splits the sign bit, eleven exponent bits and fifty-two fraction bits. The exponent bits are all
ones in infinities and undefined values, and all zeros where the leading one is absent. -/
def ofFloat (x : Float) : Binary :=
  let bits := x.toBits.toNat
  let negative := bits / 0x8000000000000000 == 1
  let exponent : Nat := bits / Double.leadingBit % 2048
  let fraction := bits % Double.leadingBit
  if exponent = 2047 then
    if fraction = 0 then .infinite negative else .undefined
  else if exponent = 0 then
    .finite negative fraction (-1074)
  else
    .finite negative (Double.leadingBit + fraction) ((exponent : Int) - 1075)

def signed (negative : Bool) (n : Nat) : Int :=
  if negative then -n else n

/-- The numerator of `m * 2 ^ e` over `denominator e`. -/
def numerator (m : Nat) (e : Int) : Nat :=
  m * Nat.pow 2 e.toNat

/-- The least power of two that makes `2 ^ e` whole. -/
def denominator (e : Int) : Nat :=
  Nat.pow 2 (-e).toNat

def wholePart (divide : Int → Int → Int) : Binary → Except Fault Int
  | finite negative m e => .ok (divide (signed negative (numerator m e)) (denominator e))
  | infinite _ => .error .overflow
  | undefined => .error .notANumber

/-- The exact value of a finite number. -/
def rational? : Binary → Option Rat
  | finite negative m e => some (mkRat (signed negative (numerator m e)) (denominator e))
  | _ => none

end Binary

/-- The quotient of two whole numbers, rounded to the nearest and a half to the even neighbour. -/
def divideToEven (n d : Nat) : Nat :=
  let q := n / d
  let r := n % d
  if 2 * r < d then q
  else if d < 2 * r then q + 1
  else q + q % 2

namespace Double

def undefined : Float :=
  0 / 0

def infinity : Float :=
  1 / 0

/-- The double with a sign and the bits of its magnitude; a pattern past the largest finite one
stands for infinity. -/
def ofMagnitudeBits (negative : Bool) (bits : Nat) : Float :=
  let magnitude := Nat.min bits infinityBits
  Float.ofBits (UInt64.ofNat (if negative then 0x8000000000000000 + magnitude else magnitude))

/-- The bits of the magnitude `m * 2 ^ e`, where `m` has no more than fifty-three bits, and fewer only
with the least exponent. A mantissa rounded up to the next power of two carries into the exponent
bits. -/
def magnitudeBits (m : Nat) (e : Int) : Nat :=
  if m < leadingBit then m else (e + 1074).toNat * leadingBit + m

/-- The double with a sign and the magnitude `m * 2 ^ e`, infinite beyond the largest finite one. -/
def ofParts (negative : Bool) (m : Nat) (e : Int) : Float :=
  ofMagnitudeBits negative (magnitudeBits m e)

/-- The exponent of two at which the quotient of two positive whole numbers has fifty-three bits
before the point, raised to the least exponent a double has. -/
def exponentOf (n d : Nat) : Int :=
  let e : Int := n.log2 - d.log2 - 52
  let short := n * Binary.denominator e < leadingBit * Binary.numerator d e
  max (if short then e - 1 else e) (-1074)

/-- The double nearest to a fraction, a tie going to the even mantissa. -/
def nearest (negative : Bool) (n d : Nat) : Float :=
  if n = 0 then ofMagnitudeBits negative 0
  else
    let e := exponentOf n d
    ofParts negative (divideToEven (n * Binary.denominator e) (Binary.numerator d e)) e

/-- The double nearest to a rational, infinite beyond the largest finite one. -/
def ofRat (r : Rat) : Float :=
  nearest (r.num < 0) r.num.natAbs r.den

/-- The remainder with the divisor's sign: the exact remainder, rounded once. -/
def remainder (a b : Float) : Float :=
  match Binary.ofFloat a, Binary.ofFloat b with
  | .finite na ma ea, .finite nb mb eb =>
    let e := min ea eb
    let left := Binary.signed na (Binary.numerator ma (ea - e))
    let right := Binary.signed nb (Binary.numerator mb (eb - e))
    nearest nb (Binary.numerator (left.fmod right).natAbs e) (Binary.denominator e)
  | .finite na ma _, .infinite nb =>
    if ma = 0 then nearest nb 0 1 else if na = nb then a else b
  | _, _ => undefined

/-- The whole part towards zero. -/
def truncate (x : Float) : Except Fault Int :=
  (Binary.ofFloat x).wholePart Int.tdiv

end Double

instance : Scalar Float where
  decideLT := inferInstance
  decideLE := inferInstance
  ofInt := Float.ofInt
  abs := Float.abs
  isFinite := Float.isFinite
  floor x := (Binary.ofFloat x).wholePart Int.fdiv
  ceil x := (Binary.ofFloat x).wholePart fun n d => -((-n).fdiv d)
  remainder := Double.remainder

instance : SquareRoot Float where
  sqrt := Float.sqrt

end PolyPlot
