import PolyPlot.Scalar.Binary

namespace PolyPlot

/-- The number `digits * 10 ^ exponent`. -/
structure Decimal where
  digits : Nat
  exponent : Int
  deriving DecidableEq, Repr

namespace Decimal

/-- The decimal digits of a whole number. -/
def text (n : Nat) : List Char :=
  Nat.toDigits 10 n

/-- The number whose decimal digits are given, the first the most significant. -/
def ofDigits (digits : List Nat) : Nat :=
  digits.foldl (fun n d => 10 * n + d) 0

/-- The number that a text of ASCII digits writes. -/
def ofAscii (s : List Char) : Nat :=
  ofDigits (s.map fun c => c.toNat - '0'.toNat)

/-- A number filled up with zeros to so many digits. -/
def zeroFilled (width n : Nat) : String :=
  let digits := text n
  String.ofList (List.replicate (width - digits.length) '0' ++ digits)

/-- The decimal digits of a whole number, with a sign if it is negative. -/
def intText (n : Int) : List Char :=
  if n < 0 then '-' :: text n.natAbs else text n.natAbs

/-- The numerator of `n * 10 ^ e` over `denominator e`. -/
def numerator (n : Nat) (e : Int) : Nat :=
  n * Nat.pow 10 e.toNat

/-- The least power of ten that makes `10 ^ e` whole. -/
def denominator (e : Int) : Nat :=
  Nat.pow 10 (-e).toNat

/-- The power of ten at which a positive fraction has its first digit. -/
def leadingExponent (n d : Nat) : Int :=
  let e : Int := (text n).length - (text d).length
  if n * denominator e < numerator d e then e - 1 else e

/-- A fraction as a count of the units `10 ^ exponent`, given by its numerator and denominator. -/
def inUnits (n d : Nat) (exponent : Int) : Nat × Nat :=
  (n * denominator exponent, numerator d exponent)

/-- A fraction rounded to whole units `10 ^ exponent`, a half to the even neighbour. -/
def roundTo (n d : Nat) (exponent : Int) : Nat :=
  let (num, den) := inUnits n d exponent
  divideToEven num den

/-- A positive fraction rounded to so many significant digits, with the power of ten of the first. -/
def significant (count n d : Nat) : Nat × Int :=
  let lead := leadingExponent n d
  let digits := roundTo n d (lead - (count - 1 : Nat))
  if digits = Nat.pow 10 count then (Nat.pow 10 (count - 1), lead + 1) else (digits, lead)

/-- The bounds of the reals that round to the double `m * 2 ^ e`, in quarters of its unit. Below a
power of two the gap to the next double is half as wide. -/
def bounds (m : Nat) (e : Int) : Nat × Nat :=
  (4 * m - (if m = Double.leadingBit ∧ -1074 < e then 1 else 2), 4 * m + 2)

/-- The neighbour of the double `m * 2 ^ e` among the multiples of a power of ten that reads back as
the double: the nearer of two, and the even one of two equally near. The bounds themselves read back
where the mantissa is even. -/
def onGrid? (m : Nat) (e grid : Int) : Option Decimal :=
  let quarter := Binary.numerator 1 (e - 2) * denominator grid
  let unit := numerator (Binary.denominator (e - 2)) grid
  let (low, high) := bounds m e
  let readsBack := fun a : Nat =>
    if m % 2 = 0 then low * quarter ≤ a * unit ∧ a * unit ≤ high * quarter
    else low * quarter < a * unit ∧ a * unit < high * quarter
  let below := 4 * m * quarter / unit
  let nearer := divideToEven (4 * m * quarter) unit
  ([nearer, below, below + 1].find? fun a => decide (readsBack a)).map fun a => ⟨a, grid⟩

/-- A number without the zeros at the end of its digits. -/
def reduced (fuel : Nat) (x : Decimal) : Decimal :=
  match fuel with
  | 0 => x
  | fuel + 1 =>
    if x.digits % 10 = 0 ∧ x.digits ≠ 0 then reduced fuel ⟨x.digits / 10, x.exponent + 1⟩ else x

/-- The fewest digits that read back as the positive double `m * 2 ^ e`, and of those the nearest.
Seventeen always do. -/
def shortest (m : Nat) (e : Int) : Decimal :=
  let lead := leadingExponent (Binary.numerator m e) (Binary.denominator e)
  let found := (List.range 17).findSome? fun more => onGrid? m e (lead - (more : Nat))
  reduced 17 (found.getD ⟨m, 0⟩)

end Decimal

end PolyPlot
