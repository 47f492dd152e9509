import PolyPlot.Coeffs.Basic
import PolyPlot.Decimal.Layout
import PolyPlot.Decimal.Rounding

namespace PolyPlot.Coeffs

def mostNumeralPlaces : Nat := 2147483647

/-- The power of `x` in a term, nothing for the constant. -/
def powerText : Nat → String
  | 0 => ""
  | 1 => "x"
  | n => "x^" ++ String.ofList (Decimal.text n)

/-- A rounded magnitude without needless zeros; a whole one has no point. -/
def numeral (places : Int) (magnitude : Float) : Except Fault String := do
  let whole ← Double.truncate magnitude
  if magnitude == Float.ofInt whole then
    return String.ofList (Decimal.intText whole)
  else if places < 0 ∨ mostNumeralPlaces < places then
    throw .badPrecision
  else
    return String.ofList (Decimal.dropZeros (Decimal.fixed places.toNat magnitude).toList)

/-- A term without its sign, and whether its coefficient is left out because it is one; `none` if the
coefficient rounds below the tolerance. -/
def body? (ε : Float) (places : Int) (power : Nat) (c : Float) :
    Except Fault (Option (String × Bool)) := do
  let magnitude ← Decimal.roundPlaces places c.abs
  if magnitude < ε then return none
  if power > 0 && (magnitude - 1).abs < ε then return some (powerText power, true)
  return some ((← numeral places magnitude) ++ powerText power, false)

/-- The first term, which carries its sign. A leading `-x^n` is put in parentheses, since a sign would
bind to `x` alone. -/
def firstTerm (negative unit : Bool) (power : Nat) (body : String) : String :=
  if negative then
    if unit && 2 ≤ power then "-(" ++ body ++ ")" else "-" ++ body
  else body

/-- The terms of the powers below `n`, highest first, behind those already written. -/
def terms (ε : Float) (places : Int) (p : Coeffs Float) :
    Nat → List String → Except Fault (List String)
  | 0, written => .ok written
  | n + 1, written => do
    let c := p.getD n 0
    match ← body? ε places n c with
    | none => terms ε places p n written
    | some (body, unit) =>
      let term :=
        if written.isEmpty then firstTerm (c < 0) unit n body
        else (if c < 0 then "- " else "+ ") ++ body
      terms ε places p n (written ++ [term])

/-- A vector as text. The zero polynomial is `0`. -/
def format (ε : Float) (places : Int) (p : Coeffs Float) : Except Fault String := do
  match ← terms ε places p p.length [] with
  | [] => return "0"
  | written => return " ".intercalate written

end PolyPlot.Coeffs
