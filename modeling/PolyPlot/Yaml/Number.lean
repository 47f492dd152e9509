import PolyPlot.Decimal.Reading
import PolyPlot.Yaml.Basic

namespace PolyPlot.Yaml

/-- A text without underscores. -/
def dropUnderscores (s : List Char) : List Char :=
  s.filter (· ≠ '_')

/-- Whether a number has a minus sign, and the text behind its sign; a number is not empty. -/
def splitSign (s : List Char) : Except Error (Bool × List Char) :=
  if s.isEmpty then .error .emptyNumber else .ok (Decimal.takeSign s)

/-- The number that digits write in a base. -/
def ofBase (base : Nat) (s : List Char) : Except Error Int :=
  let digit? := fun c : Char =>
    if c.isDigit then some (c.toNat - '0'.toNat)
    else if c.toLower.isLower then some (c.toLower.toNat - 'a'.toNat + 10)
    else none
  match s.mapM digit? with
  | some (d :: ds) =>
    if (d :: ds).all (· < base) then .ok ((d :: ds).foldl (fun n d => base * n + d) 0 : Nat)
    else .error .noNumber
  | _ => .error .noNumber

/-- A whole number in decimal digits. -/
def readWhole (s : List Char) : Except Error Int :=
  match Decimal.readInt? (String.ofList s) with
  | some n => .ok n
  | none => .error .noNumber

/-- The whole number that a text stands for. -/
def readInt (s : List Char) : Except Error Int := do
  let (negative, body) ← splitSign (dropUnderscores s)
  let magnitude : Int ←
    match body with
    | ['0'] => pure 0
    | '0' :: 'b' :: digits => ofBase 2 digits
    | '0' :: 'x' :: digits => ofBase 16 digits
    | '0' :: _ => ofBase 8 body
    | [] => throw .emptyNumber
    | _ =>
      if body.contains ':' then
        (body.splitOn ':').foldlM (fun n part => do return 60 * n + (← readWhole part)) 0
      else readWhole body
  return if negative then -magnitude else magnitude

/-- A number in decimal digits. -/
def readDouble (s : List Char) : Except Error Float :=
  match Decimal.readDouble? (String.ofList s) with
  | some x => .ok x
  | none => .error .noNumber

/-- The sum of numbers of which each counts sixty times as much as the one behind it. -/
def sumSixties (parts : List Float) : Float :=
  (parts.reverse.foldl (fun (sum, unit) x => (sum + x * unit, unit * 60)) (0, 1)).1

/-- The double that a text stands for. -/
def readFloat (s : List Char) : Except Error Float := do
  let (negative, body) ← splitSign ((dropUnderscores s).map Char.toLower)
  let magnitude ←
    match String.ofList body with
    | ".inf" => pure Double.infinity
    | ".nan" => return Double.undefined
    | _ =>
      if body.contains ':' then return sumSixties (← (body.splitOn ':').mapM readDouble)
      else readDouble body
  return if negative then -magnitude else magnitude

end PolyPlot.Yaml
