import PolyPlot.Exact.Form
import PolyPlot.Exact.System

namespace PolyPlot.Exact

/-- What an expression is, read exactly. -/
inductive Value where
  /-- A symbolic form, and the polynomial it is where no division by `x` takes part. -/
  | finite (polynomial? : Option Poly) (form : Form)
  /-- The quotient of a number by zero, or what came of it, or a number too great to be worked out. -/
  | unbounded
  /-- The quotient of zero by zero, or what came of it. -/
  | undefined

namespace Value

def ofRat (r : Rat) : Value :=
  finite (some [r]) (.ofRat r)

def x : Value :=
  finite (some [0, 1]) (.ofBase .x)

def add : Value → Value → Value
  | undefined, _ | _, undefined => undefined
  | unbounded, unbounded => undefined
  | unbounded, _ | _, unbounded => unbounded
  | finite p s, finite q t => finite (do return (← p).add (← q)) (s.add t)

/-- The product; an unbounded value keeps no other factor than zero. -/
def multiply : Value → Value → Value
  | undefined, _ | _, undefined => undefined
  | unbounded, unbounded => unbounded
  | unbounded, finite _ t | finite _ t, unbounded => if t = .zero then undefined else unbounded
  | finite p s, finite q t => finite (do return (← p).multiply (← q)) (s.multiply t)

def negate (v : Value) : Value :=
  (ofRat (-1)).multiply v

def ofPoly (p : Poly) : Value :=
  match p.constant? with
  | some c => ofRat c
  | none => finite (some p) (.ofPoly 0 p)

/-- Whether no `x` occurs in a value. -/
def isConstant : Value → Bool
  | finite p _ => (p.bind Poly.constant?).isSome
  | unbounded | undefined => true

def floor : Value → Value
  | finite p form =>
    match p.bind Poly.constant? with
    | some c => ofRat c.floor
    | none => finite p form
  | v => v

/-- The coefficients of a value that is multiplied out. -/
def expansion? : Value → Option Expansion
  | finite p _ => p.map fun q => .polynomial q.coefficients
  | unbounded => none
  | undefined => some .undefined

section Powers

variable (greatest? : Option Nat)

/-- The polynomial that a form is when it is multiplied out. -/
def expand : Value → Value
  | finite (some p) _ => ofPoly p
  | finite none form =>
    match (form.expand greatest?).polynomial? greatest? with
    | some p => ofPoly p
    | none => finite none form
  | v => v

/-- A polynomial to a whole power; one without `x` may have a negative exponent. -/
def powerPoly? (p : Poly) (n : Int) : Option Poly :=
  if 0 ≤ n then p.power? greatest? n.toNat
  else
    match p.constant? with
    | some c => if c = 0 then none else (numberPower? greatest? c⁻¹ n.natAbs).map fun r => [r]
    | none => none

def wholePower (v : Value) (n : Int) : Value :=
  if n = 0 then ofRat 1
  else
    match v with
    | undefined => undefined
    | unbounded => if n < 0 then ofRat 0 else unbounded
    | finite p s =>
      if s = .zero then
        if n < 0 then unbounded else ofRat 0
      else
        match s.power? greatest? n with
        | some t => finite (p.bind (powerPoly? greatest? · n)) t
        | none => unbounded

/-- A value raised to an exponent with `x` in it. -/
def raise (v : Value) (exponent : Form) : Value :=
  match v with
  | undefined => undefined
  | unbounded => unbounded
  | finite _ s =>
    if s = .ofRat 1 then ofRat 1 else finite none (.ofBase (.raised s exponent))

/-- A value raised to a value, which is whole where it is a number. -/
def power (v : Value) : Value → Value
  | undefined | unbounded => undefined
  | finite p e =>
    match p.bind Poly.constant? with
    | some c => v.wholePower greatest? c.floor
    | none => v.raise e

end Powers

end Value

def system (greatest? : Option Nat) : System Value where
  number := .ofRat
  x := .x
  negate := .negate
  add := .add
  subtract v w := v.add w.negate
  multiply := .multiply
  divide v w := v.multiply (w.wholePower greatest? (-1))
  power := .power greatest?
  expand := .expand greatest?
  isConstant := Value.isConstant
  floor := .floor
  expansion? := Value.expansion?

end PolyPlot.Exact
