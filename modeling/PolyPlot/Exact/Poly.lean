namespace PolyPlot.Exact

/-- The exact coefficients of a polynomial, the one of the lowest power first. Zeros at the end stand
for nothing. -/
abbrev Poly := List Rat

def worksOut (greatest? : Option Nat) (n : Nat) : Bool :=
  !greatest?.any (· < n)

def numberPower? (greatest? : Option Nat) (r : Rat) (n : Nat) : Option Rat :=
  if n = 0 then some 1
  else if r = 0 ∨ r = 1 then some r
  else if r = -1 then some (if n % 2 = 0 then 1 else -1)
  else if worksOut greatest? n then some (r ^ n)
  else none

namespace Poly

def add : Poly → Poly → Poly
  | [], q => q
  | p, [] => p
  | a :: p, b :: q => (a + b) :: add p q

def scale (c : Rat) (p : Poly) : Poly :=
  p.map (c * ·)

def multiply : Poly → Poly → Poly
  | [], _ => []
  | a :: p, q => add (scale a q) (0 :: multiply p q)

/-- The polynomial without zeros at its end. -/
def trim : Poly → Poly
  | [] => []
  | c :: rest =>
    match trim rest with
    | [] => if c = 0 then [] else [c]
    | kept => c :: kept

/-- The value of a polynomial without `x`. -/
def constant? (p : Poly) : Option Rat :=
  match p.trim with
  | [] => some 0
  | [c] => some c
  | _ => none

/-- The coefficients of a polynomial without zeros at its end, and at least one. -/
def coefficients (p : Poly) : Poly :=
  match p.trim with
  | [] => [0]
  | kept => kept

def multiplyMore (product p : Poly) : Nat → Poly
  | 0 => product
  | n + 1 => multiplyMore (multiply product p) p n

def power? (greatest? : Option Nat) (p : Poly) (n : Nat) : Option Poly :=
  match p.constant? with
  | some c => (numberPower? greatest? c n).map fun r => [r]
  | none => if worksOut greatest? n then some (multiplyMore [1] p n) else none

end Poly

end PolyPlot.Exact
