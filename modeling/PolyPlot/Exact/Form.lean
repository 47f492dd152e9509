import PolyPlot.Exact.Poly

namespace PolyPlot.Exact

/-- A symbolic expression: a power, a sum as a chain of `plus` that ends in `zero`, or a product as a chain of
`times` that ends in `one`. Chains are kept in order and equal terms and bases are merged, but a product of
sums is not multiplied out. -/
inductive Form where
  | x
  /-- A power whose exponent contains `x`. -/
  | raised (base exponent : Form)
  /-- The sum without terms. -/
  | zero
  /-- A number times a product, and further terms. -/
  | plus (coefficient : Rat) (factors rest : Form)
  /-- The product without factors. -/
  | one
  /-- A whole power of a base, and further factors. -/
  | times (base : Form) (exponent : Int) (rest : Form)
  deriving DecidableEq

namespace Form

def rank : Form → Nat
  | x => 0
  | raised _ _ => 1
  | zero => 2
  | plus _ _ _ => 3
  | one => 4
  | times _ _ _ => 5

/-- The order of two numbers. -/
def orderRat (r s : Rat) : Ordering :=
  if r < s then .lt else if r = s then .eq else .gt

/-- An order of forms: by kind, and parts of one kind from left to right. -/
def order : Form → Form → Ordering
  | raised b e, raised c f => (order b c).then (order e f)
  | plus r fs s, plus r' gs t =>
    (order fs gs).then ((orderRat r r').then (order s t))
  | times b n fs, times c m gs => (order b c).then ((compare n m).then (order fs gs))
  | a, b => compare a.rank b.rank

/-- A sum with one more term. -/
def addTerm (r : Rat) (fs : Form) : Form → Form
  | plus r' gs rest =>
    match order fs gs with
    | .lt => plus r fs (plus r' gs rest)
    | .eq => if r + r' = 0 then rest else plus (r + r') gs rest
    | .gt => plus r' gs (addTerm r fs rest)
  | _ => plus r fs zero

/-- The sum of two sums. -/
def add : Form → Form → Form
  | plus r fs rest, s => add rest (addTerm r fs s)
  | _, s => s

/-- A sum with every coefficient multiplied by a number other than zero. -/
def scale (c : Rat) : Form → Form
  | plus r fs rest => plus (c * r) fs (scale c rest)
  | s => s

/-- A product with one more power of a base. -/
def mulFactor (base : Form) (n : Int) : Form → Form
  | times c m rest =>
    match order base c with
    | .lt => times base n (times c m rest)
    | .eq => if n + m = 0 then rest else times c (n + m) rest
    | .gt => times c m (mulFactor base n rest)
  | _ => times base n one

/-- The product of two products. -/
def mulFactors : Form → Form → Form
  | times b n rest, fs => mulFactors rest (mulFactor b n fs)
  | _, fs => fs

/-- The whole power of a product, other than the power zero. -/
def powerFactors (n : Int) : Form → Form
  | times b m rest => times b (n * m) (powerFactors n rest)
  | fs => fs

/-- A number as a sum. -/
def ofRat (r : Rat) : Form :=
  if r = 0 then zero else plus r one zero

def ofBase (base : Form) : Form :=
  plus 1 (times base 1 one) zero

/-- A sum as a number times a product: one that has several terms is a single factor. -/
def asProduct : Form → Rat × Form
  | plus r fs zero => (r, fs)
  | s => (1, times s 1 one)

/-- A number other than zero times a product, as a sum. A number is multiplied into a product that is
nothing but a sum. -/
def ofProduct (r : Rat) : Form → Form
  | times (plus c fs rest) 1 one => scale r (plus c fs rest)
  | fs => plus r fs zero

/-- The product of two sums. -/
def multiply (s t : Form) : Form :=
  if s = zero ∨ t = zero then zero
  else
    let (a, fs) := s.asProduct
    let (b, gs) := t.asProduct
    ofProduct (a * b) (mulFactors fs gs)

/-- The whole power of a sum other than zero, unless a number in it is too great to be worked out. -/
def power? (greatest? : Option Nat) (s : Form) (n : Int) : Option Form :=
  if n = 0 then some (ofRat 1)
  else
    let (a, fs) := s.asProduct
    (numberPower? greatest? (if n < 0 then a⁻¹ else a) n.natAbs).map fun c =>
      ofProduct c (powerFactors n fs)

/-- The sum of the terms of a polynomial, given the power of its first one. -/
def ofPoly (lowest : Nat) : Poly → Form
  | [] => zero
  | c :: rest =>
    if c = 0 then ofPoly (lowest + 1) rest
    else addTerm c (if lowest = 0 then one else times x lowest one) (ofPoly (lowest + 1) rest)

end Form

/-- A multiple of a power of `x` and of a product that is not multiplied out. -/
structure Monomial where
  coefficient : Rat
  exponent : Int
  factors : Form

abbrev Laurent := List Monomial

namespace Laurent

/-- A sum with one more monomial. -/
def insert (m : Monomial) : Laurent → Laurent
  | [] => [m]
  | n :: rest =>
    if n.exponent = m.exponent ∧ n.factors = m.factors then
      { n with coefficient := n.coefficient + m.coefficient } :: rest
    else n :: insert m rest

def add (s t : Laurent) : Laurent :=
  s.foldl (fun sum m => insert m sum) t

def multiplyMonomials (m n : Monomial) : Monomial :=
  ⟨m.coefficient * n.coefficient, m.exponent + n.exponent, Form.mulFactors m.factors n.factors⟩

def multiply (s t : Laurent) : Laurent :=
  s.foldl (fun sum m => add (t.map (multiplyMonomials m)) sum) []

def power (s : Laurent) : Nat → Laurent
  | 0 => [⟨1, 0, .one⟩]
  | n + 1 => multiply (power s n) s

/-- The highest power of `x` up to which monomials are made a polynomial. -/
def highest (s : Laurent) : Nat :=
  s.foldl (fun n m => max n m.exponent.toNat) 0

/-- The polynomial that a sum is, if it has no other factors than powers of `x` from zero up. -/
def polynomial? (greatest? : Option Nat) (s : Laurent) : Option Poly :=
  let kept := s.filter fun m => m.coefficient ≠ 0
  if kept.all fun m => m.factors = .one ∧ 0 ≤ m.exponent ∧ worksOut greatest? m.exponent.toNat then
    some ((List.range (highest kept + 1)).map fun power : Nat =>
      ((kept.filter fun m => m.exponent = (power : Int)).foldl (fun sum m => sum + m.coefficient) 0))
  else none

end Laurent

/-- A form multiplied out. Negative powers of sums and powers with `x` in the exponent stay factors. -/
def Form.expand (greatest? : Option Nat) : Form → Laurent
  | x => [⟨1, 1, .one⟩]
  | raised b e => [⟨1, 0, times (raised b e) 1 .one⟩]
  | zero => []
  | plus r fs rest =>
    Laurent.add (Laurent.multiply [⟨r, 0, .one⟩] (fs.expand greatest?)) (rest.expand greatest?)
  | one => [⟨1, 0, .one⟩]
  | times b n rest =>
    let base : Laurent :=
      match b with
      | x => [⟨1, n, .one⟩]
      | plus r fs more =>
        if 0 ≤ n ∧ worksOut greatest? n.toNat then
          Laurent.power ((plus r fs more).expand greatest?) n.toNat
        else [⟨1, 0, times b n .one⟩]
      | _ => [⟨1, 0, times b n .one⟩]
    Laurent.multiply base (rest.expand greatest?)

end PolyPlot.Exact
