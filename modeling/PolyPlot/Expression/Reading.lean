import PolyPlot.Decimal.Reading
import PolyPlot.Expression.Error
import PolyPlot.Expression.Tree

namespace PolyPlot

/-- A number of the grammar, by its digits before and after the point; without digits after it there
is no point. -/
structure Numeral where
  whole : List Char
  places : List Char
  deriving DecidableEq, Repr

namespace Numeral

/-- The number as it is written. -/
def text (n : Numeral) : List Char :=
  n.whole ++ (if n.places.isEmpty then [] else '.' :: n.places)

/-- The double nearest to the number. -/
def toDouble (n : Numeral) : Float :=
  Decimal.toDouble false ⟨Decimal.ofAscii (n.whole ++ n.places), -(n.places.length : Int)⟩

/-- The double nearest to the number, unless it is infinite. -/
def finite? (n : Numeral) : Option Float :=
  if n.toDouble.isFinite then some n.toDouble else none

end Numeral

/-- A piece of text that waits for the operand on its right. -/
inductive Frame (α : Type) where
  /-- A sign in front of a primary. -/
  | sign (negative : Bool)
  /-- A base whose exponent follows. -/
  | base (tree : Tree α)
  /-- A left operand and its operator. -/
  | operand (op : Operator) (left : Tree α)
  /-- An open parenthesis. -/
  | group

namespace Frame

variable {α : Type}

/-- What a frame adds to the nesting of the text. Chains of sums and products are not nested. -/
def nesting : Frame α → Nat
  | sign _ | base _ => 1
  | operand _ _ => 0
  | group => 4

/-- Applies the signs in front of a primary. -/
def applySigns : List (Frame α) → Tree α → List (Frame α) × Tree α
  | sign negative :: stack, t => applySigns stack (if negative then .negate t else t)
  | stack, t => (stack, t)

/-- Ends a chain of powers, the last exponent binding first. -/
def closePowers : List (Frame α) → Tree α → List (Frame α) × Tree α
  | base b :: stack, t => closePowers stack (.power b t)
  | stack, t => (stack, t)

/-- Ends a factor: the product to its left takes it as right operand. -/
def closeFactor (stack : List (Frame α)) (t : Tree α) : List (Frame α) × Tree α :=
  match closePowers stack t with
  | (operand op left :: below, t) =>
    if op.isProduct then (below, .binary op left t) else (operand op left :: below, t)
  | closed => closed

/-- Ends a term: the product and then the sum to its left take it as right operand. -/
def closeTerm (stack : List (Frame α)) (t : Tree α) : List (Frame α) × Tree α :=
  match closeFactor stack t with
  | (operand op left :: below, t) => (below, .binary op left t)
  | closed => closed

end Frame

/-- What is expected of the next character. -/
inductive Expectation (α : Type) where
  /-- An operand begins here. -/
  | operand
  /-- The digits of a number go on; those read are kept in reverse. -/
  | whole (start : Nat) (digits : List Char)
  /-- A point has been read and a digit must follow. -/
  | point (start : Nat) (digits : List Char)
  /-- The digits after a point go on. -/
  | fraction (start : Nat) (digits places : List Char)
  /-- An operand is complete, its signs applied. -/
  | operator (tree : Tree α)

/-- How far a text of the grammar has been read, the loosest binding first:

```text
expression := term (('+' | '-') term)*
term       := factor (('*' | '/') factor)*
factor     := primary ('^' factor)?
primary    := '(' expression ')' | '-' primary | '+' primary | 'x' | number
number     := digit+ ('.' digit+)?
```
-/
structure Reading (α : Type) where
  position : Nat
  stack : List (Frame α)
  expects : Expectation α

namespace Reading

open Expression (Error)

variable {α : Type}

/-- Nothing has been read. -/
def start : Reading α :=
  ⟨0, [], .operand⟩

def complete (position : Nat) (stack : List (Frame α)) (t : Tree α) : Reading α :=
  let (stack, t) := Frame.applySigns stack t
  ⟨position, stack, .operator t⟩

/-- The literal of a number that begins at `start`; a number without a value is refused. -/
def number (value? : Numeral → Option α) (start : Nat) (n : Numeral) : Except Error (Tree α) :=
  match value? n with
  | some v => .ok (.literal v)
  | none => .error (.numberNotFinite (String.ofList n.text) start)

def readOperand (position : Nat) (stack : List (Frame α)) (c : Char) : Except Error (Reading α) :=
  if c = '(' then .ok ⟨position + 1, .group :: stack, .operand⟩
  else if c = '-' then .ok ⟨position + 1, .sign true :: stack, .operand⟩
  else if c = '+' then .ok ⟨position + 1, .sign false :: stack, .operand⟩
  else if c = 'x' then .ok (complete (position + 1) stack .x)
  else if c.isDigit then .ok ⟨position + 1, stack, .whole position [c]⟩
  else .error (.unexpectedCharacter c position)

def readOperator (position : Nat) (stack : List (Frame α)) (t : Tree α) (c : Char) :
    Except Error (Reading α) :=
  let push := fun (op : Operator) (closed : List (Frame α) × Tree α) =>
    Except.ok ⟨position + 1, .operand op closed.2 :: closed.1, .operand⟩
  if c = '^' then .ok ⟨position + 1, .base t :: stack, .operand⟩
  else if c = '*' then push .multiply (Frame.closeFactor stack t)
  else if c = '/' then push .divide (Frame.closeFactor stack t)
  else if c = '+' then push .add (Frame.closeTerm stack t)
  else if c = '-' then push .subtract (Frame.closeTerm stack t)
  else
    match Frame.closeTerm stack t with
    | (.group :: below, t) =>
      if c = ')' then .ok (complete (position + 1) below t)
      else .error (.missingParenthesis position)
    | _ => .error (.unexpectedCharacter c position)

/-- Goes on behind a number that ends here, with the signs in front of it applied. -/
def afterNumber {β : Type} (value? : Numeral → Option α)
    (next : List (Frame α) → Tree α → Except Error β) (stack : List (Frame α)) (start : Nat)
    (n : Numeral) : Except Error β := do
  let t ← number value? start n
  let (stack, t) := Frame.applySigns stack t
  next stack t

/-- Reads one character, numbers having their values by `value?`. -/
def step (value? : Numeral → Option α) (r : Reading α) (c : Char) : Except Error (Reading α) :=
  match r.expects with
  | .operand => readOperand r.position r.stack c
  | .operator t => readOperator r.position r.stack t c
  | .whole start digits =>
    if c.isDigit then .ok ⟨r.position + 1, r.stack, .whole start (c :: digits)⟩
    else if c = '.' then .ok ⟨r.position + 1, r.stack, .point start digits⟩
    else
      afterNumber value? (readOperator r.position · · c) r.stack start ⟨digits.reverse, []⟩
  | .point start digits =>
    if c.isDigit then .ok ⟨r.position + 1, r.stack, .fraction start digits [c]⟩
    else .error (.malformedNumber start)
  | .fraction start digits places =>
    if c.isDigit then .ok ⟨r.position + 1, r.stack, .fraction start digits (c :: places)⟩
    else
      afterNumber value? (readOperator r.position · · c) r.stack start ⟨digits.reverse, places.reverse⟩

/-- The tree of a text that ends behind a complete operand. -/
def close (position : Nat) (stack : List (Frame α)) (t : Tree α) : Except Error (Tree α) :=
  match Frame.closeTerm stack t with
  | ([], t) => .ok t
  | _ => .error (.missingParenthesis position)

/-- The tree of a text that ends here. -/
def finish (value? : Numeral → Option α) (r : Reading α) : Except Error (Tree α) :=
  match r.expects with
  | .operand => .error (.unexpectedEnd r.position)
  | .operator t => close r.position r.stack t
  | .point start _ => .error (.malformedNumber start)
  | .whole start digits =>
    afterNumber value? (close r.position) r.stack start ⟨digits.reverse, []⟩
  | .fraction start digits places =>
    afterNumber value? (close r.position) r.stack start ⟨digits.reverse, places.reverse⟩

def nesting (r : Reading α) : Nat :=
  r.stack.foldl (fun n frame => n + frame.nesting) 0

/-- Reads a whole text as long as its nesting is within a limit. -/
def run (value? : Numeral → Option α) (limit : Option Nat) :
    Reading α → List Char → Except Error (Reading α)
  | r, [] => .ok r
  | r, c :: rest =>
    match r.step value? c with
    | .error e => .error e
    | .ok next =>
      if limit.any (· < next.nesting) then .error .nestedTooDeeply
      else run value? limit next rest

/-- The tree of a whole text, numbers having their values by `value?`. -/
def tree (value? : Numeral → Option α) (limit : Option Nat) (s : List Char) :
    Except Error (Tree α) :=
  (run value? limit start s).bind (finish value?)

end Reading

/-- The tree of a normal form, with a limit on its nesting or without. -/
def Tree.read (limit : Option Nat) (text : String) : Except Expression.Error (Tree Float) :=
  Reading.tree Numeral.finite? limit text.toList

end PolyPlot
