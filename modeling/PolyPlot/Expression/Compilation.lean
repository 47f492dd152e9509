import PolyPlot.Coeffs.Canonical
import PolyPlot.Expression.Evaluation
import PolyPlot.Expression.Normal
import PolyPlot.Expression.Reading
import PolyPlot.Scalar.Binary

namespace PolyPlot.Expression

/-- The tolerance, limits and cap under which expressions are compiled. -/
structure Options where
  /-- Entries of smaller magnitude are dropped from the end of a vector, and divisors of smaller
  magnitude count as zero. -/
  epsilon : Float := 1e-10
  maxExponent : Int := 50
  /-- The most characters a text may have. -/
  maxLength : Option Int := none

def Options.limits (o : Options) : Limits Float :=
  ⟨o.epsilon, o.maxExponent⟩

/-- Refuses a text that is blank or longer than the cap. -/
def screen (maxLength : Option Int) (text : String) : Except Failure Unit :=
  if text.toList.all Text.isBlank then .error (.refused .empty)
  else
    match maxLength with
    | some limit => if limit < text.length then (Error.tooLong limit).refuse else .ok ()
    | none => .ok ()

/-- A vector of finite numbers only. -/
def requireFinite {α : Type} [Scalar α] (p : Coeffs α) : Except Error (Coeffs α) :=
  if p.all Scalar.isFinite then .ok p else .error .coefficientNotFinite

section Numbers

variable {α : Type} [Scalar α] (literal : Float → α) (limits : Limits α) (levels : Option Nat)
  (maxLength : Option Int)

/-- The vector of an expression before its canonical form, in numbers that `literal` makes of the
doubles in the text. Text and tree have a limit on their nesting or none. -/
def rawVector (text : String) : Except Failure (Coeffs α) := do
  screen maxLength text
  let tree ← (Tree.read levels (normalize text)).mapError .refused
  let raw ← (tree.map literal).evaluateUpTo limits levels
  (requireFinite raw).mapError .refused

/-- The canonical vector of an expression in numbers that `literal` makes of doubles. -/
def compileWith (text : String) : Except Failure (Coeffs α) :=
  (rawVector literal limits levels maxLength text).map (·.canonical limits.epsilon)

end Numbers

/-- The canonical coefficient vector of an expression, with so many levels of nesting left. -/
def compile (levels : Nat) (o : Options) (text : String) : Except Failure (Coeffs Float) :=
  compileWith id o.limits (some levels) o.maxLength text

/-- The canonical vector of an expression, or none if the expression is refused. -/
def parse (levels : Nat) (o : Options) (text : String) : Except Fault (Option (Coeffs Float)) :=
  match compile (levels - 1) o text with
  | .ok p => .ok (some p)
  | .error (.refused _) => .ok none
  | .error (.fault f) => .error f

end PolyPlot.Expression
