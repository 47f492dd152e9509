import PolyPlot.Coeffs.Analysis
import PolyPlot.Coeffs.Printer
import PolyPlot.Expression.Compilation
import PolyPlot.Report.Answer

namespace PolyPlot.Report

open Expression (Error Failure)

/-- How compiled expressions are obtained. -/
def methodName : String := "recursive_descent"

/-- The places after the point in texts, unless told otherwise. -/
def defaultPlaces : Int := 4

/-- Continues with the vector of an expression, or answers why it has none. -/
def withVector {β : Type} (tool : String) (levels : Nat) (o : Expression.Options) (text : String)
    (next : Coeffs Float → Except Fault (Answer Error β)) : Except Fault (Answer Error β) :=
  match Expression.compile (levels - 1) o text with
  | .error (.fault f) => .error f
  | .error (.refused e) => .ok (.fail tool e (e.metadata text))
  | .ok p => next p

def compilePolynomial (levels : Nat) (o : Expression.Options) (text : String) :
    Except Fault (Answer Error (Coeffs Float)) :=
  withVector "compile_polynomial" levels o text fun p => do
    let formatted ← p.format o.epsilon defaultPlaces
    return .ok methodName p [("expression", .text text), ("degree", .nat (p.degree o.epsilon)),
      ("formatted", .text formatted)]

/-- The value of a polynomial at a point, missing if it is not finite. -/
structure Sample where
  x : Float
  y : Option Float

def sample (p : Coeffs Float) (x : Float) : Sample :=
  let y := p.value x
  ⟨x, if y.isFinite then some y else none⟩

/-- All that is reported on one expression. -/
structure Analysis where
  coefficients : Coeffs Float
  degree : Nat
  formatted : String
  derivative : Coeffs Float
  derivativeFormatted : String
  integral : Coeffs Float
  integralFormatted : String
  roots : List Float
  values : List Sample

namespace Analysis

def ofVector (ε : Float) (places : Int) (constant : Float) (points : List Float)
    (p : Coeffs Float) : Except Fault Analysis := do
  let derivative := p.derivative ε
  let integral := p.integral ε constant
  let formatted ← p.format ε places
  let derivativeFormatted ← derivative.format ε places
  let integralFormatted ← integral.format ε places
  return {
    coefficients := p
    degree := p.degree ε
    formatted
    derivative
    derivativeFormatted
    integral
    integralFormatted
    roots := ← p.roots ε
    values := points.map (sample p) }

/-- The members of a report, given how a double is encoded. -/
def members (number : Float → Json) (a : Analysis) : List (String × Json) :=
  let vector := fun (p : List Float) => Json.array (p.map number)
  [("coefficients", vector a.coefficients), ("degree", .nat a.degree),
    ("formatted", .text a.formatted), ("derivative", vector a.derivative),
    ("derivative_formatted", .text a.derivativeFormatted), ("integral", vector a.integral),
    ("integral_formatted", .text a.integralFormatted), ("roots", vector a.roots),
    ("values", .array (a.values.map fun s =>
      .object [("x", number s.x), ("y", Json.orNull number s.y)]))]

end Analysis

def analyze (levels : Nat) (o : Expression.Options) (places : Int) (constant : Float)
    (points : List Float) (text : String) : Except Fault (Answer Error Analysis) :=
  withVector "analyze_polynomial" levels o text fun p => do
    let analysis ← Analysis.ofVector o.epsilon places constant points p
    return .ok methodName analysis
      [("expression", .text text), ("integral_constant", .float constant)]

end PolyPlot.Report
