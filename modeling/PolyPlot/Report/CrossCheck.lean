import PolyPlot.Exact.System
import PolyPlot.Report.Analysis

namespace PolyPlot.Report

open Expression (Error)

/-- Why a text is not let through to the expansion. -/
inductive Unsafe where
  | empty
  | blocked (pattern : String)
  | unsupported
  deriving DecidableEq, Repr

def Unsafe.message : Unsafe → String
  | empty => "Expression cannot be empty."
  | blocked pattern => "Expression contains blocked pattern '" ++ pattern ++ "'."
  | unsupported => "Expression contains unsupported characters."

/-- Texts that must not occur in an expression, in the order in which they are looked for. -/
def blockedPatterns : List String :=
  ["__", "import", "exec", "eval"]

/-- Whether a text occurs in another one. -/
def occursIn (pattern : List Char) : List Char → Bool
  | [] => pattern.isEmpty
  | c :: rest => pattern.isPrefixOf (c :: rest) || occursIn pattern rest

def isGrammatical (c : Char) : Bool :=
  c.isDigit || "x.+-*/^()".toList.contains c

/-- The normal form of a text, if it is safe to expand. -/
def sanitize (text : String) : Except Unsafe String :=
  let normal := Expression.normalize text
  if normal.isEmpty then .error .empty
  else
    match blockedPatterns.find? fun p => occursIn p.toList normal.toList with
    | some pattern => .error (.blocked pattern)
    | none => if normal.toList.all isGrammatical then .ok normal else .error .unsupported

/-- Why an expression has no expansion, or cannot be checked against it. -/
inductive Reason where
  | notSafe (reason : Unsafe)
  | refused (error : Error)
  | notPolynomial
  deriving DecidableEq, Repr

def Reason.message : Reason → String
  | notSafe reason => reason.message
  | refused error => error.message
  | notPolynomial => "Expression does not expand to a polynomial."

/-- How expansions are obtained. -/
def exactMethodName : String := "sympy"

section System

variable {V : Type} (S : Exact.System V)

def expansion {α : Type} (numbers : Exact.Numbers α) (levels : Nat) (text : String) :
    Except Reason (Coeffs α) := do
  let normal ← (sanitize text).mapError .notSafe
  let tree ←
    match Tree.read (some levels) normal with
    | .ok tree => .ok tree
    | .error .nestedTooDeeply => .error .notPolynomial
    | .error e => .error (.refused e)
  if levels < tree.height then throw .notPolynomial
  match (S.expandTree? tree).bind (Exact.Expansion.vector? numbers) with
  | some p => .ok p
  | none => .error .notPolynomial

/-- The exact expansion of an expression. -/
def expand (levels : Nat) (text : String) : Answer Reason (List Float) :=
  let asked := [("expression", Json.text text)]
  match expansion S .doubles levels text with
  | .ok p => .ok exactMethodName p asked
  | .error reason => .fail "expand_with_sympy" reason asked

/-- The factor of the tolerance: the greatest magnitude in a vector, and at least one. -/
def toleranceScale {α : Type} [Scalar α] (p : Coeffs α) : α :=
  p.foldl (fun greatest c => if greatest < Scalar.abs c then Scalar.abs c else greatest) 1

/-- Whether a vector agrees with the exact expansion of its expression, and that expansion. -/
def verdict {α : Type} [Scalar α] (numbers : Exact.Numbers α) (levels : Nat) (ε : α) (p : Coeffs α)
    (text : String) : Except Reason (Bool × Coeffs α) := do
  let q ← expansion S numbers (levels - 1) text
  return (Coeffs.agree (ε * toleranceScale q) p q, q)

/-- Whether the vector of an expression agrees with its exact expansion. The vector is computed one call
further down than the expansion. -/
def crossCheck (levels : Nat) (ε : Float) (text : String) : Except Fault (Answer Reason Bool) := do
  let tool := "cross_check_expression"
  let engine ← compilePolynomial (levels - 1) { epsilon := ε } text
  match engine.outcome with
  | .error e => return .fail tool (.refused e) engine.metadata
  | .ok p =>
    match verdict S .doubles levels ε p text with
    | .error reason => return .fail tool reason [("expression", .text text)]
    | .ok (agrees, q) =>
      return .ok exactMethodName agrees
        [("expression", .text text), ("engine", .floats p), ("reference", .floats q)]

end System

end PolyPlot.Report
