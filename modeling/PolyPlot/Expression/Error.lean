import PolyPlot.Decimal.Layout
import PolyPlot.Decimal.Reading

namespace PolyPlot.Expression

/-- The stage that refuses an expression. -/
inductive Kind where
  /-- There is nothing to read. -/
  | blank
  /-- The text does not follow the grammar or is beyond a limit on texts. -/
  | malformed
  /-- The text can be read but stands for no polynomial. -/
  | meaningless
  deriving DecidableEq, Repr

def Kind.name : Kind → String
  | blank => "empty_input"
  | malformed => "syntax"
  | meaningless => "semantic"

/-- Why an expression is refused. Positions count the characters of the normal form from zero. -/
inductive Error where
  | empty
  | tooLong (limit : Int)
  | nestedTooDeeply
  | unexpectedCharacter (c : Char) (position : Nat)
  | unexpectedEnd (position : Nat)
  | missingParenthesis (position : Nat)
  | malformedNumber (position : Nat)
  | numberNotFinite (literal : String) (position : Nat)
  | nonConstantDivisor
  | zeroDivisor
  | nonConstantExponent
  | exponentNotFinite
  | exponentOutOfRange (exponent limit : Int)
  | coefficientNotFinite
  deriving DecidableEq, Repr

namespace Error

def kind : Error → Kind
  | empty => .blank
  | tooLong _ | nestedTooDeeply | unexpectedCharacter _ _ | unexpectedEnd _ | missingParenthesis _
  | malformedNumber _ | numberNotFinite _ _ => .malformed
  | nonConstantDivisor | zeroDivisor | nonConstantExponent | exponentNotFinite
  | exponentOutOfRange _ _ | coefficientNotFinite => .meaningless

/-- Where in the normal form reading stopped. -/
def position? : Error → Option Nat
  | unexpectedCharacter _ p | unexpectedEnd p | missingParenthesis p | malformedNumber p
  | numberNotFinite _ p => some p
  | _ => none

private def number (n : Int) : String :=
  String.ofList (Decimal.intText n)

def message : Error → String
  | empty => "Expression cannot be empty."
  | tooLong limit => "Expression exceeds max length of " ++ number limit ++ " characters."
  | nestedTooDeeply => "Expression is nested too deeply."
  | unexpectedCharacter c p =>
    "Unexpected character '" ++ String.singleton c ++ "' at position " ++ number p
  | unexpectedEnd _ => "Unexpected end of expression"
  | missingParenthesis p => "Expected ')' at position " ++ number p
  | malformedNumber p => "Malformed number at position " ++ number p
  | numberNotFinite literal _ => "Number '" ++ literal ++ "' is not finite"
  | nonConstantDivisor => "Division by a non-constant expression is not supported"
  | zeroDivisor => "Division by zero"
  | nonConstantExponent => "Exponent must be a constant"
  | exponentNotFinite => "Exponent must be finite"
  | exponentOutOfRange e limit =>
    "Exponent " ++ number e ++ " is outside the supported range [0, " ++ number limit ++ "]"
  | coefficientNotFinite => "Expression produces a non-finite coefficient."

/-- The whole numbers of any size that a message tells. -/
def numbers : Error → List Int
  | tooLong limit => [limit]
  | exponentOutOfRange e limit => [e, limit]
  | _ => []

end Error

/-- Why a computation on expressions has no answer: the expression is refused, or a step of
arithmetic is. -/
inductive Failure where
  | refused (error : Error)
  | fault (fault : Fault)
  deriving DecidableEq, Repr

/-- Refuses an expression, which needs the text of the reason. -/
def Error.refuse {β : Type} (e : Error) : Except Failure β :=
  match e.numbers.forM Decimal.requireWritable with
  | .ok _ => .error (.refused e)
  | .error f => .error (.fault f)

end PolyPlot.Expression
