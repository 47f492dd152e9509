import PolyPlot.Json.Reader
import PolyPlot.Service.Check

namespace PolyPlot.Service

/-- An expression to compile. -/
structure ParseRequest where
  expression : String

/-- A vector and the points at which its values are asked for. -/
structure EvaluateRequest where
  coefficients : List Float
  xs : List Float

/-- A vector to analyse, and the constant of its antiderivative. -/
structure AnalyzeRequest where
  coefficients : List Float
  integralConstant : Float

/-- A vector to trace on a canvas. -/
structure TraceRequest where
  coefficients : List Float
  width : Int
  height : Int
  zoom : Float
  panX : Float
  panY : Float

/-- The vector that a request stands for if it has none. -/
def usualVector : List Float := [0]

/-- The most pixels that a canvas has on a side. -/
def longestSide : Int := 10000

/-- A count of pixels from one up. -/
def checkSide (v : Json) : Checked Int :=
  ((checkInt v).require (· ≤ longestSide) .above).require (0 < ·) .notAbove

/-- A positive factor; an undefined one passes. -/
def checkFactor (v : Json) : Checked Float :=
  (checkDouble v).require (fun x => !(x ≤ 0)) .notAbove

def ParseRequest.check (v : Json) : Checked ParseRequest :=
  ParseRequest.mk <$> checkField v "expression" "" checkText

def EvaluateRequest.check (v : Json) : Checked EvaluateRequest :=
  EvaluateRequest.mk
    <$> checkField v "coefficients" usualVector (checkList checkDouble)
    <*> checkField v "xs" [] (checkList checkDouble)

def AnalyzeRequest.check (v : Json) : Checked AnalyzeRequest :=
  AnalyzeRequest.mk
    <$> checkField v "coefficients" usualVector (checkList checkDouble)
    <*> checkField v "integral_constant" 0 checkDouble

def TraceRequest.check (v : Json) : Checked TraceRequest :=
  TraceRequest.mk
    <$> checkField v "coefficients" usualVector (checkList checkDouble)
    <*> checkField v "width" 800 checkSide
    <*> checkField v "height" 600 checkSide
    <*> checkField v "zoom" 1 checkFactor
    <*> checkField v "pan_x" 0 checkDouble
    <*> checkField v "pan_y" 0 checkDouble

/-- A text without a byte order mark at its front. -/
def withoutMark (s : String) : String :=
  match s.toList with
  | '\uFEFF' :: rest => String.ofList rest
  | _ => s

/-- The request that the text of a body carries. The place of a character that is not JSON is told as
its index. -/
def readBody {β : Type} (check : Json → Checked β) (text : String) : Checked β :=
  let checked : Checked β :=
    if text.isEmpty then .flaw .missing
    else
      let text := withoutMark text
      match Json.read text with
      | .error stop => .flawed [⟨.notJson, [.index (stop.offset text)]⟩]
      | .ok (.object members) => check (.object members)
      | .ok _ => .flaw .notObject
  checked.under (.field "body")

end PolyPlot.Service
