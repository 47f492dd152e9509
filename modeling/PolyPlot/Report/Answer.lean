import PolyPlot.Expression.Error
import PolyPlot.Json.Basic

namespace PolyPlot

/-- The answer of a tool whose reasons are of type `ε` and whose results are of type `β`. -/
structure Answer (ε β : Type) where
  outcome : Except ε β
  method : String
  metadata : List (String × Json)

namespace Answer

variable {ε β : Type}

def ok (method : String) (result : β) (metadata : List (String × Json)) : Answer ε β :=
  ⟨.ok result, method, metadata⟩

def fail (method : String) (reason : ε) (metadata : List (String × Json)) : Answer ε β :=
  ⟨.error reason, method, metadata⟩

/-- An answer as an object, given the texts of reasons and the values of results. -/
def toJson (message : ε → String) (encode : β → Json) (a : Answer ε β) : Json :=
  let outcome :=
    match a.outcome with
    | .ok result => [("ok", Json.bool true), ("result", encode result)]
    | .error reason => [("ok", Json.bool false), ("error", Json.text (message reason))]
  .object (outcome ++ [("method", .text a.method), ("metadata", .object a.metadata)])

end Answer

/-- What is told about a refused expression besides the reason. -/
def Expression.Error.metadata (text : String) (e : Expression.Error) : List (String × Json) :=
  [("expression", .text text), ("kind", .text e.kind.name),
    ("position", Json.orNull Json.nat e.position?)]

end PolyPlot
