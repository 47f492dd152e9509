namespace PolyPlot

inductive Json where
  | null
  | bool (b : Bool)
  | int (n : Int)
  | float (x : Float)
  | text (s : String)
  | array (items : List Json)
  | object (members : List (String × Json))
  deriving Inhabited

namespace Json

/-- Puts a member into an object: a key keeps its place, and the last value for it stays. -/
def put {β : Type} (key : String) (value : β) : List (String × β) → List (String × β)
  | [] => [(key, value)]
  | (k, v) :: rest => if k = key then (key, value) :: rest else (k, v) :: put key value rest

/-- The value of a member of an object. -/
def get? (key : String) : Json → Option Json
  | object members => members.lookup key
  | _ => none

/-- An array of doubles. -/
def floats (xs : List Float) : Json :=
  array (xs.map float)

/-- A whole number from zero up. -/
def nat (n : Nat) : Json :=
  int n

/-- A value that may be missing, as a value or null. -/
def orNull {β : Type} (encode : β → Json) : Option β → Json
  | some b => encode b
  | none => null

end Json

end PolyPlot
