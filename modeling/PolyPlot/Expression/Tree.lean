namespace PolyPlot

inductive Operator where
  | add
  | subtract
  | multiply
  | divide
  deriving DecidableEq, Repr

def Operator.isProduct : Operator → Bool
  | multiply | divide => true
  | add | subtract => false

/-- An expression in `x`, its literals being numbers of type `α`. -/
inductive Tree (α : Type) where
  | literal (value : α)
  | x
  | negate (operand : Tree α)
  | binary (op : Operator) (left right : Tree α)
  | power (base exponent : Tree α)
  deriving Repr, Inhabited

namespace Tree

variable {α β : Type}

/-- The tree with every literal replaced. -/
def map (f : α → β) : Tree α → Tree β
  | literal v => literal (f v)
  | x => x
  | negate t => negate (t.map f)
  | binary op a b => binary op (a.map f) (b.map f)
  | power b e => power (b.map f) (e.map f)

/-- The count of levels of a tree, at least one. -/
def height : Tree α → Nat
  | literal _ | x => 1
  | negate t => t.height + 1
  | binary _ a b | power a b => max a.height b.height + 1

end Tree

end PolyPlot
