import PolyPlot.Json.Writer
import PolyPlot.Proofs.Decimal.Writing

namespace PolyPlot.Json

open Decimal (Checked Writable)

/-- How many levels of arrays and objects a value nests. -/
def depth : Json → ℕ
  | array items => itemsDepth items + 1
  | object members => membersDepth members + 1
  | null | bool _ | int _ | float _ | text _ => 0
where
  itemsDepth : List Json → ℕ
    | [] => 0
    | v :: rest => max (depth v) (itemsDepth rest)
  membersDepth : List (String × Json) → ℕ
    | [] => 0
    | (_, v) :: rest => max (depth v) (membersDepth rest)

/-- The whole numbers in a value. -/
def integers : Json → List ℤ
  | int n => [n]
  | array items => itemsIntegers items
  | object members => membersIntegers members
  | null | bool _ | float _ | text _ => []
where
  itemsIntegers : List Json → List ℤ
    | [] => []
    | v :: rest => integers v ++ itemsIntegers rest
  membersIntegers : List (String × Json) → List ℤ
    | [] => []
    | (_, v) :: rest => integers v ++ membersIntegers rest

variable {levels : ℕ} {v : Json} {members : List (String × Json)} {s : String}

mutual

theorem checked : ∀ (v : Json) (levels : ℕ), Checked v.depth levels v.integers (v.requireWritable levels)
  | null, levels | bool _, levels | float _, levels | text _, levels => .none levels
  | int n, levels => .int n levels
  | array items, levels + 1 => (itemsChecked items levels).nest
  | object members, levels + 1 => (membersChecked members levels).nest
  | array _, 0 | object _, 0 => .tooDeep (Nat.succ_pos _)

theorem itemsChecked : ∀ (items : List Json) (levels : ℕ), Checked (depth.itemsDepth items) levels
    (integers.itemsIntegers items) (requireWritable.itemsWritable items levels)
  | [], levels => .none levels
  | v :: rest, levels => (checked v levels).bind (itemsChecked rest levels)

theorem membersChecked : ∀ (members : List (String × Json)) (levels : ℕ),
    Checked (depth.membersDepth members) levels (integers.membersIntegers members)
      (requireWritable.membersWritable members levels)
  | [], levels => .none levels
  | (_, v) :: rest, levels => (checked v levels).bind (membersChecked rest levels)

end

end PolyPlot.Json
