import PolyPlot.Proofs.Decimal.Writing
import PolyPlot.Yaml.Value

namespace PolyPlot.Yaml.Value

open Decimal (Checked Writable)

/-- How many levels of lists, pairs, sets and mappings a value nests. -/
def depth : Value → ℕ
  | list items | set items => itemsDepth items + 1
  | pair v w => max (depth v) (depth w) + 1
  | mapping members => membersDepth members + 1
  | null | bool _ | int _ | float _ | text _ | bytes _ | moment _ => 0
where
  itemsDepth : List Value → ℕ
    | [] => 0
    | v :: rest => max (depth v) (itemsDepth rest)
  membersDepth : List (Value × Value) → ℕ
    | [] => 0
    | (k, v) :: rest => max (depth k) (max (depth v) (membersDepth rest))

/-- The whole numbers in a value. -/
def integers : Value → List ℤ
  | int n => [n]
  | list items | set items => itemsIntegers items
  | pair v w => integers v ++ integers w
  | mapping members => membersIntegers members
  | null | bool _ | float _ | text _ | bytes _ | moment _ => []
where
  itemsIntegers : List Value → List ℤ
    | [] => []
    | v :: rest => integers v ++ itemsIntegers rest
  membersIntegers : List (Value × Value) → List ℤ
    | [] => []
    | (k, v) :: rest => integers k ++ (integers v ++ membersIntegers rest)

mutual

theorem checked : ∀ (v : Value) (levels : ℕ), Checked v.depth levels v.integers (v.requireWritable levels)
  | null, levels | bool _, levels | float _, levels | text _, levels | bytes _, levels
  | moment _, levels => .none levels
  | int n, levels => .int n levels
  | list items, levels + 1 | set items, levels + 1 => (itemsChecked items levels).nest
  | pair v w, levels + 1 => ((checked v levels).bind (checked w levels)).nest
  | mapping members, levels + 1 => (membersChecked members levels).nest
  | list _, 0 | set _, 0 | pair _ _, 0 | mapping _, 0 => .tooDeep (Nat.succ_pos _)

theorem itemsChecked : ∀ (items : List Value) (levels : ℕ), Checked (depth.itemsDepth items) levels
    (integers.itemsIntegers items) (requireWritable.itemsWritable items levels)
  | [], levels => .none levels
  | v :: rest, levels => (checked v levels).bind (itemsChecked rest levels)

theorem membersChecked : ∀ (members : List (Value × Value)) (levels : ℕ),
    Checked (depth.membersDepth members) levels (integers.membersIntegers members)
      (requireWritable.membersWritable members levels)
  | [], levels => .none levels
  | (k, v) :: rest, levels => (checked k levels).bind ((checked v levels).bind (membersChecked rest levels))

end

variable {levels : ℕ} {v : Value} {f : Fault}

/-- A value is written exactly if there are levels enough for it and all its whole numbers can be. -/
theorem exists_write_iff :
    (∃ s, v.write levels = .ok s) ↔ v.depth ≤ levels ∧ ∀ n ∈ v.integers, Writable n := by
  rw [← (checked v levels).eq_ok_iff]
  constructor
  · rintro ⟨s, h⟩
    obtain ⟨⟨⟩, hwritable, -⟩ := bind_eq_ok_iff.mp h
    exact hwritable
  · intro hwritable
    exact ⟨plain v, bind_eq_ok_iff.mpr ⟨(), hwritable, rfl⟩⟩

theorem cause_of_write (h : v.write levels = .error f) :
    f = .tooDeep ∧ levels < v.depth ∨ f = .tooManyDigits ∧ ∃ n ∈ v.integers, ¬ Writable n := by
  rcases bind_eq_error_iff.mp h with hrefused | ⟨⟨⟩, -, h⟩
  · exact (hrefused ▸ checked v levels).cause
  · cases h

end PolyPlot.Yaml.Value
