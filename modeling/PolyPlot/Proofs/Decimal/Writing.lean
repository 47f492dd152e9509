import Mathlib.Algebra.Order.Group.Nat
import Mathlib.Data.Int.Notation
import PolyPlot.Decimal.Reading
import PolyPlot.Proofs.Answers

namespace PolyPlot.Decimal

variable {n : Int}

/-- A whole number has no more digits than can be written. -/
def Writable (n : Int) : Prop :=
  n.natAbs < Nat.pow 10 mostIntDigits

instance : DecidablePred Writable := fun n => Nat.decLt n.natAbs (Nat.pow 10 mostIntDigits)

theorem requireWritable_of_writable (h : Writable n) : requireWritable n = .ok () :=
  if_pos h

theorem requireWritable_of_not_writable (h : ¬ Writable n) : requireWritable n = .error .tooManyDigits :=
  if_neg h

theorem requireWritable_eq_ok_iff : requireWritable n = .ok () ↔ Writable n := by
  by_cases h : Writable n
  · exact iff_of_true (requireWritable_of_writable h) h
  · exact iff_of_false (by simp [requireWritable_of_not_writable h]) h

/-- All of several numbers can be written, or one is refused for its digits. -/
theorem forM_requireWritable (l : List Int) :
    (∀ n ∈ l, Writable n) ∧ l.forM requireWritable = .ok () ∨
      (¬ ∀ n ∈ l, Writable n) ∧ l.forM requireWritable = .error .tooManyDigits := by
  by_cases h : ∀ n ∈ l, Writable n
  · exact .inl ⟨h, forM_eq_ok_iff.mpr fun n hn => requireWritable_of_writable (h n hn)⟩
  refine .inr ⟨h, ?_⟩
  cases hall : l.forM requireWritable with
  | ok u => exact absurd (fun n hn => requireWritable_eq_ok_iff.mp (forM_eq_ok_iff.mp hall n hn)) h
  | error f =>
    obtain ⟨before, n, after, -, -, hn⟩ := forM_eq_error_iff.mp hall
    by_cases hw : Writable n
    · simp [requireWritable_of_writable hw] at hn
    · rw [requireWritable_of_not_writable hw] at hn
      exact hn.symm

/-- All that the check of a value comes to which nests so deep and holds these whole numbers. -/
inductive Checked (depth levels : ℕ) (integers : List ℤ) : Except Fault Unit → Prop
  | writable (hdepth : depth ≤ levels) (hintegers : ∀ n ∈ integers, Writable n) :
      Checked depth levels integers (.ok ())
  | tooDeep (hdepth : levels < depth) : Checked depth levels integers (.error .tooDeep)
  | tooManyDigits (hinteger : ∃ n ∈ integers, ¬ Writable n) :
      Checked depth levels integers (.error .tooManyDigits)

namespace Checked

variable {depth depth' levels : ℕ} {integers integers' : List ℤ} {outcome outcome' : Except Fault Unit}
  {f : Fault}

theorem int (n : ℤ) (levels : ℕ) : Checked 0 levels [n] (requireWritable n) := by
  by_cases h : Writable n
  · rw [requireWritable_of_writable h]
    exact .writable (Nat.zero_le levels) (by simpa using h)
  · rw [requireWritable_of_not_writable h]
    exact .tooManyDigits ⟨n, by simp, h⟩

theorem none (levels : ℕ) : Checked 0 levels [] (.ok ()) :=
  .writable (Nat.zero_le levels) (by simp)

/-- Two parts beside each other. -/
theorem bind (h : Checked depth levels integers outcome) (h' : Checked depth' levels integers' outcome') :
    Checked (max depth depth') levels (integers ++ integers') (outcome >>= fun _ => outcome') := by
  cases h with
  | writable hdepth hintegers =>
    cases h' with
    | writable hdepth' hintegers' =>
      exact .writable (max_le hdepth hdepth') (List.forall_mem_append.mpr ⟨hintegers, hintegers'⟩)
    | tooDeep hdepth' => exact .tooDeep (lt_max_of_lt_right hdepth')
    | tooManyDigits hinteger =>
      obtain ⟨n, hn, hlong⟩ := hinteger
      exact .tooManyDigits ⟨n, List.mem_append_right _ hn, hlong⟩
  | tooDeep hdepth => exact .tooDeep (lt_max_of_lt_left hdepth)
  | tooManyDigits hinteger =>
    obtain ⟨n, hn, hlong⟩ := hinteger
    exact .tooManyDigits ⟨n, List.mem_append_left _ hn, hlong⟩

/-- A value around its parts takes a level. -/
theorem nest (h : Checked depth levels integers outcome) :
    Checked (depth + 1) (levels + 1) integers outcome := by
  cases h with
  | writable hdepth hintegers => exact .writable (Nat.succ_le_succ hdepth) hintegers
  | tooDeep hdepth => exact .tooDeep (Nat.succ_lt_succ hdepth)
  | tooManyDigits hinteger => exact .tooManyDigits hinteger

theorem eq_ok_iff (h : Checked depth levels integers outcome) :
    outcome = .ok () ↔ depth ≤ levels ∧ ∀ n ∈ integers, Writable n := by
  cases h with
  | writable hdepth hintegers => exact iff_of_true rfl ⟨hdepth, hintegers⟩
  | tooDeep hdepth => exact iff_of_false nofun fun h => absurd h.1 (Nat.not_le_of_lt hdepth)
  | tooManyDigits hinteger =>
    obtain ⟨n, hn, hlong⟩ := hinteger
    exact iff_of_false nofun fun h => hlong (h.2 n hn)

theorem cause (h : Checked depth levels integers (.error f)) :
    f = .tooDeep ∧ levels < depth ∨ f = .tooManyDigits ∧ ∃ n ∈ integers, ¬ Writable n := by
  cases h with
  | tooDeep hdepth => exact .inl ⟨rfl, hdepth⟩
  | tooManyDigits hinteger => exact .inr ⟨rfl, hinteger⟩

end Checked

/-- The whole parts of doubles, and much more, can be written. -/
theorem writable_of_natAbs_le {e : Nat} (he : e ≤ 1024) (h : n.natAbs ≤ 2 ^ e) : Writable n :=
  Nat.lt_of_le_of_lt (Nat.le_trans h (Nat.pow_le_pow_right Nat.two_pos he)) (by decide +kernel)

end PolyPlot.Decimal
