import Mathlib.Tactic.SplitIfs
import PolyPlot.Expression.Reading
import PolyPlot.Proofs.Answers

namespace PolyPlot.Reading

open Expression (Error)

variable {α : Type} {value? : Numeral → Option α} {position start : Nat} {stack : List (Frame α)}
  {t : Tree α} {c : Char} {n : Numeral} {r : Reading α} {e : Error}

theorem kind_of_readOperand (h : readOperand position stack c = .error e) : e.kind = .malformed := by
  unfold readOperand at h
  split_ifs at h
  cases h
  rfl

theorem kind_of_readOperator (h : readOperator position stack t c = .error e) : e.kind = .malformed := by
  unfold readOperator at h
  split_ifs at h
  · split at h
    · cases h
    · cases h
      rfl
  · split at h
    · cases h
      rfl
    · cases h
      rfl

theorem kind_of_close (h : close position stack t = .error e) : e.kind = .malformed := by
  unfold close at h
  split at h
  · cases h
  · cases h
    rfl

/-- What is read behind a number is refused as malformed if the number is, or what follows it. -/
theorem kind_of_afterNumber {β : Type} {next : List (Frame α) → Tree α → Except Error β}
    (hnext : ∀ stack t e, next stack t = .error e → e.kind = .malformed)
    (h : afterNumber value? next stack start n = .error e) : e.kind = .malformed := by
  unfold afterNumber number at h
  rcases bind_eq_error_iff.mp h with h | ⟨_, -, h⟩
  · split at h
    · cases h
    · cases h
      rfl
  · exact hnext _ _ _ h

theorem kind_of_step (h : r.step value? c = .error e) : e.kind = .malformed := by
  obtain ⟨position, stack, expects⟩ := r
  cases expects with
  | operand => exact kind_of_readOperand h
  | operator t => exact kind_of_readOperator h
  | point start digits =>
    simp only [step] at h
    split_ifs at h
    cases h
    rfl
  | whole start digits | fraction start digits places =>
    simp only [step] at h
    split_ifs at h
    exact kind_of_afterNumber (fun _ _ _ => kind_of_readOperator) h

theorem kind_of_finish (h : r.finish value? = .error e) : e.kind = .malformed := by
  obtain ⟨position, stack, expects⟩ := r
  cases expects with
  | operand | point start digits =>
    cases h
    rfl
  | operator t => exact kind_of_close h
  | whole start digits | fraction start digits places =>
    simp only [finish] at h
    exact kind_of_afterNumber (fun _ _ _ => kind_of_close) h

theorem kind_of_run {limit : Option Nat} {s : List Char} (h : r.run value? limit s = .error e) :
    e.kind = .malformed := by
  induction s generalizing r with
  | nil => cases h
  | cons c s ih =>
    rw [run] at h
    split at h
    · next hstep =>
      cases h
      exact kind_of_step hstep
    · split_ifs at h
      · cases h
        rfl
      · exact ih h

/-- A text that is not read is malformed, and so is one that is nested too deeply. -/
theorem kind_of_tree {limit : Option Nat} {s : List Char} (h : tree value? limit s = .error e) :
    e.kind = .malformed := by
  rcases bind_eq_error_iff.mp h with h | ⟨_, -, h⟩
  · exact kind_of_run h
  · exact kind_of_finish h

section Limits

variable {limit limit' : Option Nat} {s : List Char} {r' : Reading α} {t : Tree α}

/-- A limit decides only whether the nesting is refused. -/
theorem run_limited (value? : Numeral → Option α) (r : Reading α) (limit : Option Nat) (s : List Char) :
    r.run value? limit s = r.run value? none s ∨ r.run value? limit s = .error .nestedTooDeeply := by
  induction s generalizing r with
  | nil => exact .inl rfl
  | cons c s ih =>
    rw [run, run]
    cases r.step value? c with
    | error e => exact .inl rfl
    | ok next =>
      simp only [Option.any_none, Bool.false_eq_true, if_false]
      split_ifs
      · exact .inr rfl
      · exact ih next

theorem tree_limited (value? : Numeral → Option α) (limit : Option Nat) (s : List Char) :
    tree value? limit s = tree value? none s ∨ tree value? limit s = .error .nestedTooDeeply := by
  unfold tree
  rcases run_limited value? (.start : Reading α) limit s with hrun | hrun
  · exact .inl (by rw [hrun])
  · exact .inr (by rw [hrun]; rfl)

theorem run_of_le (hle : ∀ n' ∈ limit', ∃ n ∈ limit, n ≤ n') (h : r.run value? limit s = .ok r') :
    r.run value? limit' s = .ok r' := by
  induction s generalizing r with
  | nil => exact h
  | cons c s ih =>
    rw [run] at h ⊢
    split at h
    · cases h
    · next next hstep =>
      split_ifs at h with hdeep
      have hdeep' : ¬ limit'.any (· < next.nesting) = true := by
        cases limit' with
        | none => nofun
        | some n' =>
          obtain ⟨n, rfl, hle⟩ := hle n' rfl
          simp only [Option.any_some, decide_eq_true_eq] at hdeep ⊢
          omega
      simp only [if_neg hdeep']
      exact ih h

theorem tree_under (h : tree value? limit s = .ok t) (limit' : Option Nat) :
    tree value? limit' s = .ok t ∨ tree value? limit' s = .error .nestedTooDeeply := by
  rcases tree_limited value? limit s with hnone | hdeep
  · exact h ▸ hnone ▸ tree_limited value? limit' s
  · rw [hdeep] at h
    cases h

theorem tree_of_le (hle : ∀ n' ∈ limit', ∃ n ∈ limit, n ≤ n') (h : tree value? limit s = .ok t) :
    tree value? limit' s = .ok t := by
  obtain ⟨r, hrun, hfinish⟩ := bind_eq_ok_iff.mp h
  exact bind_eq_ok_iff.mpr ⟨r, run_of_le hle hrun, hfinish⟩

end Limits

end PolyPlot.Reading
