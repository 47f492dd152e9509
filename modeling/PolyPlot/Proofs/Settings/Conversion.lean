import PolyPlot.Proofs.Answers
import PolyPlot.Settings

namespace PolyPlot.Settings

open Yaml (Value)

/-- How a value is converted. -/
inductive Conversion where
  | double
  | whole
  | wholeOrNull

namespace Conversion

/-- How the conversion of a value ends. -/
def attempt : Conversion → Value → Except Failure Unit
  | double, v => discard (toDouble v)
  | whole, v => discard (toInt v)
  | wholeOrNull, v => discard (toIntOrNull v)

/-- Whether a number is beyond what it is converted to. -/
def Overflows : Conversion → Value → Prop
  | double, .int n => ¬ (Double.ofRat n).isFinite = true
  | whole, .float x | wholeOrNull, .float x => ∃ negative, Binary.ofFloat x = .infinite negative
  | _, _ => False

/-- All that a conversion can come to. -/
inductive Attempted (c : Conversion) (v : Value) : Except Failure Unit → Prop
  | converted (h : ¬ c.Overflows v) : Attempted c v (.ok ())
  | refused (h : ¬ c.Overflows v) : Attempted c v (.error (.refused .invalidValue))
  | overflow (h : c.Overflows v) : Attempted c v (.error (.fault .overflow))

variable {c : Conversion} {v : Value} {f : Fault} {e : Failure}

theorem attempted_orInvalid {β : Type} (h : ¬ c.Overflows v) (named? : Option β) :
    Attempted c v (discard (orInvalid named?)) := by
  cases named? with
  | none => exact .refused h
  | some b => exact .converted h

theorem attempted_double (v : Value) : Attempted double v (attempt double v) := by
  cases v with
  | bool b => exact .converted id
  | float x => exact .converted id
  | int n =>
    by_cases hfinite : (Double.ofRat n).isFinite = true
    · have hconverted : attempt double (.int n) = .ok () :=
        discard_eq_ok_iff.mpr ⟨_, if_pos hfinite⟩
      rw [hconverted]
      exact .converted (not_not_intro hfinite)
    · have hfails : attempt double (.int n) = .error (.fault .overflow) :=
        discard_eq_error_iff.mpr (if_neg hfinite)
      rw [hfails]
      exact .overflow hfinite
  | text s => exact attempted_orInvalid id _
  | bytes b => exact attempted_orInvalid id _
  | null | moment m | list items | pair v w | set items | mapping members => exact .refused id

theorem attempted_whole (v : Value) : Attempted whole v (attempt whole v) := by
  cases v with
  | bool b => exact .converted id
  | int n => exact .converted id
  | float x =>
    have hattempt : attempt whole (.float x) = discard (toInt (.float x)) := rfl
    rw [hattempt, toInt, Double.truncate]
    cases hx : Binary.ofFloat x with
    | finite negative m e => exact .converted (by simp [Overflows, hx])
    | infinite negative => exact .overflow ⟨negative, hx⟩
    | undefined => exact .refused (by simp [Overflows, hx])
  | text s => exact attempted_orInvalid id _
  | bytes b => exact attempted_orInvalid id _
  | null | moment m | list items | pair v w | set items | mapping members => exact .refused id

theorem attempted_wholeOrNull (v : Value) : Attempted wholeOrNull v (attempt wholeOrNull v) := by
  by_cases hnull : v = .null
  · subst hnull
    exact .converted id
  · have hattempt : attempt wholeOrNull v = attempt whole v := by
      rw [attempt, attempt, toIntOrNull, discard_map]
      exact hnull
    have hoverflows : wholeOrNull.Overflows v = whole.Overflows v := by
      cases v <;> rfl
    have hwhole := attempted_whole v
    rw [hattempt]
    generalize attempt whole v = outcome at hwhole ⊢
    cases hwhole with
    | converted h => exact .converted (hoverflows ▸ h)
    | refused h => exact .refused (hoverflows ▸ h)
    | overflow h => exact .overflow (hoverflows ▸ h)

theorem attempted (c : Conversion) (v : Value) : Attempted c v (c.attempt v) := by
  cases c with
  | double => exact attempted_double v
  | whole => exact attempted_whole v
  | wholeOrNull => exact attempted_wholeOrNull v

/-- Exactly a number beyond what it is converted to is converted with a fault. -/
theorem attempt_eq_fault_iff : c.attempt v = .error (.fault f) ↔ f = .overflow ∧ c.Overflows v := by
  have hattempted := attempted c v
  generalize c.attempt v = outcome at hattempted ⊢
  cases hattempted with
  | converted h => simp [h]
  | refused h => simp [h]
  | overflow h => simp [h, eq_comm]

/-- Whatever else is not converted is refused. -/
theorem refused_or_overflow (h : c.attempt v = .error e) :
    e = .refused .invalidValue ∨ e = .fault .overflow := by
  have hattempted := attempted c v
  rw [h] at hattempted
  cases hattempted with
  | refused => exact .inl rfl
  | overflow => exact .inr rfl

end Conversion

end PolyPlot.Settings
