import PolyPlot.Proofs.Double.Overflow
import PolyPlot.Proofs.Double.Whole
import PolyPlot.Proofs.Evaluation.Relation

namespace PolyPlot

namespace Expression

/-- The expression is refused because it stands for no polynomial. -/
def Failure.IsMeaningless : Failure → Prop
  | .refused e => e.kind = .meaningless
  | .fault _ => False

end Expression

namespace Tree

open Expression (Failure Error)

variable {limits : Limits Float} {ε d : Float} {p q rest : Coeffs Float} {n : ℕ} {t : Tree Float}
  {f : Failure}

/-- A number that passes a positive tolerance is not zero. -/
theorem isZero_eq_false (hε : 0 < ε) (hd : ¬ d.abs < ε) : Scalar.isZero d = false := by
  by_contra hzero
  rw [Bool.not_eq_false] at hzero
  rw [Double.abs_of_isZero hzero] at hd
  exact hd hε

theorem mapM_div?_eq_ok (hd : Scalar.isZero d = false) :
    p.mapM (Scalar.div? · d) = .ok (p.map (· / d)) := by
  have hdiv : (Scalar.div? · d) = fun a : Float => (pure (a / d) : Except Fault Float) := by
    funext a
    simp [Scalar.div?, hd, pure, Except.pure]
  rw [hdiv, List.mapM_pure]
  rfl

/-- The quotient of two vectors: the right one has a single entry, and that is not within the
tolerance of zero. -/
theorem quotient_cons (hε : 0 < limits.epsilon) :
    quotient limits p (d :: rest) =
      if rest ≠ [] then .error (.refused .nonConstantDivisor)
      else if d.abs < limits.epsilon then .error (.refused .zeroDivisor)
      else .ok (p.map (· / d)) := by
  cases rest with
  | nil =>
    rw [if_neg (not_not.mpr rfl)]
    by_cases hsmall : d.abs < limits.epsilon
    · have hdivide : p.divide limits.epsilon d = .ok none := if_pos hsmall
      simp only [quotient, hdivide, if_pos hsmall]
    · have hdivide : p.divide limits.epsilon d = .ok (some (p.map (· / d))) := by
        rw [Coeffs.divide, mapM_div?_eq_ok (isZero_eq_false hε hsmall)]
        exact if_neg hsmall
      simp only [quotient, hdivide, if_neg hsmall]
  | cons c rest =>
    rw [if_pos (List.cons_ne_nil c rest)]
    rfl

/-- The whole number that a vector is read as when it is an exponent: it has a single entry, which is
finite, and a half added to that is rounded down. -/
theorem exponent_cons :
    exponent (d :: rest) =
      if rest ≠ [] then .error (.refused .nonConstantExponent)
      else if d.isFinite then .ok ⌊Double.value (d + Scalar.half)⌋
      else .error (.refused .exponentNotFinite) := by
  cases rest with
  | nil =>
    rw [if_neg (not_not.mpr rfl)]
    by_cases hd : d.isFinite = true
    · have hfloor := Double.floor_eq (Double.isFinite_add_half hd)
      have hd' : Scalar.isFinite d = true := hd
      simp only [exponent, hfloor, if_pos hd, if_pos hd', Except.mapError]
    · rw [if_neg hd]
      exact if_neg hd
  | cons c rest =>
    rw [if_pos (List.cons_ne_nil c rest)]
    rfl

theorem isMeaningless_of_quotient (hε : 0 < limits.epsilon) (h : quotient limits p q = .error f) :
    f.IsMeaningless := by
  cases q with
  | nil =>
    cases h
    rfl
  | cons d rest =>
    rw [quotient_cons hε] at h
    split_ifs at h <;> cases h <;> rfl

theorem isMeaningless_of_exponent (h : exponent q = .error f) : f.IsMeaningless := by
  cases q with
  | nil =>
    cases h
    rfl
  | cons d rest =>
    rw [exponent_cons] at h
    split_ifs at h <;> cases h <;> rfl

theorem writable_floor {r : ℚ} {e : ℕ} (he : e ≤ 1024) (h : |r| < 2 ^ (e : ℤ)) :
    Decimal.Writable ⌊r⌋ := by
  rw [zpow_natCast] at h
  obtain ⟨hlow, hhigh⟩ := abs_lt.mp h
  have hleast : -(2 ^ e : ℤ) ≤ ⌊r⌋ := Int.le_floor.mpr (by push_cast; exact hlow.le)
  have hmost : ⌊r⌋ < (2 ^ e : ℤ) := Int.floor_lt.mpr (by exact_mod_cast hhigh)
  refine Decimal.writable_of_natAbs_le he ?_
  zify
  exact abs_le.mpr ⟨hleast, hmost.le⟩

/-- The whole part of a double has no more digits than can be written. -/
theorem writable_of_exponent {m : ℤ} (h : exponent q = .ok m) : Decimal.Writable m := by
  cases q with
  | nil => cases h
  | cons d rest =>
    rw [exponent_cons] at h
    split_ifs at h with _ hd
    cases h
    exact writable_floor le_rfl (Double.abs_value_lt (Double.isFinite_add_half hd))

theorem isMeaningless_of_combine {op : Operator} (hε : 0 < limits.epsilon)
    (h : combine limits op p q = .error f) : f.IsMeaningless := by
  cases op with
  | add => cases h
  | subtract => cases h
  | multiply => cases h
  | divide => exact isMeaningless_of_quotient hε h

/-- Why a tree of so many levels has no vector, with a limit on its levels. -/
inductive Unevaluated (limits : Limits Float) (n : ℕ) (t : Tree Float) : Failure → Prop
  | meaningless {e : Error} (hkind : e.kind = .meaningless) : Unevaluated limits n t (.refused e)
  | tooDeep (hdeep : n < t.height) : Unevaluated limits n t (.refused .nestedTooDeeply)
  | untold {m : ℤ} (hlimit : ¬ Decimal.Writable limits.maxExponent) (hstop : StopsAt limits m t) :
      Unevaluated limits n t (.fault .tooManyDigits)

theorem unevaluated_of_isMeaningless (h : f.IsMeaningless) : Unevaluated limits n t f := by
  cases f with
  | refused e => exact .meaningless h
  | fault => exact h.elim

/-- Whatever ends the evaluation of an operand ends that of the tree. -/
theorem Unevaluated.of_operand {s : Tree Float} (hs : s.height + 1 ≤ t.height)
    (hstop : ∀ m, StopsAt limits m s → StopsAt limits m t) (h : Unevaluated limits n s f) :
    Unevaluated limits (n + 1) t f := by
  cases h with
  | meaningless hkind => exact .meaningless hkind
  | tooDeep hdeep => exact .tooDeep (by omega)
  | untold hlimit h => exact .untold hlimit (hstop _ h)

theorem unevaluated_of_raise {b e : Tree Float} {m : ℤ} (hb : Evaluates limits b p)
    (he : Evaluates limits e q) (hm : exponent q = .ok m) (h : raise limits p m = .error f) :
    Unevaluated limits n (.power b e) f := by
  unfold raise at h
  split_ifs at h with hout
  by_cases htell : (Error.exponentOutOfRange m limits.maxExponent).Tellable
  · rw [Error.refuse_of_tellable htell] at h
    cases h
    exact .meaningless rfl
  · rw [Error.refuse_of_not_tellable htell] at h
    cases h
    have hlimit : ¬ Decimal.Writable limits.maxExponent := fun hlimit =>
      htell (Error.tellable_exponentOutOfRange.mpr ⟨writable_of_exponent hm, hlimit⟩)
    exact .untold hlimit (.here hb he hm hout)

theorem unevaluated_of_evaluateWithin (hε : 0 < limits.epsilon)
    (h : evaluateWithin limits n t = .error f) : Unevaluated limits n t f := by
  induction n generalizing t f with
  | zero =>
    cases h
    refine .tooDeep ?_
    cases t <;> exact Nat.succ_pos _
  | succ n ih =>
    cases t with
    | literal v => cases h
    | x => cases h
    | negate s =>
      rcases bind_eq_error_iff.mp h with h | ⟨_, -, h⟩
      · exact (ih h).of_operand le_rfl fun _ => .negate
      · cases h
    | binary op a b =>
      rcases bind_eq_error_iff.mp h with h | ⟨p, hp, h⟩
      · exact (ih h).of_operand (Nat.succ_le_succ (le_max_left _ _)) fun _ => .left
      obtain ⟨-, ha⟩ := evaluates_of_evaluateWithin hp
      rcases bind_eq_error_iff.mp h with h | ⟨_, -, h⟩
      · exact (ih h).of_operand (Nat.succ_le_succ (le_max_right _ _)) fun _ => .right ha
      · exact unevaluated_of_isMeaningless (isMeaningless_of_combine hε h)
    | power b e =>
      rcases bind_eq_error_iff.mp h with h | ⟨p, hp, h⟩
      · exact (ih h).of_operand (Nat.succ_le_succ (le_max_left _ _)) fun _ => .base
      obtain ⟨-, hb⟩ := evaluates_of_evaluateWithin hp
      rcases bind_eq_error_iff.mp h with h | ⟨q, hq, h⟩
      · exact (ih h).of_operand (Nat.succ_le_succ (le_max_right _ _)) fun _ => .exponent hb
      obtain ⟨-, he⟩ := evaluates_of_evaluateWithin hq
      rcases bind_eq_error_iff.mp h with h | ⟨m, hm, h⟩
      · exact unevaluated_of_isMeaningless (isMeaningless_of_exponent h)
      · exact unevaluated_of_raise hb he hm h

theorem unevaluated_of_evaluateUpTo {levels : Option ℕ} (hε : 0 < limits.epsilon)
    (h : evaluateUpTo limits levels t = .error f) : Unevaluated limits (levels.getD t.height) t f := by
  cases levels with
  | none => exact unevaluated_of_evaluateWithin hε h
  | some n => exact unevaluated_of_evaluateWithin hε h

end Tree

end PolyPlot
