import PolyPlot.Proofs.Double.Order
import PolyPlot.Proofs.Evaluation.Relation

namespace PolyPlot.Tree

open Expression (Failure Error)

variable {α : Type} [Scalar α] {limits : Limits α} {n : ℕ} {t a b e : Tree α} {c p q : Coeffs α}
  {levels : Option ℕ}

/-- The whole number that an exponent is read as, zero if it is not read. -/
def powerOf (limits : Limits α) (e : Tree α) : ℕ :=
  match evaluate limits e >>= exponent with
  | .ok n => n.toNat
  | .error _ => 0

/-- The degree of a tree by its form. Only exponents are evaluated. -/
def formalDegree (limits : Limits α) : Tree α → ℕ
  | literal _ => 0
  | x => 1
  | negate t => t.formalDegree limits
  | binary .add a b | binary .subtract a b => max (a.formalDegree limits) (b.formalDegree limits)
  | binary .multiply a b => a.formalDegree limits + b.formalDegree limits
  | binary .divide a _ => a.formalDegree limits
  | power b e => powerOf limits e * b.formalDegree limits

theorem powerOf_eq {m : ℤ} (he : Evaluates limits e q) (hm : exponent q = .ok m) :
    powerOf limits e = m.toNat := by
  have hread : evaluate limits e >>= exponent = .ok m :=
    bind_eq_ok_iff.mpr ⟨q, evaluate_eq_ok_iff.mpr he, hm⟩
  rw [powerOf, hread]

/-- An operation on vectors makes one as long as the degrees of the operands say. -/
theorem length_of_combine {op : Operator} {r : Coeffs α} (hr : combine limits op p q = .ok r)
    (hp : p.length = 1 + a.formalDegree limits) (hq : q.length = 1 + b.formalDegree limits) :
    r.length = 1 + (binary op a b).formalDegree limits := by
  cases op with
  | add =>
    cases hr
    rw [Coeffs.length_add, formalDegree]
    omega
  | subtract =>
    cases hr
    rw [Coeffs.length_subtract, formalDegree]
    omega
  | multiply =>
    cases hr
    have hp' : p ≠ [] := List.length_pos_iff.mp (by omega)
    have hq' : q ≠ [] := List.length_pos_iff.mp (by omega)
    rw [Coeffs.length_multiply hp' hq', formalDegree]
    omega
  | divide => rw [length_of_quotient hr, hp, formalDegree]

/-- The vector of a tree has one entry more than the tree's degree. -/
theorem Evaluates.length_eq (h : Evaluates limits t c) : c.length = 1 + t.formalDegree limits := by
  induction h with
  | literal v => rfl
  | x => rfl
  | negate ht ih => rw [Coeffs.length_negate, ih, formalDegree]
  | binary ha hb hr iha ihb => exact length_of_combine hr iha ihb
  | power hb he hn hr ihb ihe =>
    obtain ⟨-, rfl⟩ := raise_eq_ok_iff.mp hr
    rw [Coeffs.length_power hb.ne_nil, ihb, formalDegree, powerOf_eq he hn, Nat.add_sub_cancel_left]

theorem length_ne_one_iff (h : evaluateUpTo limits levels t = .ok c) :
    c.length ≠ 1 ↔ 1 ≤ t.formalDegree limits := by
  rw [(evaluateUpTo_eq_ok_iff.mp h).2.length_eq]
  omega

/-- A divisor is refused as not constant by its length alone. -/
theorem quotient_eq_nonConstant_iff :
    quotient limits p q = .error (.refused .nonConstantDivisor) ↔ q.length ≠ 1 := by
  unfold quotient
  split
  · next d =>
    refine iff_of_false ?_ (not_not.mpr rfl)
    split <;> simp
  · next hlength =>
    refine iff_of_true rfl fun hone => ?_
    obtain ⟨d, rfl⟩ := List.length_eq_one_iff.mp hone
    exact hlength d rfl

/-- An exponent is refused as not constant by its length alone. -/
theorem exponent_eq_nonConstant_iff :
    exponent q = .error (.refused .nonConstantExponent) ↔ q.length ≠ 1 := by
  unfold exponent
  split
  · next v =>
    refine iff_of_false ?_ (not_not.mpr rfl)
    split
    · cases Scalar.floor (v + Scalar.half) <;> simp [Except.mapError]
    · simp
  · next hlength =>
    refine iff_of_true rfl fun hone => ?_
    obtain ⟨v, rfl⟩ := List.length_eq_one_iff.mp hone
    exact hlength v rfl

theorem raise_ne_nonConstant {m : ℤ} :
    raise limits p m ≠ .error (.refused .nonConstantExponent) := by
  unfold raise
  split
  · by_cases htell : (Error.exponentOutOfRange m limits.maxExponent).Tellable
    · simp [Error.refuse_of_tellable htell]
    · simp [Error.refuse_of_not_tellable htell]
  · simp

section Operands

variable (ha : evaluateUpTo limits levels a = .ok p) (hb : evaluateUpTo limits levels b = .ok q)

include ha hb

/-- One level more than the operands have is enough to carry out an operation on them. -/
theorem evaluateUpTo_binary (op : Operator) :
    evaluateUpTo limits (levels.map (· + 1)) (.binary op a b) = combine limits op p q := by
  cases levels with
  | none => exact evaluate_binary (evaluate_eq_ok_iff.mp ha) (evaluate_eq_ok_iff.mp hb)
  | some n =>
    have hleft : evaluateWithin limits n a = .ok p := ha
    have hright : evaluateWithin limits n b = .ok q := hb
    change evaluateWithin limits (n + 1) (.binary op a b) = combine limits op p q
    rw [evaluateWithin, hleft, hright]
    rfl

theorem evaluateUpTo_power :
    evaluateUpTo limits (levels.map (· + 1)) (.power a b) = exponent q >>= raise limits p := by
  cases levels with
  | none => exact evaluate_power (evaluate_eq_ok_iff.mp ha) (evaluate_eq_ok_iff.mp hb)
  | some n =>
    have hbase : evaluateWithin limits n a = .ok p := ha
    have hexponent : evaluateWithin limits n b = .ok q := hb
    change evaluateWithin limits (n + 1) (.power a b) = exponent q >>= raise limits p
    rw [evaluateWithin, hbase, hexponent]
    rfl

theorem nonConstantDivisor_iff :
    evaluateUpTo limits (levels.map (· + 1)) (.binary .divide a b) =
      .error (.refused .nonConstantDivisor) ↔ 1 ≤ b.formalDegree limits := by
  rw [evaluateUpTo_binary ha hb, ← length_ne_one_iff hb]
  exact quotient_eq_nonConstant_iff

theorem nonConstantExponent_iff :
    evaluateUpTo limits (levels.map (· + 1)) (.power a b) =
      .error (.refused .nonConstantExponent) ↔ 1 ≤ b.formalDegree limits := by
  rw [evaluateUpTo_power ha hb, ← length_ne_one_iff hb, ← exponent_eq_nonConstant_iff,
    bind_eq_error_iff]
  refine ⟨fun h => h.resolve_right ?_, .inl⟩
  rintro ⟨m, -, h⟩
  exact raise_ne_nonConstant h

end Operands

/-- A tree's vector has one entry more than its degree, and so is never empty. A divisor or an exponent
that has a vector is refused as not constant exactly if its degree is not zero. -/
theorem length_eq_formalDegree (limits : Limits α) (levels : Option ℕ) :
    (∀ t c, evaluateUpTo limits levels t = .ok c → c ≠ [] ∧ c.length = 1 + t.formalDegree limits) ∧
      ∀ a b p q, evaluateUpTo limits levels a = .ok p → evaluateUpTo limits levels b = .ok q →
        (evaluateUpTo limits (levels.map (· + 1)) (.binary .divide a b) =
            .error (.refused .nonConstantDivisor) ↔ 1 ≤ b.formalDegree limits) ∧
          (evaluateUpTo limits (levels.map (· + 1)) (.power a b) =
            .error (.refused .nonConstantExponent) ↔ 1 ≤ b.formalDegree limits) := by
  refine ⟨fun t c h => ?_, fun a b p q ha hb => ?_⟩
  · have hevaluates := (evaluateUpTo_eq_ok_iff.mp h).2
    exact ⟨hevaluates.ne_nil, hevaluates.length_eq⟩
  · exact ⟨nonConstantDivisor_iff ha hb, nonConstantExponent_iff ha hb⟩

/-- A difference that cancels to a constant keeps its degree, and with it the degree of its powers. -/
theorem length_of_cancelled_difference :
    let limits : Limits Float := ⟨1e-10, 50⟩
    let one : Tree Float := .binary .add (.binary .subtract .x .x) (.literal 1)
    let cube : Tree Float := .power one (.literal 2.5)
    evaluateUpTo limits none cube = .ok [1, 0, 0, 0] ∧ cube.formalDegree limits = 3 ∧
      (∃ c, evaluateUpTo limits none cube = .ok c ∧ c ≠ [] ∧ c.length = 1 + cube.formalDegree limits) ∧
      evaluateUpTo limits none (.binary .divide cube one) = .error (.refused .nonConstantDivisor) ∧
      evaluateUpTo limits none (.power cube one) = .error (.refused .nonConstantExponent) := by
  intro limits one cube
  have hone : evaluateUpTo limits none one = .ok [1, 0] := by decide +kernel
  have hcube : evaluateUpTo limits none cube = .ok [1, 0, 0, 0] := by decide +kernel
  obtain ⟨hlength, hrefused⟩ := length_eq_formalDegree limits none
  obtain ⟨hdivisor, hexponent⟩ := hrefused cube one _ _ hcube hone
  have hdegree : 1 ≤ one.formalDegree limits := Nat.le_refl 1
  exact ⟨hcube, by decide +kernel, ⟨_, hcube, hlength cube _ hcube⟩, hdivisor.mpr hdegree,
    hexponent.mpr hdegree⟩

end PolyPlot.Tree
