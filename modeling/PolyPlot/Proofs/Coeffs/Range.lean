import PolyPlot.Coeffs.Analysis
import PolyPlot.Proofs.Coeffs.Trim
import PolyPlot.Proofs.Decimal.Places
import PolyPlot.Proofs.Double.Overflow
import PolyPlot.Proofs.Evaluation.Refusal

namespace PolyPlot.Coeffs

open Double Decimal

variable {ε a b c d : Float} {p : Coeffs Float} {n : ℕ}

/-- The canonical form drops no number that is not finite. -/
theorem isFinite_canonical_iff :
    (∀ a ∈ canonical ε p, a.isFinite = true) ↔ ∀ a ∈ p, a.isFinite = true := by
  constructor
  · intro h a ha
    rcases mem_canonical_or_lt (ε := ε) ha with hkept | hsmall
    · exact h a hkept
    · by_contra hlost
      exact not_abs_lt_of_not_isFinite hlost hsmall
  · intro h a ha
    cases p with
    | nil =>
      rw [List.mem_singleton.mp ha]
      exact isFinite_zero
    | cons c p => exact h a ((canonical_isPrefix (List.cons_ne_nil c p)).subset ha)

theorem isFinite_overPowers (hp : ∀ a ∈ p, a.isFinite = true) (hn : 0 < n) :
    ∀ a ∈ overPowers n p, a.isFinite = true := by
  induction p generalizing n with
  | nil => exact fun a ha => absurd ha List.not_mem_nil
  | cons c p ih =>
    rw [List.forall_mem_cons] at hp
    exact List.forall_mem_cons.mpr ⟨isFinite_div_ofInt hp.1 hn, ih hp.2 (Nat.succ_pos n)⟩

/-- An antiderivative does not overflow. -/
theorem isFinite_integral (hc : c.isFinite = true) (hp : ∀ a ∈ p, a.isFinite = true) :
    ∀ a ∈ integral ε c p, a.isFinite = true :=
  isFinite_canonical_iff.mpr (List.forall_mem_cons.mpr ⟨hc, isFinite_overPowers hp Nat.one_pos⟩)

theorem isFinite_timesPowers_iff :
    (∀ a ∈ timesPowers n p, a.isFinite = true) ↔
      ∀ i (hi : i < p.length), (p[i] * Scalar.ofInt ((n + i : ℕ) : ℤ)).isFinite = true := by
  induction p generalizing n with
  | nil => simp [timesPowers]
  | cons c p ih =>
    rw [timesPowers, List.forall_mem_cons, ih]
    constructor
    · rintro ⟨hfirst, hrest⟩ i hi
      cases i with
      | zero => exact hfirst
      | succ i =>
        have hnext := hrest i (Nat.lt_of_succ_lt_succ hi)
        rwa [Nat.add_right_comm, Nat.add_assoc] at hnext
    · intro h
      refine ⟨h 0 (Nat.succ_pos _), fun i hi => ?_⟩
      have hnext := h (i + 1) (Nat.succ_lt_succ hi)
      rwa [← Nat.add_assoc, Nat.add_right_comm] at hnext

/-- No coefficient overflows when it is multiplied by its power. -/
def SlopesInRange (p : Coeffs Float) : Prop :=
  ∀ n (hn : n + 1 < p.length), (p[n + 1] * Scalar.ofInt ((n + 1 : ℕ) : ℤ)).isFinite = true

theorem isFinite_derivative_iff :
    (∀ a ∈ derivative ε p, a.isFinite = true) ↔ SlopesInRange p := by
  cases p with
  | nil => simp [derivative, SlopesInRange, isFinite_zero]
  | cons c p =>
    cases p with
    | nil => simp [derivative, SlopesInRange, isFinite_zero]
    | cons d p =>
      change (∀ a ∈ canonical ε (timesPowers 1 (d :: p)), a.isFinite = true) ↔ _
      rw [isFinite_canonical_iff, isFinite_timesPowers_iff]
      constructor
      · intro h n hn
        have hnext := h n (Nat.lt_of_succ_lt_succ hn)
        rwa [Nat.add_comm 1 n] at hnext
      · intro h n hn
        rw [Nat.add_comm 1 n]
        exact h n (Nat.succ_lt_succ hn)

section Roots

/-- The discriminant of `c + b x + a x ^ 2`. -/
def discriminant (a b c : Float) : Float :=
  b * b - Scalar.ofInt 4 * a * c

/-- The zero of a linear polynomial is in range, and so is the discriminant of a quadratic one, unless it
is negative. -/
def RootsInRange (ε : Float) (p : Coeffs Float) : Prop :=
  match degree ε p, p with
  | 1, b :: a :: _ => (-b / a).isFinite = true
  | 2, c :: b :: a :: _ => discriminant a b c < 0 ∨ (discriminant a b c).isFinite = true
  | _, _ => True

theorem isZero_eq_false_of_lt (ha : tolerance < a.abs) : Scalar.isZero a = false := by
  by_contra hzero
  rw [Bool.not_eq_false] at hzero
  rw [abs_of_isZero hzero] at ha
  exact absurd ha (by decide)

theorem linearRoots_eq (ha : tolerance < a.abs) : linearRoots a b = .ok [-b / a] := by
  unfold linearRoots Scalar.div?
  rw [isZero_eq_false_of_lt ha]
  rfl

theorem value_two : (Scalar.ofInt 2 : Float).isFinite = true ∧ Double.value (Scalar.ofInt 2) = 2 :=
  value_ofNat (n := 2) (by decide)

theorem value_four : (Scalar.ofInt 4 : Float).isFinite = true ∧ Double.value (Scalar.ofInt 4) = 4 :=
  value_ofNat (n := 4) (by decide)

/-- Twice a number that is not small is not small, unless it overflows. -/
theorem le_abs_value_twice (hfinite : a.isFinite = true) (ha : tolerance < a.abs)
    (htwice : (Scalar.ofInt 2 * a).isFinite = true) :
    2 ^ (-33 : ℤ) ≤ |Double.value (Scalar.ofInt 2 * a)| := by
  obtain ⟨htwo, hvalue⟩ := value_two
  obtain ⟨hbound, hvalue'⟩ := value_two_zpow (k := -33) (by decide) (by decide)
  rw [lt_iff isFinite_tolerance (isFinite_abs hfinite), value_abs hfinite] at ha
  have hlarge : (2 : ℚ) ^ (-33 : ℤ) ≤ |2 * Double.value a| := by
    have htolerance : (2 : ℚ) ^ (-34 : ℤ) ≤ Double.value tolerance := by
      have hparts : Binary.ofFloat tolerance = .finite false 7737125245533627 (-86) := by decide
      rw [value_of_ofFloat hparts]
      norm_num
    rw [abs_mul, abs_two]
    calc (2 : ℚ) ^ (-33 : ℤ) = 2 * 2 ^ (-34 : ℤ) := by norm_num
      _ ≤ 2 * |Double.value a| := by linarith
  have hne : Double.value a ≠ 0 := abs_pos.mp (value_tolerance_pos.trans ha)
  have hproduct : Scalar.ofInt 2 * a = ofRat (2 * Double.value a) := by
    rw [mul_eq_ofRat htwo hfinite (by rw [hvalue]; exact two_ne_zero) hne, hvalue]
  have habs : |Double.value (ofRat (2 ^ (-33 : ℤ)))| = 2 ^ (-33 : ℤ) := by
    rw [hvalue', abs_of_pos (by positivity)]
  rw [hproduct] at htwice ⊢
  rw [← habs] at hlarge ⊢
  exact le_abs_value_ofRat (mul_ne_zero two_ne_zero hne) hbound hlarge htwice

theorem isZero_twice (hfinite : a.isFinite = true) (ha : tolerance < a.abs) :
    Scalar.isZero (Scalar.ofInt 2 * a) = false := by
  by_contra hzero
  rw [Bool.not_eq_false] at hzero
  have habs := abs_of_isZero hzero
  have htwice : (Scalar.ofInt 2 * a).isFinite = true := by
    apply isFinite_of_isFinite_abs
    rw [habs]
    exact isFinite_zero
  have hlarge := le_abs_value_twice hfinite ha htwice
  rw [← value_abs htwice, habs, value_zero] at hlarge
  exact absurd hlarge (by norm_num)

/-- In a finite discriminant neither the linear coefficient nor the denominator of the zeros is near the
end of the range. -/
theorem bounds_of_isFinite_discriminant (hD : (discriminant a b c).isFinite = true) :
    AtMost 513 b ∧ (Scalar.ofInt 2 * a).isFinite = true := by
  obtain ⟨hsquare, hproduct⟩ := isFinite_of_isFinite_sub hD
  obtain ⟨hb, -⟩ := isFinite_of_isFinite_mul hsquare
  obtain ⟨hfour, -⟩ := isFinite_of_isFinite_mul hproduct
  obtain ⟨-, ha⟩ := isFinite_of_isFinite_mul hfour
  constructor
  · refine ⟨hb, abs_le_of_sq_le_sq ?_ (by positivity)⟩
    calc Double.value b ^ 2 ≤ |Double.value b * Double.value b| := by
          rw [sq]
          exact le_abs_self _
      _ ≤ 2 ^ (1024 : ℤ) := (abs_mul_lt_of_isFinite hsquare).le
      _ ≤ 2 ^ (513 + 513 : ℤ) := zpow_le_zpow_right₀ one_le_two (by decide)
      _ = (2 ^ (513 : ℤ)) ^ 2 := by rw [zpow_add₀ two_ne_zero, sq]
  · by_cases hzero : Double.value a = 0
    · obtain ⟨negative, hsigned⟩ := exists_mul_signedZero value_two.1 ha (.inr hzero)
      rw [hsigned]
      exact isFinite_signedZero negative
    · rw [mul_eq_ofRat value_two.1 ha (by rw [value_two.2]; exact two_ne_zero) hzero, value_two.2]
      refine (AtMost.ofRat (k := 1023) (by decide) (by decide) ?_).isFinite
      have hlt := abs_mul_lt_of_isFinite hfour
      have hunit : (2 : ℚ) ^ (1024 : ℤ) = 2 * 2 ^ (1023 : ℤ) := by
        rw [← zpow_one_add₀ two_ne_zero]
        rfl
      rw [value_four.2, hunit, abs_mul, abs_of_pos (by norm_num)] at hlt
      rw [abs_mul, abs_two]
      linarith

/-- The zeros that are given are those of a formula with a root, in ascending order. -/
def zerosOf (ε first second : Float) : List Float :=
  if (first - second).abs < ε then [first]
  else if second < first then [second, first] else [first, second]

theorem first_mem_zerosOf (ε first second : Float) : first ∈ zerosOf ε first second := by
  unfold zerosOf
  split
  · exact List.mem_singleton.mpr rfl
  · split <;> simp

theorem eq_or_eq_of_mem_zerosOf {x first second : Float} (h : x ∈ zerosOf ε first second) :
    x = first ∨ x = second := by
  unfold zerosOf at h
  split at h
  · exact .inl (List.mem_singleton.mp h)
  · split at h
    · exact (List.mem_pair.mp h).symm
    · exact List.mem_pair.mp h

theorem quadraticRoots_eq (hzero : Scalar.isZero (Scalar.ofInt 2 * a) = false) :
    quadraticRoots ε a b c = .ok (if discriminant a b c < 0 then [] else
      zerosOf ε ((-b - (discriminant a b c).sqrt) / (Scalar.ofInt 2 * a))
        ((-b + (discriminant a b c).sqrt) / (Scalar.ofInt 2 * a))) := by
  have hdiv (x : Float) :
      Scalar.div? x (Scalar.ofInt 2 * a) = .ok (x / (Scalar.ofInt 2 * a)) := by
    unfold Scalar.div?
    rw [hzero]
    rfl
  unfold quadraticRoots
  simp only [hdiv, bind, Except.bind]
  by_cases hneg : discriminant a b c < 0
  · rw [if_pos hneg]
    exact if_pos hneg
  · rw [if_neg hneg]
    refine (if_neg hneg).trans ?_
    unfold zerosOf discriminant
    split
    · next hclose => exact congrArg Except.ok (if_pos hclose).symm
    · next hapart => exact congrArg Except.ok (if_neg hapart).symm

/-- The zeros of a quadratic polynomial with a leading coefficient that is not small are found, and they
are finite exactly if the discriminant is negative or finite. -/
theorem exists_quadraticRoots (hfinite : a.isFinite = true) (ha : tolerance < a.abs) :
    ∃ xs, quadraticRoots tolerance a b c = .ok xs ∧
      ((∀ x ∈ xs, x.isFinite = true) ↔
        discriminant a b c < 0 ∨ (discriminant a b c).isFinite = true) := by
  refine ⟨_, quadraticRoots_eq (isZero_twice hfinite ha), ?_⟩
  by_cases hneg : discriminant a b c < 0
  · rw [if_pos hneg]
    exact iff_of_true (fun x hx => absurd hx List.not_mem_nil) (.inl hneg)
  rw [if_neg hneg, or_iff_right hneg]
  constructor
  · intro h
    have hfirst := h _ (first_mem_zerosOf _ _ _)
    exact isFinite_of_isFinite_sqrt (isFinite_of_isFinite_sub (isFinite_of_isFinite_div hfirst).1).2
  · intro hD
    obtain ⟨hb, htwice⟩ := bounds_of_isFinite_discriminant hD
    rw [lt_iff hD isFinite_zero, value_zero, not_lt] at hneg
    have hroot := atMost_sqrt hD hneg
    have hlarge := le_abs_value_twice hfinite ha htwice
    have hquotient {x : Float} (hx : AtMost 514 x) : (x / (Scalar.ofInt 2 * a)).isFinite = true :=
      (hx.div (by decide) (by decide) htwice hlarge).isFinite
    intro x hx
    rcases eq_or_eq_of_mem_zerosOf hx with rfl | rfl
    · exact hquotient (hb.neg.sub (by decide) (by decide) hroot)
    · exact hquotient (hb.neg.add (by decide) (by decide) hroot)

/-- The zeros of a vector of finite numbers are found, and they are finite exactly if they are in range. -/
theorem exists_roots (hp : ∀ a ∈ p, a.isFinite = true) :
    ∃ xs, roots tolerance p = .ok xs ∧
      ((∀ x ∈ xs, x.isFinite = true) ↔ RootsInRange tolerance p) := by
  unfold roots RootsInRange
  split
  · next b a rest hdegree =>
    obtain ⟨_, ha⟩ := lt_of_degree hdegree
    rw [hdegree]
    exact ⟨_, linearRoots_eq ha, List.forall_mem_singleton⟩
  · next c b a rest hdegree =>
    obtain ⟨_, ha⟩ := lt_of_degree hdegree
    rw [hdegree]
    exact exists_quadraticRoots (hp a (by simp)) ha
  · exact ⟨[], rfl, by simp⟩

end Roots

end PolyPlot.Coeffs
