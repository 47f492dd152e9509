import PolyPlot.Proofs.Coeffs.Trim
import PolyPlot.Proofs.Double.Order

namespace PolyPlot.Coeffs

section Form

variable {α : Type} [Scalar α] {ε : α} {p q : Coeffs α}

/-- What is dropped from the end of a vector is small. -/
theorem exists_eq_dropSmall_append (ε : α) (p : Coeffs α) :
    ∃ small, p = dropSmall ε p ++ small ∧ ∀ a ∈ small, Scalar.abs a < ε := by
  induction p with
  | nil => exact ⟨[], rfl, by simp⟩
  | cons c p ih =>
    obtain ⟨small, hp, hsmall⟩ := ih
    rw [dropSmall]
    split
    · next hnil =>
      rw [hnil, List.nil_append] at hp
      split
      · next hc => exact ⟨c :: small, by rw [hp, List.nil_append], List.forall_mem_cons.mpr ⟨hc, hsmall⟩⟩
      · exact ⟨small, by rw [hp, List.singleton_append], hsmall⟩
    · exact ⟨small, congrArg (c :: ·) hp, hsmall⟩

/-- Small entries at the end of a vector do not change what is kept of it. -/
theorem dropSmall_append (h : ∀ a ∈ q, Scalar.abs a < ε) (p : Coeffs α) :
    dropSmall ε (p ++ q) = dropSmall ε p := by
  induction p with
  | nil => exact dropSmall_eq_nil h
  | cons c p ih => rw [List.cons_append, dropSmall, dropSmall, ih]

theorem exists_eq_canonical_append (ε : α) (hp : p ≠ []) :
    ∃ small, p = canonical ε p ++ small ∧ ∀ a ∈ small, Scalar.abs a < ε := by
  cases p with
  | nil => exact absurd rfl hp
  | cons c p =>
    obtain ⟨small, hrest, hsmall⟩ := exists_eq_dropSmall_append ε p
    exact ⟨small, congrArg (c :: ·) hrest, hsmall⟩

theorem canonical_append (hp : p ≠ []) (h : ∀ a ∈ q, Scalar.abs a < ε) :
    canonical ε (p ++ q) = canonical ε p := by
  cases p with
  | nil => exact absurd rfl hp
  | cons c p => exact congrArg (c :: ·) (dropSmall_append h p)

/-- A canonical form is its own. -/
theorem canonical_canonical (ε : α) (p : Coeffs α) : canonical ε (canonical ε p) = canonical ε p := by
  cases p with
  | nil => rfl
  | cons c p =>
    obtain ⟨small, hp, hsmall⟩ := exists_eq_canonical_append ε (List.cons_ne_nil c p)
    calc canonical ε (canonical ε (c :: p))
        = canonical ε (canonical ε (c :: p) ++ small) :=
          (canonical_append (canonical_ne_nil ε _) hsmall).symm
      _ = canonical ε (c :: p) := by rw [← hp]

/-- A vector agrees with its first part, if what follows is within the tolerance of zero. -/
theorem agree_append (hp : ∀ a ∈ p, Scalar.abs (a - a) ≤ ε) (hq : ∀ b ∈ q, Scalar.abs (0 - b) ≤ ε) :
    agree ε p (p ++ q) = true := by
  induction p with
  | nil =>
    rw [List.nil_append, agree]
    exact List.all_eq_true.mpr fun b hb => decide_eq_true (hq b hb)
  | cons c p ih =>
    obtain ⟨hc, hrest⟩ := List.forall_mem_cons.mp hp
    rw [List.cons_append, agree, Bool.and_eq_true, decide_eq_true_eq]
    exact ⟨hc, ih hrest⟩

end Form

variable {ε a : Float} {p : Coeffs Float}

theorem abs_sub_self_le (hε : 0 < ε) (ha : a.isFinite = true) : (a - a).abs ≤ ε := by
  obtain ⟨hfinite, hvalue⟩ : (a - a).isFinite = true ∧ Double.value (a - a) = 0 := by
    rw [Double.sub_eq_add_opposite ha]
    apply Double.add_of_opposite ha (Double.isFinite_neg ha)
    rw [Double.value_neg ha, add_neg_cancel]
  rw [Double.abs_of_isZero ((Double.isZero_iff hfinite).mpr hvalue)]
  exact Double.le_of_lt hε

theorem abs_zero_sub_le (ha : a.isFinite = true) (hsmall : a.abs < ε) : (0 - a).abs ≤ ε := by
  obtain ⟨hfinite, hvalue⟩ := Double.sub_of_zero Double.isFinite_zero ha (.inl Double.value_zero)
  have hsame : (0 - a).abs = a.abs := by
    apply Double.abs_eq_of_value hfinite ha
    rw [hvalue, Double.value_zero, zero_sub, abs_neg]
  rw [hsame]
  exact Double.le_of_lt hsmall

theorem agree_canonical (hε : 0 < ε) (hp : ∀ a ∈ p, a.isFinite = true) :
    agree ε (canonical ε p) p = true := by
  by_cases hne : p = []
  · rw [hne]
    have hzero : (0 - 0 : Float).abs ≤ ε := abs_sub_self_le hε Double.isFinite_zero
    exact Bool.and_eq_true_iff.mpr ⟨decide_eq_true hzero, rfl⟩
  · obtain ⟨small, heq, hsmall⟩ := exists_eq_canonical_append ε hne
    have hagree : agree ε (canonical ε p) (canonical ε p ++ small) = true :=
      agree_append
        (fun a ha => abs_sub_self_le hε (hp a ((canonical_isPrefix hne).subset ha)))
        (fun b hb => abs_zero_sub_le (hp b (heq ▸ List.mem_append_right _ hb)) (hsmall b hb))
    rwa [← heq] at hagree

/-- The last entry of a canonical form has at least the magnitude of the tolerance, unless it is the only
one. -/
theorem le_abs_of_getLast?_canonical (hε : 0 < ε) (hp : ∀ a ∈ canonical ε p, a.isFinite = true)
    (hlength : 1 < (canonical ε p).length) (ha : (canonical ε p).getLast? = some a) : ε ≤ a.abs := by
  have hfinite := Double.isFinite_abs (hp a (List.mem_of_getLast? ha))
  exact (Double.lt_or_le hfinite hε).resolve_left (not_lt_of_getLast?_canonical hlength ha)

/-- The canonical form of a vector of finite doubles: what it keeps of the vector, that it agrees with it, that
it is its own canonical form, and that small entries behind the vector do not change it. -/
theorem canonical_of_isFinite (hε : 0 < ε) (hp : ∀ a ∈ p, a.isFinite = true) :
    (p = [] ∧ canonical ε p = [0] ∨ p ≠ [] ∧ canonical ε p ≠ [] ∧ canonical ε p <+: p) ∧
      (1 < (canonical ε p).length → ∀ a ∈ (canonical ε p).getLast?, ε ≤ a.abs) ∧
      agree ε (canonical ε p) p = true ∧
      canonical ε (canonical ε p) = canonical ε p ∧
      (p ≠ [] → ∀ q : Coeffs Float, (∀ b ∈ q, b.abs < ε) → canonical ε (p ++ q) = canonical ε p) := by
  refine ⟨?_, fun hlength a ha => ?_, agree_canonical hε hp, canonical_canonical ε p,
    fun hne q hq => canonical_append hne hq⟩
  · by_cases hne : p = []
    · exact .inl ⟨hne, by rw [hne, canonical]⟩
    · exact .inr ⟨hne, canonical_ne_nil ε p, canonical_isPrefix hne⟩
  · have hne : p ≠ [] := by
      rintro rfl
      exact absurd hlength (Nat.lt_irrefl 1)
    exact le_abs_of_getLast?_canonical hε (fun b hb => hp b ((canonical_isPrefix hne).subset hb)) hlength ha

/-- A small entry is kept where a greater one follows it, and dropped at the end. -/
theorem canonical_of_small_entries :
    let p : Coeffs Float := [1, 1e-11, 2, 1e-11, -0.0]
    (0 : Float) < 1e-10 ∧ (∀ a ∈ p, a.isFinite = true) ∧ canonical 1e-10 p = [1, 1e-11, 2] ∧
      agree 1e-10 (canonical 1e-10 p) p = true ∧
      canonical 1e-10 (p ++ [-1e-11, 0]) = canonical 1e-10 p := by
  intro p
  have hε : (0 : Float) < 1e-10 := by decide
  have hp : ∀ a ∈ p, a.isFinite = true := by decide
  have hsmall : ∀ b ∈ ([-1e-11, 0] : Coeffs Float), b.abs < 1e-10 := by decide
  obtain ⟨-, -, hagree, -, happend⟩ := canonical_of_isFinite hε hp
  exact ⟨hε, hp, by decide, hagree, happend (List.cons_ne_nil _ _) _ hsmall⟩

end PolyPlot.Coeffs
