import PolyPlot.Coeffs.Canonical
import Mathlib.Data.List.GetD

namespace PolyPlot.Coeffs

variable {α : Type} [Scalar α] {ε : α} {p : Coeffs α} {k : ℕ}

theorem dropSmall_eq_nil (h : ∀ a ∈ p, Scalar.abs a < ε) : dropSmall ε p = [] := by
  induction p with
  | nil => rfl
  | cons a p ih =>
    rw [List.forall_mem_cons] at h
    rw [dropSmall, ih h.2]
    exact if_pos h.1

/-- Behind the last entry that is not small everything is dropped. -/
theorem dropSmall_eq_take (hk : k < p.length) (hlarge : ¬ Scalar.abs p[k] < ε)
    (hsmall : ∀ a ∈ p.drop (k + 1), Scalar.abs a < ε) : dropSmall ε p = p.take (k + 1) := by
  induction p generalizing k with
  | nil => cases hk
  | cons a p ih =>
    cases k with
    | zero =>
      have hrest : dropSmall ε p = [] := dropSmall_eq_nil hsmall
      rw [dropSmall, hrest]
      exact if_neg hlarge
    | succ k =>
      have hrest := ih (Nat.lt_of_succ_lt_succ hk) hlarge hsmall
      have hne : dropSmall ε p ≠ [] := by
        rw [hrest, Ne, List.take_eq_nil_iff]
        rintro (h | rfl)
        · cases h
        · cases Nat.lt_of_succ_lt_succ hk
      rw [dropSmall]
      split
      · next hnil => exact absurd hnil hne
      · rw [hrest, List.take_succ_cons]

/-- The canonical form ends with the last entry that is not small, or with the first entry. -/
theorem canonical_eq_take (hk : k < p.length) (hlarge : k = 0 ∨ ¬ Scalar.abs p[k] < ε)
    (hsmall : ∀ a ∈ p.drop (k + 1), Scalar.abs a < ε) : canonical ε p = p.take (k + 1) := by
  cases p with
  | nil => cases hk
  | cons a p =>
    cases k with
    | zero =>
      have hrest : dropSmall ε p = [] := dropSmall_eq_nil hsmall
      rw [canonical, hrest]
      rfl
    | succ k =>
      rw [canonical, List.take_succ_cons,
        dropSmall_eq_take (Nat.lt_of_succ_lt_succ hk) (hlarge.resolve_left k.succ_ne_zero) hsmall]

theorem dropSmall_prefix (ε : α) (p : Coeffs α) : dropSmall ε p <+: p := by
  induction p with
  | nil => exact List.prefix_rfl
  | cons a p ih =>
    rw [dropSmall]
    split
    · split
      · exact List.nil_prefix
      · exact List.prefix_append [a] p
    · exact List.cons_prefix_cons.mpr ⟨rfl, ih⟩

/-- The canonical form is a first part of the vector. -/
theorem canonical_isPrefix (hp : p ≠ []) : canonical ε p <+: p := by
  cases p with
  | nil => exact absurd rfl hp
  | cons a p => exact List.cons_prefix_cons.mpr ⟨rfl, dropSmall_prefix ε p⟩

/-- An entry that is not small is kept, and so is all before it. -/
theorem lt_length_dropSmall (hk : k < p.length) (hlarge : ¬ Scalar.abs p[k] < ε) :
    k < (dropSmall ε p).length := by
  induction p generalizing k with
  | nil => cases hk
  | cons a p ih =>
    rw [dropSmall]
    cases k with
    | zero =>
      rw [List.getElem_cons_zero] at hlarge
      split
      · rw [if_neg hlarge]
        exact Nat.one_pos
      · exact Nat.succ_pos _
    | succ k =>
      have hrest := ih (Nat.lt_of_succ_lt_succ hk) hlarge
      split
      · next hnil =>
        rw [hnil] at hrest
        cases hrest
      · exact Nat.succ_lt_succ hrest

/-- Nothing is kept from a power on from which every entry is small. -/
theorem length_dropSmall_le (h : ∀ a ∈ p.drop k, Scalar.abs a < ε) : (dropSmall ε p).length ≤ k := by
  induction p generalizing k with
  | nil => exact Nat.zero_le k
  | cons a p ih =>
    cases k with
    | zero =>
      have hnil : dropSmall ε (a :: p) = [] := dropSmall_eq_nil h
      rw [hnil]
      exact Nat.le_refl _
    | succ k =>
      have hrest := ih h
      rw [dropSmall]
      split
      · split
        · exact Nat.zero_le _
        · exact Nat.succ_le_succ (Nat.zero_le k)
      · exact Nat.succ_le_succ hrest

theorem dropSmall_isPrefix_dropSmall {ε' : α} (h : ∀ a : α, Scalar.abs a < ε' → Scalar.abs a < ε)
    (p : Coeffs α) : dropSmall ε p <+: dropSmall ε' p := by
  induction p with
  | nil => exact List.prefix_rfl
  | cons c p ih =>
    -- What the greater tolerance keeps of the rest is a first part of what the smaller one keeps.
    cases hmore : dropSmall ε' p with
    | nil =>
      rw [hmore, List.prefix_nil] at ih
      simp only [dropSmall, ih, hmore]
      by_cases hsmall : Scalar.abs c < ε
      · simp only [if_pos hsmall, List.nil_prefix]
      · simp only [if_neg hsmall, if_neg (mt (h c) hsmall), List.prefix_rfl]
    | cons d more =>
      rw [hmore] at ih
      simp only [dropSmall, hmore]
      cases hkept : dropSmall ε p with
      | nil =>
        dsimp only
        split
        · exact List.nil_prefix
        · exact List.prefix_append [c] (d :: more)
      | cons e kept => exact List.cons_prefix_cons.mpr ⟨rfl, hkept ▸ ih⟩

/-- Under a smaller tolerance the canonical form keeps no less. -/
theorem canonical_isPrefix_canonical {ε' : α} (h : ∀ a : α, Scalar.abs a < ε' → Scalar.abs a < ε)
    (p : Coeffs α) : canonical ε p <+: canonical ε' p := by
  cases p with
  | nil => exact List.prefix_rfl
  | cons c p => exact List.cons_prefix_cons.mpr ⟨rfl, dropSmall_isPrefix_dropSmall h p⟩

theorem canonical_ne_nil (ε : α) (p : Coeffs α) : canonical ε p ≠ [] := by
  cases p with
  | nil => exact List.cons_ne_nil _ _
  | cons a p => exact List.cons_ne_nil _ _

theorem not_lt_of_getLast?_dropSmall {a : α} (h : (dropSmall ε p).getLast? = some a) :
    ¬ Scalar.abs a < ε := by
  induction p with
  | nil => cases h
  | cons c p ih =>
    rw [dropSmall] at h
    split at h
    · split at h
      · cases h
      · next hlarge =>
        cases h
        exact hlarge
    · next kept hkept =>
      rw [List.getLast?_cons_of_ne_nil hkept] at h
      exact ih h

/-- The last entry of a canonical form is not small, unless it is the only one. -/
theorem not_lt_of_getLast?_canonical {a : α} (hlength : 1 < (canonical ε p).length)
    (h : (canonical ε p).getLast? = some a) : ¬ Scalar.abs a < ε := by
  cases p with
  | nil => exact absurd hlength (Nat.lt_irrefl 1)
  | cons c p =>
    have hkept : dropSmall ε p ≠ [] := by
      intro hnil
      rw [canonical, hnil] at hlength
      exact Nat.lt_irrefl 1 hlength
    rw [canonical, List.getLast?_cons_of_ne_nil hkept] at h
    exact not_lt_of_getLast?_dropSmall h

theorem mem_dropSmall_or_lt {a : α} (h : a ∈ p) : a ∈ dropSmall ε p ∨ Scalar.abs a < ε := by
  induction p with
  | nil => cases h
  | cons c p ih =>
    rw [dropSmall]
    rcases List.mem_cons.mp h with rfl | hrest
    · split
      · split
        · next hsmall => exact .inr hsmall
        · exact .inl (List.mem_singleton.mpr rfl)
      · exact .inl List.mem_cons_self
    · rcases ih hrest with hkept | hsmall
      · split
        · next hnil =>
          rw [hnil] at hkept
          cases hkept
        · exact .inl (List.mem_cons_of_mem c hkept)
      · exact .inr hsmall

/-- An entry that is not small is kept. -/
theorem mem_canonical_or_lt {a : α} (h : a ∈ p) : a ∈ canonical ε p ∨ Scalar.abs a < ε := by
  cases p with
  | nil => cases h
  | cons c p =>
    rcases List.mem_cons.mp h with rfl | hrest
    · exact .inl List.mem_cons_self
    · exact (mem_dropSmall_or_lt hrest).imp_left (List.mem_cons_of_mem c)

/-- The entry of the highest power whose coefficient exceeds the tolerance. -/
theorem lt_of_leading? {n : ℕ} (h : leading? ε p = some n) :
    ∃ hn : n < p.length, ε < Scalar.abs p[n] := by
  induction p generalizing n with
  | nil => cases h
  | cons c p ih =>
    rw [leading?] at h
    split at h
    · next m hm =>
      cases h
      obtain ⟨hlength, hlarge⟩ := ih hm
      exact ⟨Nat.succ_lt_succ hlength, hlarge⟩
    · split at h
      · next hlarge =>
        cases h
        exact ⟨Nat.succ_pos _, hlarge⟩
      · cases h

/-- The coefficient of a degree other than zero exceeds the tolerance. -/
theorem lt_of_degree {n : ℕ} (h : degree ε p = n + 1) :
    ∃ hn : n + 1 < p.length, ε < Scalar.abs p[n + 1] := by
  apply lt_of_leading?
  unfold degree at h
  cases hleading : leading? ε p with
  | none =>
    rw [hleading] at h
    cases h
  | some m =>
    rw [hleading] at h
    exact congrArg some h

/-- An entry of the vector is kept in its canonical form, or zero takes its place. -/
theorem getD_canonical (ε : α) (p : Coeffs α) (i : ℕ) :
    (canonical ε p).getD i 0 = p.getD i 0 ∨ (canonical ε p).getD i 0 = 0 := by
  rcases Nat.lt_or_ge i (canonical ε p).length with hi | hi
  · cases p with
    | nil =>
      obtain rfl : i = 0 := Nat.lt_one_iff.mp hi
      exact .inl rfl
    | cons a p =>
      obtain ⟨rest, hrest⟩ := canonical_isPrefix (ε := ε) (List.cons_ne_nil a p)
      left
      rw [← List.getD_append _ rest 0 i hi, hrest]
  · exact .inr (List.getD_eq_default _ _ hi)

end PolyPlot.Coeffs
