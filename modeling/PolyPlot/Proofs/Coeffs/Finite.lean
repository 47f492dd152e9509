import PolyPlot.Proofs.Coeffs.Length
import PolyPlot.Proofs.Double.Overflow

namespace PolyPlot.Coeffs

open Double

variable {a d : Float} {p q sums product : Coeffs Float} {n : ℕ}

/-- Every entry of two vectors takes part in one of the vector that they are combined to. -/
theorem forall_of_entrywise {P : Float → Prop} {both : Float → Float → Float} {left right : Float → Float}
    (hboth : ∀ a b, P (both a b) → P a ∧ P b) (hleft : ∀ a, P (left a) → P a)
    (hright : ∀ b, P (right b) → P b) (h : ∀ c ∈ entrywise both left right p q, P c) :
    (∀ a ∈ p, P a) ∧ ∀ b ∈ q, P b := by
  induction p generalizing q with
  | nil =>
    have hq : entrywise both left right [] q = q.map right := by cases q <;> rfl
    rw [hq, List.forall_mem_map] at h
    exact ⟨fun a ha => absurd ha List.not_mem_nil, fun b hb => hright b (h b hb)⟩
  | cons a p ih =>
    cases q with
    | nil =>
      have hp : entrywise both left right (a :: p) [] = (a :: p).map left := rfl
      rw [hp, List.forall_mem_map] at h
      exact ⟨fun c hc => hleft c (h c hc), fun b hb => absurd hb List.not_mem_nil⟩
    | cons b q =>
      obtain ⟨hfirst, hrest⟩ := List.forall_mem_cons.mp h
      obtain ⟨ha, hb⟩ := hboth a b hfirst
      obtain ⟨hp, hq⟩ := ih hrest
      exact ⟨List.forall_mem_cons.mpr ⟨ha, hp⟩, List.forall_mem_cons.mpr ⟨hb, hq⟩⟩

theorem isFinite_of_add (h : ∀ c ∈ p.add q, c.isFinite = true) :
    (∀ a ∈ p, a.isFinite = true) ∧ ∀ b ∈ q, b.isFinite = true := by
  rw [add_eq_entrywise] at h
  refine forall_of_entrywise (fun a b hsum => ?_) (fun a ha => (isFinite_of_isFinite_add ha).2)
    (fun b hb => (isFinite_of_isFinite_add hb).2) h
  obtain ⟨ha, hb⟩ := isFinite_of_isFinite_add hsum
  exact ⟨(isFinite_of_isFinite_add ha).2, hb⟩

theorem isFinite_of_subtract (h : ∀ c ∈ p.subtract q, c.isFinite = true) :
    (∀ a ∈ p, a.isFinite = true) ∧ ∀ b ∈ q, b.isFinite = true := by
  rw [subtract_eq_entrywise] at h
  refine forall_of_entrywise (fun a b hdifference => ?_) (fun a ha => (isFinite_of_isFinite_add ha).2)
    (fun b hb => (isFinite_of_isFinite_sub hb).2) h
  obtain ⟨ha, hb⟩ := isFinite_of_isFinite_sub hdifference
  exact ⟨(isFinite_of_isFinite_add ha).2, hb⟩

theorem isFinite_of_negate (h : ∀ c ∈ p.negate, c.isFinite = true) : ∀ a ∈ p, a.isFinite = true := by
  rw [negate, List.forall_mem_map] at h
  exact fun a ha => isFinite_of_isFinite_neg (h a ha)

theorem isFinite_of_addMultiple (hlength : q.length ≤ sums.length)
    (h : ∀ c ∈ addMultiple a sums q, c.isFinite = true) :
    (∀ s ∈ sums, s.isFinite = true) ∧ ∀ b ∈ q, a.isFinite = true ∧ b.isFinite = true := by
  induction sums generalizing q with
  | nil =>
    obtain rfl : q = [] := List.length_eq_zero_iff.mp (Nat.le_zero.mp hlength)
    exact ⟨fun s hs => absurd hs List.not_mem_nil, fun b hb => absurd hb List.not_mem_nil⟩
  | cons s sums ih =>
    cases q with
    | nil => exact ⟨h, fun b hb => absurd hb List.not_mem_nil⟩
    | cons b q =>
      obtain ⟨hfirst, hrest⟩ := List.forall_mem_cons.mp h
      obtain ⟨hs, hproduct⟩ := isFinite_of_isFinite_add hfirst
      obtain ⟨hsums, hq⟩ := ih (Nat.le_of_succ_le_succ hlength) hrest
      exact ⟨List.forall_mem_cons.mpr ⟨hs, hsums⟩,
        List.forall_mem_cons.mpr ⟨isFinite_of_isFinite_mul hproduct, hq⟩⟩

/-- The sums have room for every product of two coefficients, so each coefficient is multiplied. -/
theorem isFinite_of_addProduct (hq : q ≠ []) (hlength : p.length + q.length ≤ sums.length + 1)
    (h : ∀ c ∈ addProduct sums p q, c.isFinite = true) :
    (∀ s ∈ sums, s.isFinite = true) ∧ ∀ a ∈ p, a.isFinite = true ∧ ∀ b ∈ q, b.isFinite = true := by
  induction p generalizing sums with
  | nil => exact ⟨h, fun a ha => absurd ha List.not_mem_nil⟩
  | cons a p ih =>
    have hq' := List.length_pos_iff.mpr hq
    rw [List.length_cons] at hlength
    have hroom := length_addMultiple a sums q
    unfold addProduct at h
    cases hsums : addMultiple a sums q with
    | nil =>
      rw [hsums, List.length_nil] at hroom
      omega
    | cons s rest =>
      rw [hsums] at h hroom
      rw [List.length_cons] at hroom
      obtain ⟨hs, hproduct⟩ := List.forall_mem_cons.mp h
      obtain ⟨hrest, hp⟩ := ih (by omega) hproduct
      have hmultiple : ∀ c ∈ addMultiple a sums q, c.isFinite = true := by
        rw [hsums]
        exact List.forall_mem_cons.mpr ⟨hs, hrest⟩
      obtain ⟨hfinite, hboth⟩ := isFinite_of_addMultiple (by omega) hmultiple
      obtain ⟨b, hb⟩ := List.exists_mem_of_ne_nil q hq
      exact ⟨hfinite, List.forall_mem_cons.mpr ⟨⟨(hboth b hb).1, fun b hb => (hboth b hb).2⟩, hp⟩⟩

theorem isFinite_of_multiply (hp : p ≠ []) (hq : q ≠ [])
    (h : ∀ c ∈ p.multiply q, c.isFinite = true) :
    (∀ a ∈ p, a.isFinite = true) ∧ ∀ b ∈ q, b.isFinite = true := by
  have hlengths : p.length + q.length ≤ (p.length + q.length - 1) + 1 := by omega
  have hproduct : p.multiply q = addProduct (List.replicate (p.length + q.length - 1) 0) p q := by
    simp [multiply, hp, hq]
  rw [hproduct] at h
  obtain ⟨-, hboth⟩ := isFinite_of_addProduct hq (by rwa [List.length_replicate]) h
  obtain ⟨a, ha⟩ := List.exists_mem_of_ne_nil p hp
  exact ⟨fun a ha => (hboth a ha).1, (hboth a ha).2⟩

theorem isFinite_of_multiplyMore (hproduct : product ≠ []) (hp : p ≠ [])
    (h : ∀ c ∈ multiplyMore product p n, c.isFinite = true) : ∀ a ∈ product, a.isFinite = true := by
  induction n generalizing product with
  | zero => exact h
  | succ n ih => exact (isFinite_of_multiply hproduct hp (ih (multiply_ne_nil hproduct hp) h)).1

/-- A power other than zero has its base as a factor. -/
theorem isFinite_of_power (hp : p ≠ []) (hn : n ≠ 0) (h : ∀ c ∈ p.power n, c.isFinite = true) :
    ∀ a ∈ p, a.isFinite = true := by
  obtain ⟨n, rfl⟩ := Nat.exists_eq_succ_of_ne_zero hn
  exact isFinite_of_multiplyMore hp hp h

theorem isFinite_of_map_div (hp : p ≠ []) (h : ∀ c ∈ p.map (· / d), c.isFinite = true) :
    (∀ a ∈ p, a.isFinite = true) ∧
      (d.isFinite = true ∨ ∃ negative, Binary.ofFloat d = .infinite negative) := by
  rw [List.forall_mem_map] at h
  obtain ⟨a, ha⟩ := List.exists_mem_of_ne_nil p hp
  exact ⟨fun a ha => (isFinite_of_isFinite_div (h a ha)).1, (isFinite_of_isFinite_div (h a ha)).2⟩

end PolyPlot.Coeffs
