import PolyPlot.Proofs.Evaluation.Outcome

namespace PolyPlot

namespace Coeffs

variable {α : Type} [Scalar α] {ε a : α} {p : Coeffs α}

theorem leading?_of_getLast? (h : p.getLast? = some a) (ha : ε < Scalar.abs a) :
    leading? ε p = some (p.length - 1) := by
  induction p with
  | nil => cases h
  | cons c p ih =>
    cases p with
    | nil =>
      cases h
      exact if_pos ha
    | cons d p =>
      rw [List.getLast?_cons_cons] at h
      rw [leading?, ih h]
      rfl

theorem degree_lt_length (ε : α) (hp : p ≠ []) : degree ε p < p.length := by
  cases hdegree : degree ε p with
  | zero => exact List.length_pos_iff.mpr hp
  | succ n =>
    obtain ⟨hn, -⟩ := lt_of_degree hdegree
    exact hn

/-- The degree is the last index exactly if that is zero or the last entry exceeds the tolerance. -/
theorem degree_eq_length_sub_one_iff (hp : p ≠ []) :
    degree ε p = p.length - 1 ↔ (1 < p.length → ∀ a ∈ p.getLast?, ε < Scalar.abs a) := by
  constructor
  · intro hdegree hlength a ha
    obtain ⟨n, hn⟩ := Nat.exists_eq_add_one.mpr (Nat.sub_pos_of_lt hlength)
    obtain ⟨_, hlarge⟩ := lt_of_degree (hdegree.trans hn)
    rw [List.getLast?_eq_getElem?, hn] at ha
    obtain ⟨_, rfl⟩ := List.getElem?_eq_some_iff.mp ha
    exact hlarge
  · intro hlarge
    rcases Nat.lt_or_ge 1 p.length with hlong | hshort
    · have hlast := List.getLast?_eq_some_getLast hp
      rw [degree, leading?_of_getLast? hlast (hlarge hlong _ hlast)]
      rfl
    · have hdegree := degree_lt_length ε hp
      omega

end Coeffs

namespace Expression

open Coeffs

variable {o : Options} {levels : ℕ} {text : String} {p : Coeffs Float}

/-- The degree of the polynomial of an expression is the last index of its vector, unless the last of
several entries has the tolerance itself as its magnitude. Then it is lower. -/
theorem degree_compile_iff (hε : 0 < o.epsilon) (h : compile levels o text = .ok p) :
    degree o.epsilon p ≤ p.length - 1 ∧
      (degree o.epsilon p = p.length - 1 ↔
        (1 < p.length → ∀ a ∈ p.getLast?, a.abs ≠ o.epsilon)) := by
  have hreduced : Reduced o.epsilon p := reduced_of_compileWith hε h
  refine ⟨Nat.le_sub_one_of_lt (degree_lt_length _ hreduced.ne_nil), ?_⟩
  rw [degree_eq_length_sub_one_iff hreduced.ne_nil]
  refine forall_congr' fun hlength => forall₂_congr fun a ha => ?_
  have hfinite := Double.isFinite_abs (hreduced.isFinite a (List.mem_of_getLast? ha))
  exact Double.lt_iff_ne_of_le hε hfinite (hreduced.last hlength a ha)

/-- A coefficient as small as the tolerance is kept, but the degree is that of a constant. -/
theorem degree_compile_of_tolerance :
    0 < ({} : Options).epsilon ∧ compile 100 {} "0.0000000001x" = .ok [0, 1e-10] ∧
      degree ({} : Options).epsilon [0, 1e-10] < 1 := by
  have hε : 0 < ({} : Options).epsilon := by decide
  have hcompile : compile 100 {} "0.0000000001x" = .ok [0, 1e-10] := by decide +kernel
  obtain ⟨hle, hiff⟩ := degree_compile_iff hε hcompile
  refine ⟨hε, hcompile, lt_of_le_of_ne hle fun hdegree => ?_⟩
  exact hiff.mp hdegree (by decide) 1e-10 rfl (by decide)

end Expression

end PolyPlot
