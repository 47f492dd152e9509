import PolyPlot.Proofs.Evaluation.Pointwise
import PolyPlot.Proofs.Exact.Laws

open Polynomial

namespace PolyPlot.Exact.System

open Coeffs (toPolynomial)

variable {V : Type} {S : System V} {v w : V} {p q : Coeffs ℚ} {d : ℚ}

/-- A value is built as the polynomial of a vector, and it is a number where the vector has one entry.
Evaluation tells numbers by that length, and a system by their form. -/
structure Agrees (S : System V) (v : V) (p : Coeffs ℚ) : Prop where
  builds : S.Builds v (toPolynomial p)
  number : p.length = 1 → ∃ d, v = S.number d ∧ toPolynomial p = C d

theorem Agrees.singleton (h : S.Agrees v [d]) : v = S.number d := by
  obtain ⟨d', rfl, hd⟩ := h.number rfl
  have hsame : d = d' := by simpa using hd
  rw [hsame]

theorem Agrees.negate (harithmetic : S.ExactArithmetic) (hv : S.Agrees v p) :
    S.Agrees (S.negate v) p.negate := by
  refine ⟨?_, fun hlength => ?_⟩
  · rw [Coeffs.toPolynomial_negate]
    exact hv.builds.negate
  · rw [Coeffs.length_negate] at hlength
    obtain ⟨a, rfl, ha⟩ := hv.number hlength
    exact ⟨-a, harithmetic.negate a, by rw [Coeffs.toPolynomial_negate, ha, map_neg]⟩

theorem Agrees.add (harithmetic : S.ExactArithmetic) (hv : S.Agrees v p) (hw : S.Agrees w q) (hp : p ≠ [])
    (hq : q ≠ []) : S.Agrees (S.add v w) (p.add q) := by
  have hp' := List.length_pos_iff.mpr hp
  have hq' := List.length_pos_iff.mpr hq
  refine ⟨?_, fun hlength => ?_⟩
  · rw [Coeffs.toPolynomial_add]
    exact hv.builds.add hw.builds
  · rw [Coeffs.length_add] at hlength
    obtain ⟨a, rfl, ha⟩ := hv.number (by omega)
    obtain ⟨b, rfl, hb⟩ := hw.number (by omega)
    exact ⟨a + b, harithmetic.add a b, by rw [Coeffs.toPolynomial_add, ha, hb, map_add]⟩

theorem Agrees.subtract (harithmetic : S.ExactArithmetic) (hv : S.Agrees v p) (hw : S.Agrees w q)
    (hp : p ≠ []) (hq : q ≠ []) : S.Agrees (S.subtract v w) (p.subtract q) := by
  have hp' := List.length_pos_iff.mpr hp
  have hq' := List.length_pos_iff.mpr hq
  refine ⟨?_, fun hlength => ?_⟩
  · rw [Coeffs.toPolynomial_subtract]
    exact hv.builds.subtract hw.builds
  · rw [Coeffs.length_subtract] at hlength
    obtain ⟨a, rfl, ha⟩ := hv.number (by omega)
    obtain ⟨b, rfl, hb⟩ := hw.number (by omega)
    exact ⟨a - b, harithmetic.subtract a b, by rw [Coeffs.toPolynomial_subtract, ha, hb, map_sub]⟩

theorem Agrees.multiply (harithmetic : S.ExactArithmetic) (hv : S.Agrees v p) (hw : S.Agrees w q)
    (hp : p ≠ []) (hq : q ≠ []) : S.Agrees (S.multiply v w) (p.multiply q) := by
  have hp' := List.length_pos_iff.mpr hp
  have hq' := List.length_pos_iff.mpr hq
  refine ⟨?_, fun hlength => ?_⟩
  · rw [Coeffs.toPolynomial_multiply]
    exact hv.builds.multiply hw.builds
  · rw [Coeffs.length_multiply hp hq] at hlength
    obtain ⟨a, rfl, ha⟩ := hv.number (by omega)
    obtain ⟨b, rfl, hb⟩ := hw.number (by omega)
    exact ⟨a * b, harithmetic.multiply a b, by rw [Coeffs.toPolynomial_multiply, ha, hb, map_mul]⟩

theorem Agrees.divide (harithmetic : S.ExactArithmetic) (hv : S.Agrees v p) (hw : S.Agrees w [d])
    (hd : d ≠ 0) : S.Agrees (S.divide v w) (p.map (· / d)) := by
  rw [hw.singleton]
  refine ⟨?_, fun hlength => ?_⟩
  · rw [Coeffs.toPolynomial_map_div]
    exact hv.builds.divide hd
  · rw [List.length_map] at hlength
    obtain ⟨a, rfl, ha⟩ := hv.number hlength
    refine ⟨a / d, harithmetic.divide a d hd, ?_⟩
    rw [Coeffs.toPolynomial_map_div, ha, ← map_mul, div_eq_mul_inv]

/-- The power zero has one entry whatever the base is. -/
theorem Agrees.power (harithmetic : S.ExactArithmetic) (hzero : S.PowerZero) (hv : S.Agrees v p)
    (hp : p ≠ []) (n : ℕ) : S.Agrees (S.power v (S.number n)) (p.power n) := by
  refine ⟨?_, fun hlength => ?_⟩
  · rw [Coeffs.toPolynomial_power]
    exact hv.builds.power n
  · rw [Coeffs.length_power hp] at hlength
    have hproduct : n * (p.length - 1) = 0 := by omega
    rcases Nat.mul_eq_zero.mp hproduct with rfl | hshort
    · refine ⟨1, ?_, by rw [Coeffs.toPolynomial_power, pow_zero, map_one]⟩
      rw [Nat.cast_zero]
      exact hzero v _ hv.builds
    · have hp' := List.length_pos_iff.mpr hp
      obtain ⟨a, rfl, ha⟩ := hv.number (by omega)
      exact ⟨a ^ n, harithmetic.power a n, by rw [Coeffs.toPolynomial_power, ha, map_pow]⟩

end PolyPlot.Exact.System
