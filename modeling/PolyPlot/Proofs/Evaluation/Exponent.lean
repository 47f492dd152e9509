import PolyPlot.Proofs.Double.NearestWhole
import PolyPlot.Proofs.Evaluation.Refusal
import PolyPlot.Proofs.Exact.System

namespace PolyPlot

namespace Tree

open Double (CarriesHalf value)

variable {v : Float}

/-- A finite constant exponent is read as the nearest whole number, a half going up, as it is read exactly,
except where adding a half carries it to the next one. -/
theorem exponent_singleton (hv : v.isFinite = true) :
    ∃ n k : ℤ, exponent [v] = .ok n ∧
      (∀ (V : Type) (S : Exact.System V), S.ExactArithmetic →
        S.exponent (S.number (value v)) = S.number k) ∧
      ((k : ℚ) - 1 / 2 ≤ value v ∧ value v < k + 1 / 2) ∧
      (¬ CarriesHalf (value v) ∧ n = k ∨ CarriesHalf (value v) ∧ n = k + 1) := by
  refine ⟨⌊value (v + Scalar.half)⌋, ⌊value v + 1 / 2⌋, ?_,
    fun V S harithmetic => Exact.System.exponent_number harithmetic _, ⟨?_, ?_⟩, Double.floor_value_add_half hv⟩
  · rw [exponent_cons, if_neg (not_not.mpr rfl), if_pos hv]
  · have hle := Int.floor_le (value v + 1 / 2)
    linarith
  · have hlt := Int.lt_floor_add_one (value v + 1 / 2)
    linarith

/-- The last double below a half is read as one, and exactly as zero. -/
theorem exponent_of_last_below_half :
    let S := Exact.system none
    exponent [(0.49999999999999994 : Float)] = .ok 1 ∧
      S.exponent (S.number (value 0.49999999999999994)) = S.number (0 : ℤ) := by
  intro S
  have hparts : Binary.ofFloat 0.49999999999999994 = .finite false (2 ^ 53 - 1) (-54) := by
    decide +kernel
  have hvalue : value 0.49999999999999994 = 1 / 2 - 2 ^ (-54 : ℤ) := by
    rw [Double.value_of_ofFloat hparts]
    norm_num
  obtain ⟨n, k, hn, hk, ⟨hlow, hhigh⟩, hcase⟩ :=
    exponent_singleton (v := 0.49999999999999994) (Double.isFinite_iff.mpr ⟨_, _, _, hparts⟩)
  have hcarries : CarriesHalf (value 0.49999999999999994) := .inl hvalue
  obtain rfl : k = 0 := by
    rw [hvalue] at hlow hhigh
    have hless : (k : ℚ) < 1 := by
      norm_num at hlow ⊢
      linarith
    have hmore : (-1 : ℚ) < k := by
      norm_num at hhigh ⊢
      linarith
    have hless' : k < 1 := by exact_mod_cast hless
    have hmore' : -1 < k := by exact_mod_cast hmore
    omega
  obtain rfl : n = 0 + 1 := by
    rcases hcase with ⟨hnot, -⟩ | ⟨-, hone⟩
    · exact absurd hcarries hnot
    · exact hone
  exact ⟨hn, hk Exact.Value S Exact.exactArithmetic_system⟩

end Tree

end PolyPlot
