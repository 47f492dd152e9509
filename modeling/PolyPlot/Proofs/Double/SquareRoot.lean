import Mathlib.Data.Nat.Sqrt
import PolyPlot.Proofs.Double.Division

namespace PolyPlot.Double

open Float.Model (UnpackedFloat Format totalExponent)
open Float.Model.UnpackedFloat (Sign Accuracy ExtendedMantissa sqrtCore roundWithAccuracy)

variable {m n : ℕ} {e k : ℤ} {x y : Float}

/-- How the model describes what is left of a whole root. -/
def rootAccuracy (n : ℕ) : Accuracy :=
  let rest := n - n.sqrt * n.sqrt
  if rest = 0 then .exact else .inexact (if rest ≤ n.sqrt then .lt else .gt)

/-- A whole root and what is left of it stand for a rational of at most twice the root. -/
theorem exists_approximates_sqrt (hn : 0 < n) :
    ∃ r : ℚ, Approximates (.ofMantissaAndAccuracy n.sqrt (rootAccuracy n)) r ∧ r ^ 2 ≤ 4 * n := by
  have hone : (1 : ℚ) ≤ n.sqrt := by exact_mod_cast Nat.sqrt_pos.mpr hn
  have hroot : (n.sqrt : ℚ) * n.sqrt ≤ n := by exact_mod_cast Nat.sqrt_le n
  have hsquare {r : ℚ} (hr : 0 ≤ r) (hle : r ≤ n.sqrt + 1) : r ^ 2 ≤ 4 * n := by
    calc r ^ 2 ≤ (2 * (n.sqrt : ℚ)) ^ 2 := by
          gcongr
          linarith
      _ = 4 * ((n.sqrt : ℚ) * n.sqrt) := by ring
      _ ≤ 4 * (n : ℚ) := by gcongr
  unfold rootAccuracy
  dsimp only
  split
  · exact ⟨n.sqrt, rfl, hsquare (by linarith) (by linarith)⟩
  · split
    · have hbounds : (n.sqrt : ℚ) < n.sqrt + 1 / 4 ∧ (n.sqrt : ℚ) + 1 / 4 < n.sqrt + 1 / 2 :=
        ⟨by linarith, by linarith⟩
      exact ⟨n.sqrt + 1 / 4, hbounds, hsquare (by linarith) (by linarith)⟩
    · have hbounds : (n.sqrt : ℚ) + 1 / 2 < n.sqrt + 3 / 4 ∧ (n.sqrt : ℚ) + 3 / 4 < n.sqrt + 1 :=
        ⟨by linarith, by linarith⟩
      exact ⟨n.sqrt + 3 / 4, hbounds, hsquare (by linarith) (by linarith)⟩

theorem pow_le_sqrt_shiftLeft {b s : ℕ} (hm : 0 < m) (h : b * 2 ≤ m.log2 + s) :
    2 ^ b ≤ (m <<< s).sqrt := by
  rw [Nat.le_sqrt', ← pow_mul, Nat.shiftLeft_eq]
  calc 2 ^ (b * 2) ≤ 2 ^ (m.log2 + s) := Nat.pow_le_pow_right two_pos h
    _ = 2 ^ m.log2 * 2 ^ s := pow_add _ _ _
    _ ≤ m * 2 ^ s := Nat.mul_le_mul_right _ (Nat.log2_self_le hm.ne')

/-- The square root of a magnitude as the model computes it: a whole root and what is left of it, in a unit
that is fine enough. -/
theorem exists_sqrtCore (hm : 0 < m) :
    ∃ n k acc r j, sqrtCore Format.binary64 m e = (n, k, acc) ∧
      Approximates (.ofMantissaAndAccuracy n acc) r ∧ (r * 2 ^ k) ^ 2 ≤ 4 * (m * 2 ^ e) ∧
      k ≤ Format.binary64.targetExponent j ∧ (2 : ℚ) ^ (j - 1) ≤ r * 2 ^ k := by
  let j := (totalExponent m e + 1).ediv 2
  let k := min (e.ediv 2) (Format.binary64.targetExponent j)
  let shifted := m <<< (e - 2 * k).toNat
  have hcoarse : 2 * k ≤ e := by
    have hle : k ≤ e / 2 := min_le_left _ _
    omega
  have hshifted : shifted = m * 2 ^ (e - 2 * k).toNat := Nat.shiftLeft_eq _ _
  have hpos : 0 < shifted := by
    rw [hshifted]
    positivity
  have hvalue : (shifted : ℚ) * (2 ^ k) ^ 2 = m * 2 ^ e := by
    have hunits : (2 : ℚ) ^ (e - 2 * k).toNat * (2 ^ k) ^ 2 = 2 ^ e := by
      rw [← zpow_natCast, ← zpow_natCast (2 ^ k : ℚ), ← zpow_mul, ← zpow_add₀ two_ne_zero]
      congr 1
      push_cast
      omega
    rw [hshifted, ← hunits]
    push_cast
    ring
  have hroot : (2 : ℚ) ^ (j - 1 - k) ≤ shifted.sqrt := by
    have hj : j = ((m.log2 : ℤ) + 1 + e + 1) / 2 := rfl
    have hleast : k ≤ max (j - 53) (-1074) := min_le_right _ _
    have hbits : 2 ^ (j - 1 - k).toNat ≤ shifted.sqrt := pow_le_sqrt_shiftLeft hm (by omega)
    have hexponent : ((j - 1 - k).toNat : ℤ) = j - 1 - k := Int.toNat_of_nonneg (by omega)
    rw [← hexponent, zpow_natCast]
    exact_mod_cast hbits
  obtain ⟨r, hacc, hr⟩ := exists_approximates_sqrt hpos
  refine ⟨shifted.sqrt, k, rootAccuracy shifted, r, j, rfl, hacc, ?_, min_le_right _ _, ?_⟩
  · rw [mul_pow, ← hvalue, ← mul_assoc]
    gcongr
  · have hsplit : (2 : ℚ) ^ (j - 1) = 2 ^ (j - 1 - k) * 2 ^ k := by
      rw [← zpow_add₀ two_ne_zero, sub_add_cancel]
    have hle := hacc.bounds.1
    rw [mantissa_ofMantissaAndAccuracy] at hle
    rw [hsplit]
    gcongr
    exact hroot.trans hle

/-- The square root of a positive double is rounded once, from a rational of at most twice the root. -/
theorem exists_sqrt_eq_ofRat (hx : x.isFinite = true) (hpos : 0 < value x) :
    ∃ q : ℚ, 0 < q ∧ q ^ 2 ≤ 4 * value x ∧ x.sqrt = ofRat q := by
  obtain ⟨s, m, e, hm, hu, -, hvalue⟩ := exists_unpack_finite hx hpos.ne'
  have hs : s = .positive := by
    have hmagnitude : (0 : ℚ) < m * 2 ^ e := magnitude_pos hm
    cases s with
    | negative =>
      rw [hvalue] at hpos
      simp only [Sign.apply, Int.cast_neg, Int.cast_natCast, neg_mul] at hpos
      linarith
    | positive => rfl
  subst hs
  obtain ⟨n, k, acc, r, j, hcore, hacc, hr, hfine, hbits⟩ := exists_sqrtCore (e := e) hm
  have hmodel : x.sqrt = Float.ofModel (.pack (.sqrt Format.binary64 x.toModel.unpack)) := rfl
  have hroot : UnpackedFloat.sqrt Format.binary64 (.finite .positive m e hm) =
      roundWithAccuracy Format.binary64 .positive n k acc := by
    rw [UnpackedFloat.sqrt, hcore]
  have hq : 0 < r * 2 ^ k := lt_of_lt_of_le (by positivity) hbits
  obtain ⟨n', e', h⟩ := exists_rounds hq
  refine ⟨r * 2 ^ k, hq, ?_, ?_⟩
  · rw [hvalue]
    exact hr
  · rw [ofRat_eq_ofParts_of_pos hq h, hmodel, hu, hroot]
    exact ofModel_pack_of_approximates hacc hfine hbits h

end PolyPlot.Double
