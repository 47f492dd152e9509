import PolyPlot.Proofs.Double.Whole

namespace PolyPlot.Double

open Float.Model (UnpackedFloat Format totalExponent)
open Float.Model.UnpackedFloat (Sign Accuracy ExtendedMantissa accuracyOfFraction divCore
  roundWithAccuracy)

variable {m m' n d : ℕ} {x y z : Float}

theorem approximates_fraction (hn : n < d) :
    Approximates (.ofMantissaAndAccuracy m (accuracyOfFraction n d)) (m + n / d) := by
  have hd : (0 : ℚ) < d := by exact_mod_cast Nat.zero_lt_of_lt hn
  unfold accuracyOfFraction
  split
  · next hzero =>
    rw [hzero, Nat.cast_zero, zero_div, add_zero]
    rfl
  · next hrest =>
    have hpos : (0 : ℚ) < n / d := div_pos (by exact_mod_cast Nat.pos_of_ne_zero hrest) hd
    have hone : (n : ℚ) / d < 1 := (div_lt_one hd).mpr (by exact_mod_cast hn)
    rcases lt_trichotomy (2 * n) d with hless | hhalf | hmore
    · have hbelow : (n : ℚ) / d < 1 / 2 := (div_lt_half_iff (Nat.zero_lt_of_lt hn)).mpr hless
      have hbounds : (m : ℚ) < m + n / d ∧ (m : ℚ) + n / d < m + 1 / 2 :=
        ⟨by linarith, by linarith⟩
      rw [Nat.compare_eq_lt.mpr hless]
      exact hbounds
    · rw [Nat.compare_eq_eq.mpr hhalf, (div_eq_half_iff (Nat.zero_lt_of_lt hn)).mpr hhalf]
      rfl
    · have habove : 1 / 2 < (n : ℚ) / d := (half_lt_div_iff (Nat.zero_lt_of_lt hn)).mpr hmore
      have hbounds : (m : ℚ) + 1 / 2 < m + n / d ∧ (m : ℚ) + n / d < m + 1 :=
        ⟨by linarith, by linarith⟩
      rw [Nat.compare_eq_gt.mpr hmore]
      exact hbounds

/-- The quotient of magnitudes as the model computes it: a mantissa and what is left of it, in a unit that
is fine enough. -/
theorem exists_divCore (e e' : ℤ) (hm : 0 < m) (hm' : 0 < m') :
    ∃ n k acc r j, divCore Format.binary64 m e m' e' = (n, k, acc) ∧
      Approximates (.ofMantissaAndAccuracy n acc) r ∧ r * 2 ^ k = m * 2 ^ e / (m' * 2 ^ e') ∧
      k ≤ Format.binary64.targetExponent j ∧ 2 ^ (j - 1) ≤ r * 2 ^ k := by
  have hunits : (m : ℚ) * 2 ^ e / (m' * 2 ^ e') = m / m' * 2 ^ (e - e') := by
    rw [zpow_sub₀ two_ne_zero, mul_div_mul_comm]
  let j := totalExponent m e - totalExponent m' e'
  let k := min (e - e') (Format.binary64.targetExponent j)
  let shifted := m <<< (e - e' - k).toNat
  have hvalue : ((shifted / m' : ℕ) + (shifted % m' : ℕ) / m' : ℚ) * 2 ^ k =
      m * 2 ^ e / (m' * 2 ^ e') := by
    have hcoarse : k ≤ e - e' := min_le_left _ _
    have hsplit : (2 : ℚ) ^ (e - e') = 2 ^ (e - e' - k).toNat * 2 ^ k := by
      rw [← zpow_natCast, ← zpow_add₀ two_ne_zero]
      congr 1
      omega
    have hshifted : (shifted : ℚ) = m * 2 ^ (e - e' - k).toNat := by
      simp only [shifted, Nat.shiftLeft_eq]
      push_cast
      rfl
    have hdivided : ((shifted / m' : ℕ) + (shifted % m' : ℕ) / m' : ℚ) = shifted / m' := by
      have hm'' : (m' : ℚ) ≠ 0 := by exact_mod_cast hm'.ne'
      have hparts : (shifted : ℚ) = m' * (shifted / m' : ℕ) + (shifted % m' : ℕ) := by
        exact_mod_cast (Nat.div_add_mod shifted m').symm
      rw [hparts]
      field_simp
    rw [hdivided, hshifted, hunits, hsplit]
    ring
  have hbits : (2 : ℚ) ^ (j - 1) ≤ m * 2 ^ e / (m' * 2 ^ e') := by
    have hexponent : j - 1 = (m.log2 : ℤ) - m'.log2 - 1 + (e - e') := by
      change (m.log2 : ℤ) + 1 + e - ((m'.log2 : ℤ) + 1 + e') - 1 = _
      ring
    rw [hunits, hexponent, zpow_add₀ two_ne_zero]
    gcongr
    exact (bounds_of_log2 hm hm').1.le
  exact ⟨shifted / m', k, accuracyOfFraction (shifted % m') m', _, j, rfl,
    approximates_fraction (Nat.mod_lt _ hm'), hvalue, min_le_right _ _, hvalue ▸ hbits⟩

theorem isNegative_div (s t : Sign) : isNegative (s / t) = xor (isNegative s) (isNegative t) := by
  cases s <;> cases t <;> rfl

/-- A quotient other than zero is rounded once. -/
theorem div_eq_ofRat (hx : x.isFinite = true) (hy : y.isFinite = true) (hx0 : value x ≠ 0)
    (hy0 : value y ≠ 0) : x / y = ofRat (value x / value y) := by
  obtain ⟨s, m, e, hm, hu, -, hvalue⟩ := exists_unpack_finite hx hx0
  obtain ⟨t, m', e', hm', hv, -, hvalue'⟩ := exists_unpack_finite hy hy0
  obtain ⟨n, k, acc, r, j, hcore, hacc, hr, hfine, hbits⟩ := exists_divCore e e' hm hm'
  have hmodel : x / y = Float.ofModel (.pack (.div Format.binary64 x.toModel.unpack y.toModel.unpack)) :=
    rfl
  have hquotient : UnpackedFloat.div Format.binary64 (.finite s m e hm) (.finite t m' e' hm') =
      roundWithAccuracy Format.binary64 (s / t) n k acc := by
    rw [UnpackedFloat.div, hcore]
  have hpos : 0 < r * 2 ^ k := lt_of_lt_of_le (by positivity) hbits
  have hsigned : value x / value y = withSign (isNegative (s / t)) (r * 2 ^ k) := by
    rw [hvalue, hvalue', hr, isNegative_div]
    cases s <;> cases t <;> simp [isNegative, Sign.apply, neg_div, div_neg]
  obtain ⟨n', e₀, h⟩ := exists_rounds hpos
  rw [hsigned, ofRat_withSign hpos h, hmodel, hu, hv, hquotient]
  exact ofModel_pack_of_approximates hacc hfine hbits h

/-- A zero divided by a number other than zero is a zero. -/
theorem exists_div_signedZero (hx : x.isFinite = true) (hy : y.isFinite = true) (hx0 : value x = 0)
    (hy0 : value y ≠ 0) : ∃ negative, x / y = ofMagnitudeBits negative 0 := by
  have hmodel : x / y = Float.ofModel (.pack (.div Format.binary64 x.toModel.unpack y.toModel.unpack)) :=
    rfl
  obtain ⟨s, hu⟩ := exists_unpack_zero hx hx0
  obtain ⟨t, m, e, hm, hv, -⟩ := exists_unpack_finite hy hy0
  refine ⟨isNegative (s / t), ?_⟩
  rw [hmodel, hu, hv, ← ofModel_pack_zero]
  rfl

/-- A quotient that is no greater than some finite double is finite. -/
theorem isFinite_div (hx : x.isFinite = true) (hy : y.isFinite = true) (hz : z.isFinite = true)
    (hy0 : value y ≠ 0) (hle : |value x / value y| ≤ |value z|) : (x / y).isFinite = true := by
  by_cases hx0 : value x = 0
  · obtain ⟨negative, hzero⟩ := exists_div_signedZero hx hy hx0 hy0
    rw [hzero]
    exact isFinite_signedZero negative
  · rw [div_eq_ofRat hx hy hx0 hy0]
    exact isFinite_ofRat_of_le hz hle

end PolyPlot.Double
