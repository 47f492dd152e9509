import PolyPlot.Proofs.Double.Value

namespace PolyPlot.Double

open Float.Model (UnpackedFloat Format totalExponent)
open Float.Model.UnpackedFloat (Sign Accuracy ExtendedMantissa shiftToExponent shiftToTargetExponent
  roundWithAccuracy decreaseExponent)

variable {negative : Bool} {s : Sign} {m n : ℕ} {e k : ℤ} {x y : Float} {q r : ℚ}

/-- A whole number with round and sticky bits stands for a rational: they tell whether a half is
reached, and whether more is left. -/
def Approximates (em : ExtendedMantissa) (r : ℚ) : Prop :=
  match em.roundBit, em.stickyBit with
  | false, false => r = em.mantissa
  | false, true => em.mantissa < r ∧ r < em.mantissa + 1 / 2
  | true, false => r = em.mantissa + 1 / 2
  | true, true => (em.mantissa : ℚ) + 1 / 2 < r ∧ r < em.mantissa + 1

theorem Approximates.shiftRightOne {em : ExtendedMantissa} (h : Approximates em r) :
    Approximates em.shiftRightOne (r / 2) := by
  obtain ⟨m, roundBit, stickyBit⟩ := em
  have hm : (m : ℚ) = 2 * (m / 2 : ℕ) + (m % 2 : ℕ) := by exact_mod_cast (Nat.div_add_mod m 2).symm
  rcases Nat.mod_two_eq_zero_or_one m with heven | hodd
  · have hbit : (m % 2 != 0) = false := by rw [heven]; rfl
    rw [heven, Nat.cast_zero, add_zero] at hm
    cases roundBit <;> cases stickyBit <;>
      simp only [Approximates, ExtendedMantissa.shiftRightOne, hbit, Bool.or_false, Bool.or_true] at h ⊢
    · linarith
    · exact ⟨by linarith, by linarith⟩
    · exact ⟨by linarith, by linarith⟩
    · exact ⟨by linarith, by linarith⟩
  · have hbit : (m % 2 != 0) = true := by rw [hodd]; rfl
    rw [hodd, Nat.cast_one] at hm
    cases roundBit <;> cases stickyBit <;>
      simp only [Approximates, ExtendedMantissa.shiftRightOne, hbit, Bool.or_false, Bool.or_true] at h ⊢
    · linarith
    · exact ⟨by linarith, by linarith⟩
    · exact ⟨by linarith, by linarith⟩
    · exact ⟨by linarith, by linarith⟩

theorem Approximates.shiftRight {em : ExtendedMantissa} (h : Approximates em r) (n : ℕ) :
    Approximates (em >>> n) (r / 2 ^ n) := by
  change Approximates (n.repeat ExtendedMantissa.shiftRightOne em) _
  induction n with
  | zero => simpa [Nat.repeat] using h
  | succ n ih =>
    rw [Nat.repeat, pow_succ, ← div_div]
    exact ih.shiftRightOne

theorem Approximates.nearestEven {em : ExtendedMantissa} (h : Approximates em r) :
    NearestEven r em.roundedMantissa := by
  obtain ⟨m, roundBit, stickyBit⟩ := em
  cases roundBit with
  | false =>
    cases stickyBit with
    | false =>
      obtain rfl : r = m := h
      exact .natCast m
    | true =>
      obtain ⟨hlow, hhigh⟩ : m < r ∧ r < m + 1 / 2 := h
      exact .down hlow.le hhigh
  | true =>
    cases stickyBit with
    | false =>
      obtain rfl : r = m + 1 / 2 := h
      exact .half m
    | true =>
      obtain ⟨hlow, hhigh⟩ : (m : ℚ) + 1 / 2 < r ∧ r < m + 1 := h
      exact .up hlow hhigh

@[simp] theorem mantissa_ofMantissaAndAccuracy (m : ℕ) (acc : Accuracy) :
    (ExtendedMantissa.ofMantissaAndAccuracy m acc).mantissa = m := by
  unfold ExtendedMantissa.ofMantissaAndAccuracy
  split <;> rfl

theorem Approximates.bounds {em : ExtendedMantissa} (h : Approximates em r) :
    (em.mantissa : ℚ) ≤ r ∧ r < em.mantissa + 1 := by
  obtain ⟨m, roundBit, stickyBit⟩ := em
  cases roundBit <;> cases stickyBit <;> simp only [Approximates] at h ⊢
  · exact ⟨h.ge, by linarith⟩
  · exact ⟨by linarith, by linarith⟩
  · exact ⟨by linarith, by linarith⟩
  · exact ⟨by linarith, by linarith⟩

theorem targetExponent_eq (k : ℤ) :
    Format.binary64.targetExponent k = max (k - 53) (-1074) :=
  rfl

/-- What is below the least unit is rounded to whole multiples of it. -/
theorem exponent_eq_least (hk : k ≤ -1074) (hhigh : r < 1) (h : Rounds (r * 2 ^ k) n e) : e = -1074 := by
  refine h.lower.resolve_left (not_le.mpr ?_)
  calc r * 2 ^ k < 1 * 2 ^ k := by gcongr
    _ ≤ 2 ^ 52 * 2 ^ e := by
      gcongr
      · norm_num
      · exact one_le_two
      · exact hk.trans h.least

/-- The unit that is aimed at is the one to which the value is rounded. A mantissa of zero does not show
it, unless its own unit is too small. -/
theorem targetExponent_of_rounds (hm : m = 0 → k ≤ -1074) (hlow : (m : ℚ) ≤ r) (hhigh : r < m + 1)
    (h : Rounds (r * 2 ^ k) n e) : Format.binary64.targetExponent (totalExponent m k) = e := by
  rcases Nat.eq_zero_or_pos m with rfl | hpos
  · have hk := hm rfl
    have hleast : e = -1074 := exponent_eq_least hk (by simpa using hhigh) h
    have hlog : Nat.log2 0 = 0 := by decide
    rw [targetExponent_eq, totalExponent, hlog, hleast]
    omega
  have hmlow : (2 : ℚ) ^ m.log2 ≤ m := by exact_mod_cast Nat.log2_self_le hpos.ne'
  have hmhigh : (m : ℚ) + 1 ≤ 2 ^ (m.log2 + 1) := by exact_mod_cast Nat.succ_le_of_lt Nat.lt_log2_self
  have hlower : (2 : ℚ) ^ ((m.log2 : ℤ) + k) ≤ r * 2 ^ k := by
    rw [zpow_add₀ two_ne_zero, zpow_natCast]
    gcongr
    exact hmlow.trans hlow
  have hupper : r * 2 ^ k < (2 : ℚ) ^ ((m.log2 : ℤ) + 1 + k) := by
    rw [zpow_add₀ two_ne_zero]
    gcongr
    have hcast : (2 : ℚ) ^ ((m.log2 : ℤ) + 1) = 2 ^ (m.log2 + 1) := by
      rw [← zpow_natCast]
      norm_num
    rw [hcast]
    exact hhigh.trans_le hmhigh
  have hunit : (2 : ℚ) ^ 52 * 2 ^ e = 2 ^ (52 + e) := by
    rw [zpow_add₀ two_ne_zero]
    norm_num
  have hless := h.lt_exponent hlower
  rw [targetExponent_eq, totalExponent]
  have hleast := h.least
  rcases h.lower with hfull | hfew
  · have hmore := (hunit ▸ hfull).trans_lt hupper
    rw [zpow_lt_zpow_iff_right₀ one_lt_two] at hmore
    omega
  · omega

theorem nearestEven_shiftToExponent {acc : Accuracy}
    (h : Approximates (.ofMantissaAndAccuracy m acc) r) (hk : k ≤ e) :
    NearestEven (r * 2 ^ k / 2 ^ e) (shiftToExponent m k acc e).1.roundedMantissa := by
  have hshift : r * 2 ^ k / 2 ^ e = r / 2 ^ (e - k).toNat := by
    have hsplit : (2 : ℚ) ^ e = 2 ^ (e - k).toNat * 2 ^ k := by
      rw [← zpow_natCast, ← zpow_add₀ two_ne_zero]
      congr 1
      omega
    have hpos : (0 : ℚ) < 2 ^ k := by positivity
    rw [hsplit, mul_div_mul_right _ _ hpos.ne']
  rw [hshift]
  exact (h.shiftRight _).nearestEven

/-- The last shift: a mantissa that was rounded up to the next power of two is halved. -/
theorem shiftToTargetExponent_exact (hm : m ≤ 2 * leadingBit) (he : -1074 ≤ e) :
    ((shiftToTargetExponent Format.binary64 m e .exact).1.mantissa,
      (shiftToTargetExponent Format.binary64 m e .exact).2) =
      if m = 2 * leadingBit then (leadingBit, e + 1) else (m, e) := by
  unfold shiftToTargetExponent shiftToExponent
  dsimp only
  rw [targetExponent_eq, totalExponent]
  split
  · next hcarry =>
    have hlog : (2 * leadingBit).log2 = 53 := by decide
    have hamount : (max (((53 : ℕ) : ℤ) + 1 + e - 53) (-1074) - e).toNat = 1 := by omega
    rw [hcarry, hlog, hamount]
    rfl
  · next hcarry =>
    have hlog : m.log2 < 53 := by
      by_cases hzero : m = 0
      · rw [hzero]
        decide
      · rw [Nat.log2_lt hzero]
        exact lt_of_le_of_ne hm hcarry
    have hamount : (max ((m.log2 : ℤ) + 1 + e - 53) (-1074) - e).toNat = 0 := by omega
    rw [hamount]
    simp only [Nat.cast_zero, add_zero]
    rfl

/-- Rounding in the model of doubles makes the double of the rounded parts. -/
theorem ofModel_pack_roundWithAccuracy {acc : Accuracy} (hm : m = 0 → k ≤ -1074)
    (hacc : Approximates (.ofMantissaAndAccuracy m acc) r) (h : Rounds (r * 2 ^ k) n e) (hk : k ≤ e) :
    Float.ofModel (.pack (roundWithAccuracy Format.binary64 s m k acc)) = ofParts (isNegative s) n e := by
  obtain ⟨hlow, hhigh⟩ := hacc.bounds
  rw [mantissa_ofMantissaAndAccuracy] at hlow hhigh
  have htarget := targetExponent_of_rounds hm hlow hhigh h
  have hrounded : (shiftToExponent m k acc e).1.roundedMantissa = n :=
    (nearestEven_shiftToExponent hacc hk).unique h.nearest
  have hexponent : (shiftToExponent m k acc e).2 = e := by
    change k + ((e - k).toNat : ℤ) = e
    omega
  have hfirst : shiftToTargetExponent Format.binary64 m k acc = shiftToExponent m k acc e := by
    rw [shiftToTargetExponent, htarget]
  have hlast := shiftToTargetExponent_exact h.le_carry h.least
  unfold roundWithAccuracy
  dsimp only
  rw [hfirst, hrounded, hexponent]
  obtain ⟨hlastMantissa, hlastExponent⟩ := Prod.ext_iff.mp hlast
  dsimp only at hlastMantissa hlastExponent
  split
  · next hzero =>
    have hn : n = 0 := by
      rw [hlastMantissa] at hzero
      split at hzero
      · cases hzero
      · exact hzero
    rw [ofModel_pack_zero, hn, ofParts_zero]
  · next hzero =>
    have hparts : ∀ {m' : ℕ} {e' : ℤ} {hm' : 0 < m'}, m' = (if n = 2 * leadingBit then leadingBit else n) →
        e' = (if n = 2 * leadingBit then e + 1 else e) →
        Float.ofModel (.pack (.finite s m' e' hm')) = ofParts (isNegative s) n e := by
      rintro m' e' hm' rfl rfl
      by_cases hcarry : n = 2 * leadingBit
      · have hleast := h.least
        have hc : Canonical leadingBit (e + 1) := ⟨by decide, by omega, .inl le_rfl⟩
        simp only [hcarry, ↓reduceIte]
        rw [ofModel_pack_finite hc, ofParts_carry h.least]
      · simp only [hcarry, ↓reduceIte]
        rw [ofModel_pack_finite (h.canonical hcarry)]
    exact hparts (by rw [hlastMantissa, apply_ite Prod.fst]) (by rw [hlastExponent, apply_ite Prod.snd])

/-- What has so many bits before the point is rounded to a unit that is not below the one aimed at. -/
theorem Rounds.targetExponent_le {j : ℤ} (h : Rounds q n e) (hq : 2 ^ (j - 1) ≤ q) :
    Format.binary64.targetExponent j ≤ e := by
  have hless := h.lt_exponent hq
  have hleast := h.least
  rw [targetExponent_eq]
  omega

/-- An approximation whose unit is fine enough is rounded to the double of the rounded parts. -/
theorem ofModel_pack_of_approximates {acc : Accuracy} {j : ℤ}
    (hacc : Approximates (.ofMantissaAndAccuracy m acc) r)
    (hfine : k ≤ Format.binary64.targetExponent j) (hbits : 2 ^ (j - 1) ≤ r * 2 ^ k)
    (h : Rounds (r * 2 ^ k) n e) :
    Float.ofModel (.pack (roundWithAccuracy Format.binary64 s m k acc)) = ofParts (isNegative s) n e := by
  refine ofModel_pack_roundWithAccuracy (fun hm => ?_) hacc h (hfine.trans (h.targetExponent_le hbits))
  have hsmall := hacc.bounds.2
  rw [mantissa_ofMantissaAndAccuracy, hm, Nat.cast_zero, zero_add] at hsmall
  have hless : (2 : ℚ) ^ (j - 1) < 2 ^ k := by
    calc (2 : ℚ) ^ (j - 1) ≤ r * 2 ^ k := hbits
      _ < 1 * 2 ^ k := by gcongr
      _ = 2 ^ k := one_mul _
  rw [zpow_lt_zpow_iff_right₀ one_lt_two] at hless
  rw [targetExponent_eq] at hfine
  omega

/-- A positive whole number of units is rounded to the double of its rounded parts. -/
theorem ofModel_pack_round (hm : 0 < m) (h : Rounds ((m : ℚ) * 2 ^ k) n e) :
    Float.ofModel (.pack (UnpackedFloat.round Format.binary64 s m k)) = ofParts (isNegative s) n e := by
  have htarget : Format.binary64.targetExponent (totalExponent m k) = e :=
    targetExponent_of_rounds (fun hzero => absurd hzero hm.ne') le_rfl (lt_add_one _) h
  have hshift : ((m <<< (k - e).toNat : ℕ) : ℚ) * 2 ^ (k - ((k - e).toNat : ℤ)) = m * 2 ^ k := by
    rw [Nat.shiftLeft_eq, Nat.cast_mul, Nat.cast_pow, Nat.cast_ofNat, mul_assoc, ← zpow_natCast,
      ← zpow_add₀ two_ne_zero]
    congr 2
    omega
  have hpos : 0 < m <<< (k - e).toNat := by
    rw [Nat.shiftLeft_eq]
    positivity
  unfold UnpackedFloat.round
  dsimp only
  rw [htarget, decreaseExponent]
  exact ofModel_pack_roundWithAccuracy (fun hzero => absurd hzero hpos.ne') rfl (hshift ▸ h) (by omega)

/-- A whole number of units is rounded to the double nearest to it. -/
theorem ofModel_pack_normalize {a : ℤ} (ha : a ≠ 0) :
    Float.ofModel (.pack (UnpackedFloat.normalize Format.binary64 a k s)) = ofRat (a * 2 ^ k) := by
  have hpos : (0 : ℚ) < 2 ^ k := by positivity
  have hne : (a : ℚ) * 2 ^ k ≠ 0 := mul_ne_zero (by exact_mod_cast ha) hpos.ne'
  obtain ⟨n, e, h⟩ := exists_rounds (abs_pos.mpr hne)
  rw [ofRat_eq_ofParts hne h]
  rw [abs_mul, abs_of_pos hpos, ← Int.cast_abs] at h
  rcases lt_or_gt_of_ne ha with hneg | hpos'
  · have hmagnitude : ((-a).toNat : ℤ) = |a| := by
      rw [abs_of_neg hneg]
      omega
    have hcast : (((-a).toNat : ℕ) : ℚ) = (|a| : ℤ) := by rw [← hmagnitude, Int.cast_natCast]
    have hsign : decide ((a : ℚ) * 2 ^ k < 0) = true :=
      decide_eq_true (mul_neg_of_neg_of_pos (by exact_mod_cast hneg) hpos)
    rw [UnpackedFloat.normalize, Int.compare_eq_lt.mpr hneg, hsign]
    exact ofModel_pack_round (by omega) (hcast ▸ h)
  · have hmagnitude : (a.toNat : ℤ) = |a| := by
      rw [abs_of_pos hpos']
      omega
    have hcast : ((a.toNat : ℕ) : ℚ) = (|a| : ℤ) := by rw [← hmagnitude, Int.cast_natCast]
    have hsign : decide ((a : ℚ) * 2 ^ k < 0) = false :=
      decide_eq_false (not_lt.mpr (mul_nonneg (by exact_mod_cast hpos'.le) hpos.le))
    rw [UnpackedFloat.normalize, Int.compare_eq_gt.mpr hpos', hsign]
    exact ofModel_pack_round (by omega) (hcast ▸ h)

/-- A finite double, unpacked. -/
theorem exists_unpack (h : Binary.ofFloat x = .finite negative m e) :
    ∃ s, isNegative s = negative ∧ ((∃ hm : 0 < m, x.toModel.unpack = .finite s m e hm) ∨
      (m = 0 ∧ e = -1074 ∧ x.toModel.unpack = .zero s)) := by
  rw [ofFloat_eq_ofUnpacked] at h
  cases hu : x.toModel.unpack with
  | finite s m' e' hm' =>
    rw [hu, Binary.ofUnpacked, Binary.finite.injEq] at h
    obtain ⟨rfl, rfl, rfl⟩ := h
    exact ⟨s, rfl, .inl ⟨hm', rfl⟩⟩
  | zero s =>
    rw [hu, Binary.ofUnpacked, Binary.finite.injEq] at h
    exact ⟨s, h.1, .inr ⟨h.2.1.symm, h.2.2.symm, rfl⟩⟩
  | infinity s =>
    rw [hu, Binary.ofUnpacked] at h
    cases h
  | notANumber =>
    rw [hu, Binary.ofUnpacked] at h
    cases h

theorem exists_unpack_finite (hx : x.isFinite = true) (hne : value x ≠ 0) :
    ∃ s m e, ∃ hm : 0 < m, x.toModel.unpack = .finite s m e hm ∧ Canonical m e ∧
      value x = s.apply m * 2 ^ e := by
  obtain ⟨negative, m, e, h⟩ := isFinite_iff.mp hx
  obtain ⟨s, rfl, ⟨hm, hu⟩ | ⟨hm, -⟩⟩ := exists_unpack h
  · refine ⟨s, m, e, hm, hu, (canonical_of_ofFloat h).1, ?_⟩
    rw [value_of_ofFloat h]
    cases s with
    | negative => simp [isNegative, Sign.apply]
    | positive => simp [isNegative, Sign.apply]
  · exact absurd ((value_eq_zero_iff h).mpr hm) hne

theorem exists_unpack_zero (hx : x.isFinite = true) (hzero : value x = 0) :
    ∃ s, x.toModel.unpack = .zero s := by
  obtain ⟨negative, m, e, h⟩ := isFinite_iff.mp hx
  obtain ⟨s, -, ⟨hm, -⟩ | ⟨-, -, hu⟩⟩ := exists_unpack h
  · exact absurd ((value_eq_zero_iff h).mp hzero) hm.ne'
  · exact ⟨s, hu⟩

end PolyPlot.Double
