import PolyPlot.Decimal.Rounding
import PolyPlot.Proofs.Double.Whole

namespace PolyPlot.Decimal

open Double

variable {negative : Bool} {k k' m n places : ℕ} {e : ℤ} {x : Float} {q : ℚ}

theorem nearestEven_roundTo (num den : ℕ) (hden : 0 < den) :
    NearestEven ((num : ℚ) / den * 10 ^ places) (roundTo num den (-places)) := by
  have hunits : roundTo num den (-places) = divideToEven (num * 10 ^ places) den := by
    have hto : (-(places : ℤ)).toNat = 0 := by omega
    have hto' : (- -(places : ℤ)).toNat = places := by omega
    simp only [roundTo, inUnits, numerator, denominator, hto, hto', Nat.pow_eq, Nat.pow_zero, Nat.mul_one]
  have hquotient : (num : ℚ) / den * 10 ^ places = (num * 10 ^ places : ℕ) / den := by
    push_cast
    ring
  rw [hunits, hquotient]
  exact nearestEven_divideToEven _ hden

/-- The count of last places in a finite double, a half going to the even count. -/
theorem nearestEven_roundTo_binary (m : ℕ) (e : ℤ) (places : ℕ) :
    NearestEven (m * 2 ^ e * 10 ^ places)
      (roundTo (Binary.numerator m e) (Binary.denominator e) (-places)) := by
  have hden : 0 < Binary.denominator e := Nat.pow_pos two_pos
  rw [← Binary.numerator_div_denominator]
  exact nearestEven_roundTo _ _ hden

/-- A whole number of last places is rounded to itself. -/
theorem nearest_of_whole {N : ℕ} (hx : Binary.ofFloat x = .finite negative m e) (hm : 0 < m)
    (hN : (m : ℚ) * 2 ^ e = N) (hk' : NearestEven (m * 2 ^ e * 10 ^ places) k') :
    nearest negative k' (10 ^ places) = x := by
  have hk : k' = N * 10 ^ places := by
    apply hk'.unique
    rw [hN]
    exact_mod_cast NearestEven.natCast _
  have hpos : 0 < N := by
    have hpos' : (0 : ℚ) < N := hN ▸ magnitude_pos hm
    exact_mod_cast hpos'
  have hten : (0 : ℚ) < 10 ^ places := by positivity
  apply nearest_eq_of_value hx (by rw [hk]; positivity) (by positivity)
  rw [hk, hN]
  push_cast
  exact mul_div_cancel_right₀ _ hten.ne'

/-- Rounded places are found again where the unit of the mantissa is finer than they are. -/
theorem eq_of_fine (hk : |(k : ℚ) / 10 ^ places - m * 2 ^ e| ≤ 2 ^ e / 2)
    (hfine : (10 : ℚ) ^ places * 2 ^ e < 1)
    (hk' : NearestEven (m * 2 ^ e * 10 ^ places) k') : k' = k := by
  have hten : (0 : ℚ) < 10 ^ places := by positivity
  have hclose : |(m : ℚ) * 2 ^ e * 10 ^ places - k| < 1 / 2 := by
    have hscale : (m : ℚ) * 2 ^ e * 10 ^ places - k =
        -(((k : ℚ) / 10 ^ places - m * 2 ^ e) * 10 ^ places) := by
      field_simp
      ring
    rw [hscale, abs_neg, abs_mul, abs_of_pos hten]
    calc |(k : ℚ) / 10 ^ places - m * 2 ^ e| * 10 ^ places ≤ 2 ^ e / 2 * 10 ^ places := by gcongr
      _ = 10 ^ places * 2 ^ e / 2 := by ring
      _ < 1 / 2 := by linarith
  exact hk'.unique (.of_lt hclose)

/-- The multiple nearest to a double rounds to the double, if another multiple does and the mantissa
is not a power of two. -/
theorem rounds_of_coarse (hm : leadingBit < m) (hlt : m < 2 * leadingBit) (he : -1074 ≤ e)
    (hk : NearestEven ((k : ℚ) / 10 ^ places / 2 ^ e) m) (hk' : NearestEven (m * 2 ^ e * 10 ^ places) k') :
    Rounds ((k' : ℚ) / 10 ^ places) m e := by
  have hten : (0 : ℚ) < 10 ^ places := by positivity
  have hunit : (0 : ℚ) < 2 ^ e := by positivity
  have hnearer : |(k' : ℚ) / 10 ^ places / 2 ^ e - m| ≤ |(k : ℚ) / 10 ^ places / 2 ^ e - m| := by
    have hscale : ∀ i : ℕ, (i : ℚ) / 10 ^ places / 2 ^ e - m =
        -(((m : ℚ) * 2 ^ e * 10 ^ places - i) / (10 ^ places * 2 ^ e)) := by
      intro i
      field_simp
      ring
    rw [hscale k', hscale k, abs_neg, abs_neg, abs_div, abs_div]
    exact div_le_div_of_nonneg_right (hk'.abs_sub_le k) (abs_nonneg _)
  have hhalf := hnearer.trans hk.le_half
  obtain ⟨hlow, hhigh⟩ := abs_le.mp hhalf
  have hm' : (2 : ℚ) ^ 52 + 1 ≤ m := by
    rw [leadingBit_eq] at hm
    exact_mod_cast hm
  have hlt' : (m : ℚ) + 1 ≤ 2 ^ 53 := by
    have hnext : m + 1 ≤ 2 * leadingBit := hlt
    rw [leadingBit_eq] at hnext
    exact_mod_cast hnext
  refine ⟨he, .inl ?_, ?_, hhalf, fun htie => ?_⟩
  · rw [← le_div_iff₀ hunit]
    linarith
  · rw [← div_lt_iff₀ hunit]
    linarith
  · exact hk.even_of_half (le_antisymm hk.le_half (htie ▸ hnearer))

theorem abs_sub_le_of_nearestEven (h : NearestEven (q / 2 ^ e) m) : |q - m * 2 ^ e| ≤ 2 ^ e / 2 := by
  have hunit : (0 : ℚ) < 2 ^ e := by positivity
  have hscale : q - m * 2 ^ e = (q / 2 ^ e - m) * 2 ^ e := by
    field_simp
  rw [hscale, abs_mul, abs_of_pos hunit]
  calc |q / 2 ^ e - m| * 2 ^ e ≤ 1 / 2 * 2 ^ e := by
        gcongr
        exact h.le_half
    _ = 2 ^ e / 2 := by ring

/-- The parts of the double nearest to a count of last places: they are rounded ones, unless the
mantissa was rounded up to a power of two. -/
theorem parts_of_nearest (hx : x = nearest negative k (10 ^ places))
    (hparts : Binary.ofFloat x = .finite negative m e) (hm : 0 < m) :
    |(k : ℚ) / 10 ^ places - m * 2 ^ e| ≤ 2 ^ e / 2 ∧
      (m = leadingBit ∨ NearestEven ((k : ℚ) / 10 ^ places / 2 ^ e) m) := by
  have hten : 0 < 10 ^ places := by positivity
  have hk : 0 < k := by
    by_contra hk
    obtain rfl : k = 0 := by omega
    rw [hx, nearest_zero, ofFloat_signedZero, Binary.finite.injEq] at hparts
    omega
  have hpos : (0 : ℚ) < (k : ℚ) / (10 ^ places : ℕ) := by positivity
  obtain ⟨m₀, e₀, h⟩ := exists_rounds hpos
  rw [hx, nearest_eq_ofParts hk hten h] at hparts
  have hcases := parts_of_rounds h hparts
  rw [Nat.cast_pow, Nat.cast_ofNat] at h
  have hclose := abs_sub_le_of_nearestEven h.nearest
  rcases hcases with ⟨rfl, rfl⟩ | ⟨rfl, rfl, rfl⟩
  · exact ⟨hclose, .inr h.nearest⟩
  · refine ⟨?_, .inl rfl⟩
    have hunit : (0 : ℚ) < 2 ^ e₀ := by positivity
    have hsame : (leadingBit : ℚ) * (2 ^ e₀ * 2) = (2 * leadingBit : ℕ) * 2 ^ e₀ := by
      push_cast
      ring
    rw [zpow_add_one₀ two_ne_zero, hsame]
    linarith

/-- A power of two is a whole number, if its unit is not too fine, and so is every mantissa with a unit
that is. -/
theorem exists_whole (he : -30 < e) (h : m = leadingBit ∨ 0 ≤ e) : ∃ N : ℕ, (m : ℚ) * 2 ^ e = N := by
  rcases h with rfl | hnonneg
  · refine ⟨2 ^ (52 + e).toNat, ?_⟩
    push_cast
    rw [← zpow_natCast, Int.toNat_of_nonneg (by omega), zpow_add₀ two_ne_zero, leadingBit_eq]
    norm_num
  · refine ⟨m * 2 ^ e.toNat, ?_⟩
    push_cast
    rw [← zpow_natCast, Int.toNat_of_nonneg hnonneg]

/-- The multiple nearest to a double is the double again, where the unit of its mantissa is coarser. -/
theorem nearest_of_coarse (hparts : Binary.ofFloat x = .finite negative m e) (hm : leadingBit < m)
    (he : -30 < e) (hk : NearestEven ((k : ℚ) / 10 ^ places / 2 ^ e) m)
    (hk' : NearestEven (m * 2 ^ e * 10 ^ places) k') : nearest negative k' (10 ^ places) = x := by
  have hten : 0 < 10 ^ places := by positivity
  obtain ⟨hc, -⟩ := canonical_of_ofFloat hparts
  have hrounds := rounds_of_coarse hm hc.lt hc.least hk hk'
  have hpos : 0 < k' := by
    by_contra hzero
    obtain rfl : k' = 0 := by omega
    have hunit : (0 : ℚ) < 2 ^ e := by positivity
    have hlower := hrounds.lower.resolve_right (by omega)
    rw [Nat.cast_zero, zero_div] at hlower
    linarith [mul_pos (by norm_num : (0 : ℚ) < 2 ^ 52) hunit]
  rw [nearest_eq_ofParts hpos hten (by exact_mod_cast hrounds), eq_ofParts_of_ofFloat hparts]

/-- A double nearest to a count of last places is the one nearest to the count found in it. -/
theorem nearest_roundTo (hplaces : places ≤ 9) (hx : x = nearest negative k (10 ^ places))
    (hparts : Binary.ofFloat x = .finite negative m e) (hk' : NearestEven (m * 2 ^ e * 10 ^ places) k') :
    nearest negative k' (10 ^ places) = x := by
  obtain ⟨hc, he⟩ := canonical_of_ofFloat hparts
  rcases Nat.eq_zero_or_pos m with rfl | hm
  · have hzero : k' = 0 := by
      apply hk'.unique
      rw [Nat.cast_zero, zero_mul, zero_mul]
      exact_mod_cast NearestEven.natCast 0
    rw [hzero, eq_ofParts_of_ofFloat hparts, ofParts_zero, nearest_zero]
  · obtain ⟨hclose, hnearest⟩ := parts_of_nearest hx hparts hm
    rcases le_or_gt e (-30) with hfine | hcoarse
    · have hproduct : (10 : ℚ) ^ places * 2 ^ e < 1 := by
        calc (10 : ℚ) ^ places * 2 ^ e ≤ 10 ^ 9 * 2 ^ (-30 : ℤ) :=
              mul_le_mul (pow_le_pow_right₀ (by norm_num) hplaces) (zpow_le_zpow_right₀ one_le_two hfine)
                (by positivity) (by positivity)
          _ < 1 := by norm_num
      rw [eq_of_fine hclose hproduct hk', hx]
    · by_cases hwhole : m = leadingBit ∨ 0 ≤ e
      · obtain ⟨N, hN⟩ := exists_whole hcoarse hwhole
        exact nearest_of_whole hparts hm hN hk'
      · rw [not_or] at hwhole
        have hfull : leadingBit ≤ m := hc.full.resolve_right (by omega)
        exact nearest_of_coarse hparts (lt_of_le_of_ne hfull (Ne.symm hwhole.1)) hcoarse
          (hnearest.resolve_left hwhole.1) hk'

/-- Rounding to places does not leave the finite doubles: with a fraction a double is below `2 ^ 52`. -/
theorem isFinite_nearest_of_nearestEven (hx : Binary.ofFloat x = .finite negative m e)
    (hk : NearestEven (m * 2 ^ e * 10 ^ places) k) : (nearest negative k (10 ^ places)).isFinite = true := by
  have hten : (0 : ℚ) < 10 ^ places := by positivity
  have hten' : 0 < 10 ^ places := by positivity
  obtain ⟨hc, -⟩ := canonical_of_ofFloat hx
  rcases le_or_gt 0 e with hnonneg | hneg
  · have hwhole : (m : ℚ) * 2 ^ e * 10 ^ places = (m * 2 ^ e.toNat * 10 ^ places : ℕ) := by
      push_cast
      rw [← zpow_natCast (2 : ℚ) e.toNat, Int.toNat_of_nonneg hnonneg]
    have hbound : |value x| = m * 2 ^ e := by
      rw [value_of_ofFloat hx, abs_withSign, abs_of_nonneg (by positivity)]
    have hle : (k : ℚ) / (10 ^ places : ℕ) ≤ |value x| := by
      rw [hbound, Nat.cast_pow, Nat.cast_ofNat, div_le_iff₀ hten, hwhole]
      exact_mod_cast hk.le_of_le_natCast hwhole.le
    exact (nearest_le hten' (isFinite_iff.mpr ⟨_, _, _, hx⟩) hle).1
  · have hlt : (m : ℚ) < 2 ^ 53 := by
      have hlt := hc.lt
      rw [leadingBit_eq] at hlt
      exact_mod_cast hlt
    have hsmall : (m : ℚ) * 2 ^ e ≤ 2 ^ 52 := by
      have hunit : (2 : ℚ) ^ e ≤ 2 ^ (-1 : ℤ) := zpow_le_zpow_right₀ one_le_two (by omega)
      calc (m : ℚ) * 2 ^ e ≤ 2 ^ 53 * 2 ^ (-1 : ℤ) := by gcongr
        _ = 2 ^ 52 := by norm_num
    obtain ⟨hy, hvalue⟩ := value_ofNat (n := 2 ^ 52) (by decide)
    have hle : (k : ℚ) / (10 ^ places : ℕ) ≤ |value (Float.ofNat (2 ^ 52))| := by
      rw [hvalue, Nat.abs_cast, Nat.cast_pow, Nat.cast_ofNat, div_le_iff₀ hten]
      have hcount : k ≤ 2 ^ 52 * 10 ^ places := by
        apply hk.le_of_le_natCast
        rw [Nat.cast_mul, Nat.cast_pow, Nat.cast_pow, Nat.cast_ofNat, Nat.cast_ofNat]
        exact mul_le_mul_of_nonneg_right hsmall hten.le
      exact_mod_cast hcount
    exact (nearest_le hten' hy hle).1

/-- Rounding a finite double to places has an answer. -/
theorem roundPlaces_eq_ok (hplaces : places ≤ 9) (hx : Binary.ofFloat x = .finite negative m e) :
    ∃ k, NearestEven (m * 2 ^ e * 10 ^ places) k ∧ (nearest negative k (10 ^ places)).isFinite = true ∧
      roundPlaces places x = .ok (nearest negative k (10 ^ places)) := by
  have hnearest := nearestEven_roundTo_binary m e places
  generalize hk : roundTo (Binary.numerator m e) (Binary.denominator e) (-places) = k at hnearest
  have hfinite := isFinite_nearest_of_nearestEven hx hnearest
  refine ⟨k, hnearest, hfinite, ?_⟩
  have hto : (-(places : ℤ)).toNat = 0 := by omega
  have hto' : (- -(places : ℤ)).toNat = places := by omega
  have hmost : ¬ mostPlaces < (places : ℤ) := by
    unfold mostPlaces
    omega
  have hfewest : ¬ (places : ℤ) < fewestPlaces := by
    unfold fewestPlaces
    omega
  have hrounded : nearest negative (numerator k (-places)) (denominator (-places)) =
      nearest negative k (10 ^ places) := by
    simp only [numerator, denominator, hto, hto', Nat.pow_eq, Nat.pow_zero, Nat.mul_one]
  unfold roundPlaces
  simp only [hx, if_neg hmost, if_neg hfewest, hk, hrounded, hfinite, if_true]

/-- Rounding to places a second time changes nothing. -/
theorem roundPlaces_nearest (hplaces : places ≤ 9) (hx : x = nearest negative k (10 ^ places))
    (hparts : Binary.ofFloat x = .finite negative m e) : roundPlaces places x = .ok x := by
  obtain ⟨k', hk', -, hround⟩ := roundPlaces_eq_ok hplaces hparts
  rw [hround, nearest_roundTo hplaces hx hparts hk']

/-- What is not finite is not rounded. -/
theorem roundPlaces_of_not_isFinite {places : ℤ} (hx : ¬ x.isFinite = true) : roundPlaces places x = .ok x := by
  unfold roundPlaces
  split
  · next h => exact absurd (isFinite_iff.mpr ⟨_, _, _, h⟩) hx
  · rfl

section Tolerance

/-- The tolerance of expressions, which is below the last of nine places. -/
def tolerance : Float := 1e-10

theorem isFinite_tolerance : tolerance.isFinite = true := by
  decide

theorem value_tolerance_pos : 0 < value tolerance := by
  have hparts : Binary.ofFloat tolerance = .finite false 7737125245533627 (-86) := by decide
  rw [value_of_ofFloat hparts]
  norm_num

theorem value_tolerance_lt : value tolerance < 2 ^ (-30 : ℤ) := by
  have hparts : Binary.ofFloat tolerance = .finite false 7737125245533627 (-86) := by decide
  rw [value_of_ofFloat hparts]
  norm_num

theorem one_div_le (hplaces : places ≤ 9) : (2 : ℚ) ^ (-30 : ℤ) ≤ 1 / 10 ^ places := by
  calc (2 : ℚ) ^ (-30 : ℤ) ≤ 1 / 10 ^ 9 := by norm_num
    _ ≤ 1 / 10 ^ places := by
      apply one_div_le_one_div_of_le (by positivity)
      exact pow_le_pow_right₀ (by norm_num) hplaces

/-- A count of last places is below the tolerance only if it is zero. -/
theorem lt_tolerance_iff (hplaces : places ≤ 9)
    (hfinite : (nearest false k (10 ^ places)).isFinite = true) :
    nearest false k (10 ^ places) < tolerance ↔ k = 0 := by
  rw [lt_iff hfinite isFinite_tolerance]
  constructor
  · intro hless
    by_contra hk
    have hpos : 0 < k := Nat.pos_of_ne_zero hk
    have hlarge : |value tolerance| ≤ (k : ℚ) / (10 ^ places : ℕ) := by
      have hone : (1 : ℚ) ≤ k := by exact_mod_cast hpos
      rw [abs_of_pos value_tolerance_pos, Nat.cast_pow, Nat.cast_ofNat]
      calc value tolerance ≤ 2 ^ (-30 : ℤ) := value_tolerance_lt.le
        _ ≤ 1 / 10 ^ places := one_div_le hplaces
        _ ≤ k / 10 ^ places := by gcongr
    have hle := le_nearest hpos (by positivity) isFinite_tolerance hlarge hfinite
    rw [abs_of_pos value_tolerance_pos,
      abs_of_nonneg (value_nearest_nonneg (by positivity) hfinite)] at hle
    exact absurd hless (not_lt.mpr hle)
  · rintro rfl
    rw [nearest_zero, value_signedZero]
    exact value_tolerance_pos

/-- A count of last places other than one in all is not near one. -/
theorem le_abs_sub_one (hplaces : places ≤ 9) (hfinite : (nearest false k (10 ^ places)).isFinite = true)
    (hk : k ≠ 10 ^ places) : (2 : ℚ) ^ (-30 : ℤ) ≤ |value (nearest false k (10 ^ places)) - 1| := by
  have hten : (0 : ℚ) < 10 ^ places := by positivity
  have hten' : 0 < 10 ^ places := by positivity
  have hnonneg := value_nearest_nonneg hten' hfinite
  have hunit := one_div_le hplaces
  rcases lt_or_gt_of_ne hk with hless | hmore
  · have hbits : |(1 - 2 ^ (-30 : ℤ) : ℚ)| = (2 ^ 30 - 1 : ℕ) * 2 ^ (-30 : ℤ) := by norm_num
    obtain ⟨hy, hvalue⟩ := value_ofRat (by decide) (by decide) (by decide) hbits
    have hbelow : (k : ℚ) / (10 ^ places : ℕ) ≤ |value (ofRat (1 - 2 ^ (-30 : ℤ)))| := by
      have hnext : (k : ℚ) + 1 ≤ 10 ^ places := by exact_mod_cast hless
      have hfraction : (k : ℚ) / 10 ^ places ≤ 1 - 1 / 10 ^ places := by
        rw [div_le_iff₀ hten, sub_mul, one_div_mul_cancel hten.ne']
        linarith
      rw [hvalue, abs_of_pos (by norm_num), Nat.cast_pow, Nat.cast_ofNat]
      linarith
    have hle : |value (nearest false k (10 ^ places))| ≤ |value (ofRat (1 - 2 ^ (-30 : ℤ)))| :=
      (nearest_le hten' hy hbelow).2
    rw [abs_of_nonneg hnonneg, hvalue, abs_of_pos (by norm_num)] at hle
    rw [abs_of_nonpos (by linarith [zpow_pos (two_pos : (0 : ℚ) < 2) (-30)])]
    linarith
  · have hbits : |(1 + 2 ^ (-30 : ℤ) : ℚ)| = (2 ^ 30 + 1 : ℕ) * 2 ^ (-30 : ℤ) := by norm_num
    obtain ⟨hy, hvalue⟩ := value_ofRat (by decide) (by decide) (by decide) hbits
    have habove : |value (ofRat (1 + 2 ^ (-30 : ℤ)))| ≤ (k : ℚ) / (10 ^ places : ℕ) := by
      have hnext : (10 : ℚ) ^ places + 1 ≤ k := by exact_mod_cast hmore
      have hfraction : 1 + 1 / 10 ^ places ≤ (k : ℚ) / 10 ^ places := by
        rw [le_div_iff₀ hten, add_mul, one_div_mul_cancel hten.ne']
        linarith
      rw [hvalue, abs_of_pos (by norm_num), Nat.cast_pow, Nat.cast_ofNat]
      linarith
    have hle := le_nearest (by omega) hten' hy habove hfinite
    rw [abs_of_nonneg hnonneg, hvalue, abs_of_pos (by norm_num)] at hle
    exact le_trans (by linarith) (le_abs_self _)

theorem nearest_one (places : ℕ) : nearest false (10 ^ places) (10 ^ places) = 1 := by
  have hone : Binary.ofFloat 1 = .finite false leadingBit (-52) := by decide
  have hten : ((10 ^ places : ℕ) : ℚ) ≠ 0 := by positivity
  apply nearest_eq_of_value hone (by positivity) (by positivity)
  rw [div_self hten]
  norm_num [leadingBit]

/-- A count of last places is within the tolerance of one only if it is one. -/
theorem abs_sub_one_lt_iff (hplaces : places ≤ 9)
    (hfinite : (nearest false k (10 ^ places)).isFinite = true) :
    (nearest false k (10 ^ places) - 1).abs < tolerance ↔ k = 10 ^ places := by
  constructor
  · intro hless
    by_contra hk
    have hapart := le_abs_sub_one hplaces hfinite hk
    have hnonneg := value_nearest_nonneg (by positivity) hfinite
    generalize nearest false k (10 ^ places) = r at *
    have hpos : (0 : ℚ) < 2 ^ (-30 : ℤ) := by positivity
    have hne : value r - 1 ≠ 0 := abs_pos.mp (hpos.trans_le hapart)
    have hnum : 0 < (value r - 1).num.natAbs := Int.natAbs_pos.mpr (Rat.num_ne_zero.mpr hne)
    have hden : 0 < (value r - 1).den := Rat.den_pos _
    have hfraction := natAbs_div_den (value r - 1)
    have hdifference : r - 1 = ofRat (value r - 1) := by
      rw [sub_eq_ofRat hfinite isFinite_one (by rwa [value_one]), value_one]
    have hround : (ofRat (value r - 1)).isFinite = true := by
      rcases le_total 1 (value r) with hlarge | hsmall
      · apply (nearest_le hden hfinite ?_).1
        rw [hfraction, abs_of_nonneg (by linarith), abs_of_nonneg hnonneg]
        linarith
      · apply (nearest_le hden isFinite_one ?_).1
        rw [hfraction, value_one, abs_one, abs_of_nonpos (by linarith)]
        linarith
    have hbits : |(2 ^ (-30 : ℤ) : ℚ)| = (1 : ℕ) * 2 ^ (-30 : ℤ) := by norm_num
    obtain ⟨hy, hvalue⟩ := value_ofRat (by decide) (by decide) (by decide) hbits
    have hle : |value (ofRat (2 ^ (-30 : ℤ)))| ≤ |value (ofRat (value r - 1))| := by
      apply le_nearest hnum hden hy ?_ hround
      rwa [hfraction, hvalue, abs_of_pos hpos]
    rw [hvalue, abs_of_pos hpos] at hle
    rw [hdifference, lt_iff (isFinite_abs hround) isFinite_tolerance, value_abs hround] at hless
    linarith [value_tolerance_lt]
  · rintro rfl
    rw [nearest_one]
    decide

end Tolerance

end PolyPlot.Decimal
