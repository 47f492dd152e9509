import PolyPlot.Proofs.Double.Growth

namespace PolyPlot.Double

variable {negative : Bool} {a m n : ℕ} {e k N : ℤ} {q : ℚ} {x y : Float}

/-- A half more than a double with this value is rounded up to the next whole number. -/
def CarriesHalf (q : ℚ) : Prop :=
  q = 1 / 2 - 2 ^ (-54 : ℤ) ∨ ∃ N : ℤ, N % 2 = 1 ∧ 2 ^ 52 < |N| ∧ q = N

theorem value_add_half_eq (hx : x.isFinite = true) (hne : value x + 1 / 2 ≠ 0) :
    x + Scalar.half = ofRat (value x + 1 / 2) := by
  rw [add_eq_ofRat hx isFinite_half (by rwa [value_half]), value_half]

/-- The sum with a half is exact if it has no more than fifty-three bits. -/
theorem value_add_half_of_units (hx : x.isFinite = true) (ha : a ≤ 2 * leadingBit) (hk : -1074 ≤ k)
    (hk' : k < greatestExponent) (hsum : |value x + 1 / 2| = a * 2 ^ k) :
    value (x + Scalar.half) = value x + 1 / 2 := by
  by_cases hzero : value x + 1 / 2 = 0
  · rw [hzero]
    exact (add_of_opposite hx isFinite_half (by rwa [value_half])).2
  · rw [value_add_half_eq hx hzero]
    rcases ha.lt_or_eq with hlt | rfl
    · exact (value_ofRat hlt hk hk'.le hsum).2
    · have hcarry : |value x + 1 / 2| = leadingBit * 2 ^ (k + 1) := by
        rw [hsum, zpow_add_one₀ two_ne_zero]
        push_cast
        ring
      exact (value_ofRat (by decide) (by omega) (by omega) hcarry).2

/-- The whole part of the sum with a half, if the exact sum lies between a whole number and a double
below the next one. -/
theorem floor_add_half_of_between (hx : x.isFinite = true) (hpos : 0 < value x + 1 / 2)
    (hn : n < 2 * leadingBit) (hlow : n ≤ value x + 1 / 2) (hy : y.isFinite = true)
    (hhigh : value x + 1 / 2 ≤ value y) (hnext : value y < n + 1) :
    ⌊value (x + Scalar.half)⌋ = n := by
  have hfinite := isFinite_add_half hx
  rw [value_add_half_eq hx hpos.ne'] at hfinite ⊢
  obtain ⟨m, e, -, hvalue⟩ := exists_rounds_of_pos hpos
  have hnonneg : 0 ≤ value (ofRat (value x + 1 / 2)) := by
    rw [hvalue hfinite]
    positivity
  obtain ⟨hwhole, hvalue'⟩ := value_ofNat hn
  have hge := le_abs_value_ofRat hpos.ne' hwhole
    (by rwa [hvalue', Nat.abs_cast, abs_of_pos hpos]) hfinite
  rw [hvalue', Nat.abs_cast, abs_of_nonneg hnonneg] at hge
  exact Int.floor_eq_iff.mpr ⟨hge, (value_ofRat_le hy hfinite hhigh).trans_lt hnext⟩

section Small

/-- The unit of a double that is neither below a half nor whole. -/
theorem exponent_bounds (h : Binary.ofFloat x = .finite negative m e) (hhalf : 1 / 2 ≤ |value x|)
    (hsmall : |value x| < leadingBit) : -53 ≤ e ∧ e ≤ -1 := by
  have hc := (canonical_of_ofFloat h).1
  rw [value_of_ofFloat h, abs_withSign, abs_of_nonneg (by positivity)] at hhalf hsmall
  have hlow := (rounds_of_canonical hc).lt_exponent (k := -1) (le_of_eq_of_le (by norm_num) hhalf)
  have hhigh := hc.exponent_lt (k := 52) (lt_of_lt_of_eq hsmall (by norm_num [leadingBit]))
  omega

/-- A half as a whole number of smaller units. -/
theorem half_eq_units (he : e ≤ -1) : (1 / 2 : ℚ) = (2 ^ (-1 - e).toNat : ℕ) * 2 ^ e := by
  rw [Nat.cast_pow, Nat.cast_ofNat, ← zpow_natCast, Int.toNat_of_nonneg (by omega), ← zpow_add₀ two_ne_zero,
    sub_add_cancel]
  norm_num

theorem value_add_half_of_le (hx : x.isFinite = true) (hsmall : |value x| < leadingBit)
    (hle : value x ≤ -1 / 2) : value (x + Scalar.half) = value x + 1 / 2 := by
  obtain ⟨negative, m, e, h⟩ := isFinite_iff.mp hx
  have hneg : |value x| = -value x := abs_of_nonpos (by linarith)
  have hhalf : 1 / 2 ≤ |value x| := by
    rw [hneg]
    linarith
  obtain ⟨hleast, hmost⟩ := exponent_bounds h hhalf hsmall
  have hunits := half_eq_units hmost
  have habs : |value x| = m * 2 ^ e := by
    rw [value_of_ofFloat h, abs_withSign, abs_of_nonneg (by positivity)]
  have hm : 2 ^ (-1 - e).toNat ≤ m := by
    rw [habs, hunits] at hhalf
    exact_mod_cast le_of_mul_le_mul_right hhalf (by positivity)
  have hc := (canonical_of_ofFloat h).1.lt
  have hsum : |value x + 1 / 2| = (m - 2 ^ (-1 - e).toNat : ℕ) * 2 ^ e := by
    rw [abs_of_nonpos (by linarith), Nat.cast_sub hm, sub_mul, ← hunits, ← habs, hneg]
    ring
  exact value_add_half_of_units hx ((Nat.sub_le _ _).trans hc.le) (by omega)
    (by unfold greatestExponent; omega) hsum

/-- Where the sum reaches the power of two at which the unit doubles, it is less than a half above it. -/
theorem floor_add_half_of_carry (hx : x.isFinite = true) (hvalue : value x = m * 2 ^ e)
    (hm : m < 2 * leadingBit) (hleast : -53 ≤ e) (hmost : e ≤ -1)
    (hcarry : 2 * leadingBit < m + 2 ^ (-1 - e).toNat) :
    ⌊value (x + Scalar.half)⌋ = ⌊value x + 1 / 2⌋ := by
  have hunits := half_eq_units hmost
  have hunit : (0 : ℚ) < 2 ^ e := by positivity
  have hnonneg : 0 ≤ value x := by
    rw [hvalue]
    positivity
  have hfine : e ≤ -2 := by
    by_contra hcoarse
    obtain rfl : e = -1 := by omega
    norm_num at hcarry
    omega
  have hpower : ((2 ^ (53 + e).toNat : ℕ) : ℚ) = (2 * leadingBit : ℕ) * 2 ^ e := by
    rw [Nat.cast_pow, Nat.cast_ofNat, ← zpow_natCast, Int.toNat_of_nonneg (by omega),
      zpow_add₀ two_ne_zero]
    norm_num [leadingBit]
  have hlow : ((2 ^ (53 + e).toNat : ℕ) : ℚ) ≤ value x + 1 / 2 := by
    rw [hpower, hvalue, hunits, ← add_mul]
    exact mul_le_mul_of_nonneg_right (by exact_mod_cast hcarry.le) hunit.le
  have hhigh : value x + 1 / 2 ≤ (2 ^ (53 + e).toNat : ℕ) + 1 / 2 := by
    rw [hpower, hvalue]
    have hm' : (m : ℚ) ≤ (2 * leadingBit : ℕ) := by exact_mod_cast hm.le
    have hless := mul_le_mul_of_nonneg_right hm' hunit.le
    linarith
  have hfew : 2 ^ (53 + e).toNat ≤ 2 ^ 51 := Nat.pow_le_pow_right two_pos (by omega)
  have hmiddle : |((2 ^ (53 + e).toNat : ℕ) : ℚ) + 1 / 2| =
      (2 * 2 ^ (53 + e).toNat + 1 : ℕ) * 2 ^ (-1 : ℤ) := by
    rw [abs_of_nonneg (by positivity)]
    push_cast
    norm_num
    ring
  obtain ⟨hy, hvalue'⟩ := value_ofRat (by unfold leadingBit; omega) (by decide) (by decide) hmiddle
  rw [floor_add_half_of_between hx (by linarith) (by unfold leadingBit; omega) hlow hy
    (by rwa [hvalue']) (by rw [hvalue']; linarith)]
  symm
  exact Int.floor_eq_iff.mpr ⟨by exact_mod_cast hlow, by push_cast at hhigh ⊢; linarith⟩

theorem floor_add_half_of_half_le (hx : x.isFinite = true) (hsmall : |value x| < leadingBit)
    (hle : 1 / 2 ≤ value x) : ⌊value (x + Scalar.half)⌋ = ⌊value x + 1 / 2⌋ := by
  obtain ⟨negative, m, e, h⟩ := isFinite_iff.mp hx
  have hvalue := value_eq_of_nonneg h (by linarith)
  have habs : |value x| = value x := abs_of_nonneg (by linarith)
  obtain ⟨hleast, hmost⟩ := exponent_bounds h (by rwa [habs]) hsmall
  rcases le_or_gt (m + 2 ^ (-1 - e).toNat) (2 * leadingBit) with hexact | hcarry
  · have hsum : |value x + 1 / 2| = (m + 2 ^ (-1 - e).toNat : ℕ) * 2 ^ e := by
      rw [abs_of_nonneg (by linarith), Nat.cast_add, add_mul, ← half_eq_units hmost, ← hvalue]
    rw [value_add_half_of_units hx hexact (by omega) (by unfold greatestExponent; omega) hsum]
  · exact floor_add_half_of_carry hx hvalue (canonical_of_ofFloat h).1.lt hleast hmost hcarry

/-- Below a half there is a double that is rounded up, and none between that and the next lower one. -/
theorem value_le_of_lt_half (hx : x.isFinite = true) (hlt : value x < 1 / 2)
    (hne : value x ≠ 1 / 2 - 2 ^ (-54 : ℤ)) : value x ≤ 1 / 2 - 2 ^ (-53 : ℤ) := by
  rcases le_or_gt (value x) (1 / 4) with hquarter | hquarter
  · refine hquarter.trans ?_
    norm_num
  obtain ⟨negative, m, e, h⟩ := isFinite_iff.mp hx
  have hc := (canonical_of_ofFloat h).1
  have hvalue := value_eq_of_nonneg h (by linarith)
  have hunit : e = -54 := by
    rw [hvalue] at hlt hquarter
    have hlow := (rounds_of_canonical hc).lt_exponent (k := -2) (le_of_eq_of_le (by norm_num) hquarter.le)
    have hhigh := hc.exponent_lt (k := -1) (lt_of_lt_of_eq hlt (by norm_num))
    omega
  subst hunit
  have hlast : m ≠ 2 * leadingBit - 1 := by
    rintro rfl
    apply hne
    rw [hvalue]
    norm_num [leadingBit]
  have hm : m ≤ 2 * leadingBit - 2 := by
    have hless := hc.lt
    omega
  calc value x = m * 2 ^ (-54 : ℤ) := hvalue
    _ ≤ (2 * leadingBit - 2 : ℕ) * 2 ^ (-54 : ℤ) :=
      mul_le_mul_of_nonneg_right (by exact_mod_cast hm) (by positivity)
    _ = 1 / 2 - 2 ^ (-53 : ℤ) := by norm_num [leadingBit]

theorem floor_add_half_of_small (hx : x.isFinite = true) (hlow : -1 / 2 < value x)
    (hlt : value x < 1 / 2) (hne : value x ≠ 1 / 2 - 2 ^ (-54 : ℤ)) :
    ⌊value (x + Scalar.half)⌋ = ⌊value x + 1 / 2⌋ := by
  have hlast : |(1 : ℚ) - 2 ^ (-53 : ℤ)| = (2 * leadingBit - 1 : ℕ) * 2 ^ (-53 : ℤ) := by
    norm_num [leadingBit]
  obtain ⟨hy, hvalue⟩ := value_ofRat (by decide) (by decide) (by decide) hlast
  have hbound := value_le_of_lt_half hx hlt hne
  have hzero : ⌊value (x + Scalar.half)⌋ = ((0 : ℕ) : ℤ) := by
    refine floor_add_half_of_between hx (by linarith) (by decide) ?_ hy ?_ ?_
    · rw [Nat.cast_zero]
      linarith
    · rw [hvalue]
      linarith
    · rw [hvalue]
      norm_num
  rw [hzero]
  symm
  refine Int.floor_eq_iff.mpr ⟨?_, ?_⟩
  · push_cast
    linarith
  · push_cast
    linarith

/-- The double below a half: the sum lies midway between the last double below one and one. -/
theorem value_add_half_of_last (hx : x.isFinite = true) (hlast : value x = 1 / 2 - 2 ^ (-54 : ℤ)) :
    value (x + Scalar.half) = 1 := by
  have hsum : value x + 1 / 2 = 1 - 2 ^ (-54 : ℤ) := by
    rw [hlast]
    ring
  have hpos : (0 : ℚ) < 1 - 2 ^ (-54 : ℤ) := by norm_num
  have hmiddle : ((1 : ℚ) - 2 ^ (-54 : ℤ)) / 2 ^ (-53 : ℤ) = (2 * leadingBit - 1 : ℕ) + 1 / 2 := by
    norm_num [leadingBit]
  have hrounds : Rounds (1 - 2 ^ (-54 : ℤ)) (2 * leadingBit) (-53) := by
    refine ⟨by decide, .inl (by norm_num), by norm_num, ?_⟩
    rw [hmiddle]
    exact NearestEven.half (2 * leadingBit - 1)
  rw [value_add_half_eq hx (hsum ▸ hpos.ne'), hsum, ofRat_eq_ofParts_of_pos hpos hrounds,
    value_ofParts_of_rounds hrounds (hrounds.isFinite (by decide)), withSign_false]
  norm_num [leadingBit]

end Small

section Large

variable {M j : ℕ}

/-- Below a power of two the unit is only half as great, and it is still no less than one. -/
theorem rounds_leadingBit_sub_half (hj : 0 < j) :
    Rounds (leadingBit * 2 ^ (j : ℤ) - 1 / 2) (2 * leadingBit) ((j : ℤ) - 1) := by
  have hdouble := two_le_zpow hj
  have hleading : ((leadingBit : ℕ) : ℚ) = 2 ^ 52 := by norm_num [leadingBit]
  have hunit : (2 : ℚ) ^ (j : ℤ) = 2 ^ ((j : ℤ) - 1) * 2 := by
    rw [← zpow_add_one₀ two_ne_zero, sub_add_cancel]
  have hone : (1 : ℚ) ≤ 2 ^ ((j : ℤ) - 1) := one_le_zpow₀ one_le_two (by omega)
  have hquotient : ((leadingBit : ℚ) * 2 ^ (j : ℤ) - 1 / 2) / 2 ^ ((j : ℤ) - 1) - (2 * leadingBit : ℕ) =
      -(1 / 2 / 2 ^ ((j : ℤ) - 1)) := by
    rw [hunit]
    push_cast
    field_simp
    ring
  have hnear : |((leadingBit : ℚ) * 2 ^ (j : ℤ) - 1 / 2) / 2 ^ ((j : ℤ) - 1) - (2 * leadingBit : ℕ)| ≤
      1 / 2 := by
    rw [hquotient, abs_neg, abs_of_pos (by positivity)]
    exact div_le_self (by norm_num) hone
  refine ⟨by omega, .inl ?_, ?_, hnear, fun _ => by decide⟩
  · rw [hunit, hleading]
    linarith
  · rw [hunit, hleading]
    linarith

theorem rounds_sub_half (hmore : leadingBit < m) (hlt : m < 2 * leadingBit) (hj : 0 < j) :
    Rounds (m * 2 ^ (j : ℤ) - 1 / 2) m j := by
  have hdouble := two_le_zpow hj
  have hm : (2 : ℚ) ^ 52 + 1 ≤ m := by
    rw [leadingBit_eq] at hmore
    exact_mod_cast hmore
  have hm' : (m : ℚ) < 2 ^ 53 := by
    rw [leadingBit_eq] at hlt
    exact_mod_cast hlt
  have hquotient : ((m : ℚ) * 2 ^ (j : ℤ) - 1 / 2) / 2 ^ (j : ℤ) - m = -(1 / 2 / 2 ^ (j : ℤ)) := by
    field_simp
    ring
  have hnear : |((m : ℚ) * 2 ^ (j : ℤ) - 1 / 2) / 2 ^ (j : ℤ) - m| < 1 / 2 := by
    rw [hquotient, abs_neg, abs_of_pos (by positivity), div_lt_iff₀ (by positivity)]
    linarith
  refine ⟨by omega, .inl ?_, ?_, .of_lt hnear⟩
  · nlinarith
  · nlinarith

/-- With a unit greater than one a half is lost below as it is above, to a carry where the unit changes. -/
theorem exists_rounds_sub_half (hfull : leadingBit ≤ m) (hlt : m < 2 * leadingBit) (hj : 0 < j) :
    ∃ m' e, Rounds (m * 2 ^ (j : ℤ) - 1 / 2) m' e ∧ (m' : ℚ) * 2 ^ e = m * 2 ^ (j : ℤ) := by
  rcases hfull.eq_or_lt with rfl | hmore
  · refine ⟨2 * leadingBit, (j : ℤ) - 1, rounds_leadingBit_sub_half hj, ?_⟩
    rw [zpow_sub_one₀ two_ne_zero]
    push_cast
    ring
  · exact ⟨m, j, rounds_sub_half hmore hlt hj, rfl⟩

/-- Odd whole numbers above `2 ^ 52` go to the next even one, and the others are kept. -/
theorem floor_add_half_of_natCast (hx : x.isFinite = true) (hM : value x = M) (hlarge : leadingBit ≤ M) :
    ⌊value (x + Scalar.half)⌋ = (M : ℤ) + M % 2 := by
  have hfloor := floor_add_half hx hM
  rw [floor_eq (isFinite_add_half hx), Except.ok.injEq] at hfloor
  rw [hfloor]
  rcases hlarge.eq_or_lt with rfl | hmore
  · decide
  · rw [if_neg (not_le.mpr hmore)]
    push_cast
    rfl

theorem value_add_half_of_rounds (hx : x.isFinite = true) (hneg : value x + 1 / 2 < 0)
    (h : Rounds |value x + 1 / 2| m e) : value (x + Scalar.half) = -(m * 2 ^ e) := by
  have hfinite := isFinite_add_half hx
  rw [value_add_half_eq hx hneg.ne, ofRat_eq_ofParts hneg.ne h] at hfinite ⊢
  rw [value_ofParts_of_rounds h hfinite, decide_eq_true hneg, withSign_true]

/-- With a unit of one the sum is a tie, or it is exact where the unit below is a half. -/
theorem floor_add_half_of_neg_unit (hx : x.isFinite = true) (hM : value x = -M) (hfull : leadingBit ≤ M)
    (hlt : M < 2 * leadingBit) (hneg : value x + 1 / 2 < 0) (habs : |value x + 1 / 2| = M - 1 / 2) :
    ⌊value (x + Scalar.half)⌋ = -(M : ℤ) + M % 2 := by
  rcases hfull.eq_or_lt with rfl | hmore
  · -- half of a mantissa that is one bit longer
    have hunits : |value x + 1 / 2| = (2 * leadingBit - 1 : ℕ) * 2 ^ (-1 : ℤ) := by
      rw [habs]
      norm_num [leadingBit]
    rw [value_add_half_of_units hx (by decide) (by decide) (by decide) hunits, hM]
    norm_num [leadingBit]
  · have hrounds := rounds_add_half (m := M - 1) (by omega) (by omega)
    have hmiddle : ((M - 1 : ℕ) : ℚ) + 1 / 2 = |value x + 1 / 2| := by
      rw [habs, Nat.cast_sub (by omega)]
      push_cast
      ring
    have hnext : ((M - 1 + (M - 1) % 2 : ℕ) : ℤ) = M - M % 2 := by omega
    rw [hmiddle] at hrounds
    rw [value_add_half_of_rounds hx hneg hrounds, zpow_zero, mul_one, ← Int.cast_natCast, hnext,
      ← Int.cast_neg, Int.floor_intCast]
    ring

theorem floor_add_half_of_neg_natCast (hx : x.isFinite = true) (hM : value x = -M)
    (hlarge : leadingBit ≤ M) : ⌊value (x + Scalar.half)⌋ = -(M : ℤ) + M % 2 := by
  have hopposite : value (-x) = M := by rw [value_neg hx, hM, neg_neg]
  obtain ⟨m, j, hfull, hlt, -, hparts⟩ := exists_parts_of_leadingBit_le (isFinite_neg hx) hopposite hlarge
  have hone : (1 : ℚ) ≤ M := by
    have hpos : 0 < leadingBit := by decide
    exact_mod_cast hpos.trans_le hlarge
  have hneg : value x + 1 / 2 < 0 := by
    rw [hM]
    linarith
  have habs : |value x + 1 / 2| = M - 1 / 2 := by
    rw [abs_of_neg hneg, hM]
    ring
  rcases Nat.eq_zero_or_pos j with rfl | hj
  · obtain rfl : M = m := by rw [hparts, pow_zero, mul_one]
    exact floor_add_half_of_neg_unit hx hM hfull hlt hneg habs
  · obtain ⟨m', e, hrounds, hsame⟩ := exists_rounds_sub_half hfull hlt hj
    have hcast : (M : ℚ) = m * 2 ^ (j : ℤ) := by
      rw [hparts, zpow_natCast]
      push_cast
      rfl
    have heven : M % 2 = 0 := by
      obtain ⟨i, rfl⟩ := Nat.exists_eq_add_one.mpr hj
      rw [hparts, pow_succ, ← mul_assoc, Nat.mul_mod_left]
    rw [← hcast, ← habs] at hrounds
    rw [value_add_half_of_rounds hx hneg hrounds, hsame, ← hcast, ← Int.cast_natCast, ← Int.cast_neg,
      Int.floor_intCast]
    omega

/-- A double of at least fifty-three bits is a whole number. -/
theorem exists_value_eq_intCast (hx : x.isFinite = true) (hlarge : (leadingBit : ℚ) ≤ |value x|) :
    ∃ N : ℤ, value x = N := by
  obtain ⟨negative, m, e, h⟩ := isFinite_iff.mp hx
  obtain ⟨N, hN⟩ := exists_value_eq_of_le h (exponent_nonneg h hlarge)
  exact ⟨N, by rw [hN, zpow_zero, mul_one]⟩

theorem floor_add_half_of_intCast (hx : x.isFinite = true) (hN : value x = N)
    (hlarge : (leadingBit : ℤ) ≤ |N|) : ⌊value (x + Scalar.half)⌋ = N + N % 2 := by
  obtain ⟨M, rfl | rfl⟩ := Int.eq_nat_or_neg N
  · rw [Nat.abs_cast] at hlarge
    exact floor_add_half_of_natCast hx (by rw [hN, Int.cast_natCast]) (by exact_mod_cast hlarge)
  · rw [abs_neg, Nat.abs_cast] at hlarge
    have hfloor := floor_add_half_of_neg_natCast hx (by rw [hN, Int.cast_neg, Int.cast_natCast])
      (by exact_mod_cast hlarge)
    omega

end Large

theorem carriesHalf_intCast : CarriesHalf N ↔ N % 2 = 1 ∧ 2 ^ 52 < |N| := by
  constructor
  · rintro (hlast | ⟨M, hodd, hlarge, hM⟩)
    · have hlow : (0 : ℚ) < N := by
        rw [hlast]
        norm_num
      have hhigh : (N : ℚ) < 1 := by
        rw [hlast]
        norm_num
      have hpos : 0 < N := by exact_mod_cast hlow
      have hone : N < 1 := by exact_mod_cast hhigh
      omega
    · obtain rfl : N = M := by exact_mod_cast hM
      exact ⟨hodd, hlarge⟩
  · rintro ⟨hodd, hlarge⟩
    exact .inr ⟨N, hodd, hlarge, rfl⟩

theorem not_carriesHalf (hsmall : |q| < leadingBit) (hne : q ≠ 1 / 2 - 2 ^ (-54 : ℤ)) :
    ¬ CarriesHalf q := by
  rintro (hlast | ⟨N, -, hlarge, rfl⟩)
  · exact hne hlast
  · rw [leadingBit_eq, ← Int.cast_abs] at hsmall
    have hsmall' : |N| < 2 ^ 52 := by exact_mod_cast hsmall
    exact absurd hlarge (not_lt.mpr hsmall'.le)

/-- The whole part of the sum with a half is the nearest whole number, a half going up, except where the
half is carried. -/
theorem floor_value_add_half (hx : x.isFinite = true) :
    ¬ CarriesHalf (value x) ∧ ⌊value (x + Scalar.half)⌋ = ⌊value x + 1 / 2⌋ ∨
      CarriesHalf (value x) ∧ ⌊value (x + Scalar.half)⌋ = ⌊value x + 1 / 2⌋ + 1 := by
  rcases lt_or_ge |value x| leadingBit with hsmall | hlarge
  · by_cases hlast : value x = 1 / 2 - 2 ^ (-54 : ℤ)
    · refine .inr ⟨.inl hlast, ?_⟩
      rw [value_add_half_of_last hx hlast, hlast]
      norm_num
    · refine .inl ⟨not_carriesHalf hsmall hlast, ?_⟩
      rcases le_or_gt (value x) (-1 / 2) with hneg | hlow
      · rw [value_add_half_of_le hx hsmall hneg]
      · rcases lt_or_ge (value x) (1 / 2) with hlt | hge
        · exact floor_add_half_of_small hx hlow hlt hlast
        · exact floor_add_half_of_half_le hx hsmall hge
  · obtain ⟨N, hN⟩ := exists_value_eq_intCast hx hlarge
    have hfloor : ⌊(N : ℚ) + 1 / 2⌋ = N := by
      rw [Int.floor_eq_iff]
      constructor <;> linarith
    have hlarge' : (leadingBit : ℤ) ≤ |N| := by
      rw [hN] at hlarge
      exact_mod_cast hlarge
    rw [floor_add_half_of_intCast hx hN hlarge', hN, hfloor, carriesHalf_intCast]
    rcases Int.emod_two_eq_zero_or_one N with heven | hodd
    · exact .inl ⟨fun h => by omega, by rw [heven, add_zero]⟩
    · refine .inr ⟨⟨hodd, lt_of_le_of_ne hlarge' fun hbound => ?_⟩, by rw [hodd]⟩
      rcases abs_eq_abs.mp (hbound.symm.trans (Nat.abs_cast leadingBit).symm) with rfl | rfl
      · exact absurd hodd (by decide)
      · exact absurd hodd (by decide)

end PolyPlot.Double
