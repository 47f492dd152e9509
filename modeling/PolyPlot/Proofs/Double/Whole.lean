import PolyPlot.Proofs.Double.Order

namespace PolyPlot.Double

open Float.Model (UnpackedFloat Format)
open Float.Model.UnpackedFloat (Sign roundWithAccuracy)

variable {negative : Bool} {a m n N : ℕ} {e k : ℤ} {x y : Float} {q : ℚ}

/-- A magnitude of at most fifty-three bits is not changed by rounding. -/
theorem Rounds.exact (h : Rounds (a * 2 ^ k) m e) (ha : a < 2 * leadingBit) (hk : -1074 ≤ k) :
    (m : ℚ) * 2 ^ e = a * 2 ^ k := by
  have hpos : (0 : ℚ) < 2 ^ e := by positivity
  have hle : e ≤ k := by
    rcases h.lower with hfull | hleast
    · have hfew : (a : ℚ) < (2 * leadingBit : ℕ) := by exact_mod_cast ha
      have hleading : ((2 * leadingBit : ℕ) : ℚ) = 2 ^ (53 : ℤ) := by norm_num [leadingBit]
      have hless : (2 : ℚ) ^ (52 + e) < 2 ^ (53 + k) := by
        calc (2 : ℚ) ^ (52 + e) = 2 ^ 52 * 2 ^ e := by
              rw [zpow_add₀ two_ne_zero]
              norm_num
          _ ≤ a * 2 ^ k := hfull
          _ < 2 ^ (53 + k) := by
              rw [zpow_add₀ two_ne_zero, ← hleading]
              gcongr
      rw [zpow_lt_zpow_iff_right₀ one_lt_two] at hless
      omega
    · omega
  have hwhole : (a : ℚ) * 2 ^ k / 2 ^ e = (a * 2 ^ (k - e).toNat : ℕ) := by
    have hsplit : (2 : ℚ) ^ k = 2 ^ (k - e).toNat * 2 ^ e := by
      rw [← zpow_natCast, ← zpow_add₀ two_ne_zero]
      congr 1
      omega
    rw [hsplit, ← mul_assoc, mul_div_cancel_right₀ _ hpos.ne']
    push_cast
    rfl
  have hm : m = a * 2 ^ (k - e).toNat := h.nearest.unique (hwhole ▸ NearestEven.natCast _)
  rw [hm, ← hwhole, div_mul_cancel₀ _ hpos.ne']

theorem withSign_abs (q : ℚ) : withSign (q < 0) |q| = q := by
  by_cases hq : q < 0
  · rw [decide_eq_true hq, withSign_true, abs_of_neg hq, neg_neg]
  · rw [decide_eq_false hq, withSign_false, abs_of_nonneg (not_lt.mp hq)]

/-- The double of a magnitude of at most fifty-three bits. -/
theorem value_ofRat (ha : a < 2 * leadingBit) (hk : -1074 ≤ k) (hk' : k ≤ greatestExponent)
    (hq : |q| = a * 2 ^ k) : (ofRat q).isFinite = true ∧ value (ofRat q) = q := by
  by_cases hq0 : q = 0
  · subst hq0
    exact ⟨isFinite_zero, value_zero⟩
  · have hpos : 0 < |q| := abs_pos.mpr hq0
    obtain ⟨m, e, h⟩ := exists_rounds hpos
    obtain ⟨m', e', hc, hparts, hvalue⟩ := h.exists_canonical (q < 0)
    have hexact : (m' : ℚ) * 2 ^ e' = |q| := by
      rw [hq] at h ⊢
      rw [hvalue, h.exact ha hk]
    have he : e' ≤ greatestExponent := by
      rcases hc.full with hfull | hleast
      · have hfew : (a : ℚ) < (2 * leadingBit : ℕ) := by exact_mod_cast ha
        have hfull' : ((leadingBit : ℕ) : ℚ) ≤ m' := by exact_mod_cast hfull
        have hdouble : ((2 * leadingBit : ℕ) : ℚ) * 2 ^ k = (leadingBit : ℕ) * 2 ^ (k + 1) := by
          rw [zpow_add_one₀ two_ne_zero]
          push_cast
          ring
        have hless : ((leadingBit : ℕ) : ℚ) * 2 ^ e' < (leadingBit : ℕ) * 2 ^ (k + 1) := by
          calc ((leadingBit : ℕ) : ℚ) * 2 ^ e' ≤ m' * 2 ^ e' := by gcongr
            _ = a * 2 ^ k := by rw [hexact, hq]
            _ < (2 * leadingBit : ℕ) * 2 ^ k := by gcongr
            _ = (leadingBit : ℕ) * 2 ^ (k + 1) := hdouble
        have hleading : (0 : ℚ) < (leadingBit : ℕ) := by norm_num [leadingBit]
        rw [mul_lt_mul_iff_right₀ hleading, zpow_lt_zpow_iff_right₀ one_lt_two] at hless
        omega
      · rw [hleast]
        decide
    rw [ofRat_eq_ofParts hq0 h, hparts, value_ofParts hc he, hexact, withSign_abs]
    exact ⟨isFinite_ofParts hc he, rfl⟩

theorem isFinite_one : (1 : Float).isFinite = true := by
  decide

@[simp] theorem value_one : value 1 = 1 := by
  have hone : Binary.ofFloat 1 = .finite false leadingBit (-52) := by decide
  rw [value_of_ofFloat hone]
  norm_num [leadingBit]

theorem isFinite_half : (Scalar.half : Float).isFinite = true := by
  decide

@[simp] theorem value_half : value Scalar.half = 1 / 2 := by
  have hhalf : Binary.ofFloat Scalar.half = .finite false leadingBit (-53) := by decide
  rw [value_of_ofFloat hhalf]
  norm_num [leadingBit]

theorem mul_one_eq (hx : x.isFinite = true) (hx0 : value x ≠ 0) : x * 1 = x := by
  rw [mul_eq_ofRat hx isFinite_one hx0 (by rw [value_one]; exact one_ne_zero), value_one, mul_one,
    ofRat_value hx hx0]

/-- A whole number of at most fifty-three bits as a double. -/
theorem value_ofNat (hn : n < 2 * leadingBit) :
    (Float.ofNat n).isFinite = true ∧ value (Float.ofNat n) = n := by
  have hfast : Float.ofNat n = n.toUInt64.toFloat * 1 := by
    unfold Float.ofNat OfScientific.ofScientific instOfScientificFloat
    simp only [Float.ofScientific]
    rw [dif_pos ⟨hn, by decide⟩]
    rfl
  have hmodel : n.toUInt64.toFloat =
      Float.ofModel (.pack (UnpackedFloat.normalize Format.binary64
        (n.toUInt64.toNat : ℤ) 0 .positive)) := rfl
  have hnat : n.toUInt64.toNat = n := by
    rw [Nat.toUInt64, UInt64.toNat_ofNat']
    exact Nat.mod_eq_of_lt (hn.trans (by decide))
  rcases Nat.eq_zero_or_pos n with rfl | hpos
  · exact ⟨isFinite_zero, value_zero.trans Nat.cast_zero.symm⟩
  · have hne : (n : ℤ) ≠ 0 := by omega
    have hone : n.toUInt64.toFloat = ofRat n := by
      rw [hmodel, hnat, ofModel_pack_normalize hne]
      congr 1
      simp
    have habs : |(n : ℚ)| = n * 2 ^ (0 : ℤ) := by simp
    obtain ⟨hfinite, hvalue⟩ := value_ofRat hn (by decide) (by decide) habs
    have hvalue0 : value (ofRat n) ≠ 0 := by
      rw [hvalue]
      exact_mod_cast hpos.ne'
    rw [hfast, hone, mul_one_eq hfinite hvalue0]
    exact ⟨hfinite, hvalue⟩

/-- A whole number of any size is rounded once. -/
theorem ofNat_eq_ofRat (hn : 0 < n) : Float.ofNat n = ofRat n := by
  have hne : (n : ℚ) ≠ 0 := by exact_mod_cast hn.ne'
  rcases Nat.lt_or_ge n (2 * leadingBit) with hsmall | hlarge
  · obtain ⟨hfinite, hvalue⟩ := value_ofNat hsmall
    rw [← hvalue, ofRat_value hfinite (by rwa [hvalue])]
  · have hslow : Float.ofNat n = Float.ofModel (.pack (UnpackedFloat.ofScientific Format.binary64 n 0)) := by
      unfold Float.ofNat OfScientific.ofScientific instOfScientificFloat
      simp only [Float.ofScientific]
      rw [dif_neg fun h => absurd h.1 (Nat.not_lt.mpr hlarge)]
      rfl
    have hproduct : UnpackedFloat.ofScientific Format.binary64 n 0 =
        roundWithAccuracy Format.binary64 .positive ((n <<< 53) * 1) (-53 + 0) .exact := by
      have hrange : ¬ (0 : ℤ) < -((2 : ℤ) ^ Format.binary64.exponentBits + n.log2) := by
        have hpow : (0 : ℤ) < 2 ^ Format.binary64.exponentBits := by positivity
        omega
      unfold UnpackedFloat.ofScientific
      rw [dif_neg hn.ne', if_neg (by decide), if_neg hrange, if_pos le_rfl]
      rfl
    have hshifted : (((n <<< 53) * 1 : ℕ) : ℚ) * 2 ^ (-53 + 0 : ℤ) = n := by
      rw [Nat.mul_one, Nat.shiftLeft_eq]
      push_cast
      rw [mul_assoc]
      norm_num
    obtain ⟨m, e, h⟩ := exists_rounds (q := n) (by positivity)
    have he : 0 ≤ e := by
      have hbits : (2 : ℚ) ^ (53 : ℤ) ≤ n := by
        have hlarge' : 2 ^ 53 ≤ n := hlarge
        exact_mod_cast hlarge'
      have hless := h.lt_exponent hbits
      omega
    rw [hslow, hproduct, ofRat_eq_ofParts_of_pos (by positivity) h]
    refine ofModel_pack_roundWithAccuracy ?_ rfl (hshifted.symm ▸ h) (by omega)
    intro hzero
    rw [hzero, Nat.cast_zero, zero_mul] at hshifted
    exact absurd hshifted.symm hne

theorem leadingBit_eq : leadingBit = 2 ^ 52 := by
  decide

/-- A double of at least fifty-three bits has no places. -/
theorem exponent_nonneg (h : Binary.ofFloat x = .finite negative m e)
    (hlarge : (leadingBit : ℚ) ≤ |value x|) : 0 ≤ e := by
  have hlt : (m : ℚ) < (2 * leadingBit : ℕ) := by exact_mod_cast (canonical_of_ofFloat h).1.lt
  rw [value_of_ofFloat h, abs_withSign, abs_of_nonneg (by positivity)] at hlarge
  by_contra hneg
  have hpos : (0 : ℚ) < 2 ^ e := by positivity
  have hsmall : (2 : ℚ) ^ e ≤ 1 / 2 := by
    calc (2 : ℚ) ^ e ≤ 2 ^ (-1 : ℤ) := zpow_le_zpow_right₀ one_le_two (by omega)
      _ = 1 / 2 := by norm_num
  push_cast at hlt
  nlinarith

/-- The parts of a double that is a whole number of at least fifty-three bits. -/
theorem exists_parts_of_leadingBit_le (hx : x.isFinite = true) (hN : value x = N)
    (hlarge : leadingBit ≤ N) :
    ∃ m j : ℕ, leadingBit ≤ m ∧ m < 2 * leadingBit ∧ (j : ℤ) ≤ greatestExponent ∧ N = m * 2 ^ j := by
  obtain ⟨negative, m, e, h⟩ := isFinite_iff.mp hx
  obtain ⟨hc, he⟩ := canonical_of_ofFloat h
  have habs : |value x| = N := by rw [hN, abs_of_nonneg (Nat.cast_nonneg N)]
  have hmagnitude : (m : ℚ) * 2 ^ e = N := by
    rwa [value_of_ofFloat h, abs_withSign, abs_of_nonneg (by positivity)] at habs
  have hnonneg : 0 ≤ e := exponent_nonneg h (by rw [habs]; exact_mod_cast hlarge)
  refine ⟨m, e.toNat, hc.full.resolve_right (by omega), hc.lt, by omega, ?_⟩
  have hcast : (2 : ℚ) ^ e = (2 : ℚ) ^ e.toNat := by rw [← zpow_natCast, Int.toNat_of_nonneg hnonneg]
  rw [hcast] at hmagnitude
  exact_mod_cast hmagnitude.symm

section AddHalf

variable {j : ℕ}

theorem add_half_eq_ofRat (hx : x.isFinite = true) (hN : value x = N) : x + Scalar.half = ofRat (N + 1 / 2) := by
  have hsum : value x + value Scalar.half = N + 1 / 2 := by rw [hN, value_half]
  have hne : (N : ℚ) + 1 / 2 ≠ 0 := by positivity
  rw [add_eq_ofRat hx isFinite_half (by rwa [hsum]), hsum]

theorem floor_add_half_of_lt (hx : x.isFinite = true) (hN : value x = N) (hsmall : N < leadingBit) :
    Scalar.floor (x + Scalar.half) = .ok (N : ℤ) := by
  have habs : |(N : ℚ) + 1 / 2| = (2 * N + 1 : ℕ) * 2 ^ (-1 : ℤ) := by
    rw [abs_of_pos (by positivity)]
    push_cast
    norm_num
    ring
  obtain ⟨hfinite, hvalue⟩ := value_ofRat (by omega) (by decide) (by decide) habs
  have hfloor : ⌊(N : ℚ) + 1 / 2⌋ = N := by
    rw [Int.floor_eq_iff]
    push_cast
    constructor <;> linarith
  rw [add_half_eq_ofRat hx hN, floor_eq hfinite, hvalue, hfloor]

theorem bounds_add_half (hfull : leadingBit ≤ m) (hlt : m < 2 * leadingBit) :
    (2 : ℚ) ^ 52 * 2 ^ (j : ℤ) ≤ m * 2 ^ (j : ℤ) + 1 / 2 ∧
      (m : ℚ) * 2 ^ (j : ℤ) + 1 / 2 < 2 ^ 53 * 2 ^ (j : ℤ) := by
  have hfull' : (2 : ℚ) ^ 52 ≤ m := by
    rw [leadingBit_eq] at hfull
    exact_mod_cast hfull
  have hlt' : (m : ℚ) + 1 ≤ 2 ^ 53 := by
    have hnext : m + 1 ≤ 2 * leadingBit := hlt
    rw [leadingBit_eq] at hnext
    exact_mod_cast hnext
  have hunit : (1 : ℚ) ≤ 2 ^ (j : ℤ) := by
    rw [zpow_natCast]
    exact one_le_pow₀ one_le_two
  constructor <;> nlinarith

/-- With a unit of one a half is a tie, which goes to the even mantissa. -/
theorem rounds_add_half (hfull : leadingBit ≤ m) (hlt : m < 2 * leadingBit) :
    Rounds ((m : ℚ) + 1 / 2) (m + m % 2) 0 := by
  have hbounds := bounds_add_half (j := 0) hfull hlt
  rw [Nat.cast_zero, zpow_zero, mul_one, mul_one, mul_one] at hbounds
  refine ⟨by decide, .inl ?_, ?_, ?_⟩
  · rw [zpow_zero, mul_one]
    exact hbounds.1
  · rw [zpow_zero, mul_one]
    exact hbounds.2
  · rw [zpow_zero, div_one]
    exact .half m

theorem two_le_zpow (hj : 0 < j) : (2 : ℚ) ≤ 2 ^ (j : ℤ) := by
  rw [zpow_natCast]
  exact le_self_pow₀ one_le_two hj.ne'

/-- With a greater unit a half is lost. -/
theorem rounds_add_half_of_pos (hfull : leadingBit ≤ m) (hlt : m < 2 * leadingBit) (hj : 0 < j) :
    Rounds ((m : ℚ) * 2 ^ (j : ℤ) + 1 / 2) m j := by
  have hbounds := bounds_add_half (j := j) hfull hlt
  have hdouble := two_le_zpow hj
  have hsmall : |((m : ℚ) * 2 ^ (j : ℤ) + 1 / 2) / 2 ^ (j : ℤ) - m| < 1 / 2 := by
    have hquotient : ((m : ℚ) * 2 ^ (j : ℤ) + 1 / 2) / 2 ^ (j : ℤ) - m = 1 / 2 / 2 ^ (j : ℤ) := by
      field_simp
      ring
    rw [hquotient, abs_of_pos (by positivity), div_lt_iff₀ (by positivity)]
    linarith
  exact ⟨by omega, .inl hbounds.1, hbounds.2, .of_lt hsmall⟩

/-- Adding a half does not change a whole number with a unit greater than one. -/
theorem add_half_eq_self (hx : x.isFinite = true) (hN : value x = N) (hfull : leadingBit ≤ m)
    (hlt : m < 2 * leadingBit) (hj : 0 < j) (hparts : (N : ℚ) = m * 2 ^ (j : ℤ)) : x + Scalar.half = x := by
  have hpos : (0 : ℚ) < N := by
    have hm : (0 : ℚ) < m := by exact_mod_cast lt_of_lt_of_le (by decide) hfull
    rw [hparts]
    positivity
  have hrounds := rounds_add_half_of_pos hfull hlt hj
  have hexact : Rounds (m * 2 ^ (j : ℤ)) m j := rounds_of_canonical ⟨hlt, by omega, .inl hfull⟩
  rw [← hparts] at hrounds hexact
  rw [add_half_eq_ofRat hx hN, ofRat_eq_ofParts_of_pos (by positivity) hrounds,
    ← ofRat_eq_ofParts_of_pos hpos hexact, ← hN, ofRat_value hx (by rw [hN]; exact hpos.ne')]

/-- The nearest whole number by adding a half and taking the whole part: it makes odd numbers above
`2 ^ 52` even. -/
theorem floor_add_half (hx : x.isFinite = true) (hN : value x = N) :
    Scalar.floor (x + Scalar.half) = .ok ((if N ≤ leadingBit then N else N + N % 2 : ℕ) : ℤ) := by
  rcases Nat.lt_or_ge N leadingBit with hsmall | hlarge
  · rw [floor_add_half_of_lt hx hN hsmall, if_pos hsmall.le]
  · obtain ⟨m, j, hfull, hlt, hj, hparts⟩ := exists_parts_of_leadingBit_le hx hN hlarge
    rcases Nat.eq_zero_or_pos j with rfl | hj0
    · obtain rfl : N = m := by rw [hparts, pow_zero, mul_one]
      have hrounds := rounds_add_half hfull hlt
      have hfinite : (ofParts false (N + N % 2) 0).isFinite = true := hrounds.isFinite (by decide)
      have hvalue := value_ofParts_of_rounds hrounds hfinite
      rw [withSign_false, zpow_zero, mul_one] at hvalue
      rw [add_half_eq_ofRat hx hN, ofRat_eq_ofParts_of_pos (by positivity) hrounds, floor_eq hfinite, hvalue,
        Int.floor_natCast]
      split
      · next hle =>
        have heven : N % 2 = 0 := by
          rw [le_antisymm hle hfull]
          decide
        rw [heven, Nat.add_zero]
      · rfl
    · have hcast : (N : ℚ) = m * 2 ^ (j : ℤ) := by
        rw [hparts, zpow_natCast]
        push_cast
        rfl
      have heven : N % 2 = 0 := by
        obtain ⟨i, rfl⟩ := Nat.exists_eq_add_one.mpr hj0
        rw [hparts, pow_succ, ← mul_assoc, Nat.mul_mod_left]
      rw [add_half_eq_self hx hN hfull hlt hj0 hcast, floor_eq hx, hN, heven, Int.floor_natCast, Nat.add_zero,
        ite_self]

/-- Only a finite double has a whole part. -/
theorem isFinite_of_wholePart {divide : ℤ → ℤ → ℤ} {n : ℤ}
    (h : (Binary.ofFloat x).wholePart divide = .ok n) : x.isFinite = true := by
  cases hx : Binary.ofFloat x with
  | finite negative m e => exact isFinite_iff.mpr ⟨negative, m, e, hx⟩
  | infinite negative =>
    rw [hx] at h
    cases h
  | undefined =>
    rw [hx] at h
    cases h

theorem isFinite_ofRat_of_le (hy : y.isFinite = true) (h : |q| ≤ |value y|) :
    (ofRat q).isFinite = true := by
  rw [← natAbs_div_den] at h
  exact (nearest_le q.den_pos hy h).1

theorem abs_value_ofRat_le (hy : y.isFinite = true) (h : |q| ≤ |value y|) :
    |value (ofRat q)| ≤ |value y| := by
  rw [← natAbs_div_den] at h
  exact (nearest_le q.den_pos hy h).2

theorem le_abs_value_ofRat (hq : q ≠ 0) (hy : y.isFinite = true) (h : |value y| ≤ |q|)
    (hfinite : (ofRat q).isFinite = true) : |value y| ≤ |value (ofRat q)| := by
  rw [← natAbs_div_den q] at h
  exact le_nearest (Int.natAbs_pos.mpr (Rat.num_ne_zero.mpr hq)) q.den_pos hy h hfinite

/-- Adding a half to a finite double does not leave the range. -/
theorem isFinite_add_half (hx : x.isFinite = true) : (x + Scalar.half).isFinite = true := by
  obtain ⟨negative, m, e, h⟩ := isFinite_iff.mp hx
  by_cases hlarge : (leadingBit : ℚ) ≤ value x
  · -- a whole number, whose sum with a half has a whole part
    have habs : (leadingBit : ℚ) ≤ |value x| := hlarge.trans (le_abs_self _)
    have he := exponent_nonneg h habs
    obtain ⟨N, hN⟩ : ∃ N : ℕ, value x = N := by
      refine ⟨m * 2 ^ e.toNat, ?_⟩
      have hcast : (2 : ℚ) ^ e = 2 ^ e.toNat := by rw [← zpow_natCast, Int.toNat_of_nonneg he]
      rw [← abs_of_nonneg ((Nat.cast_nonneg _).trans hlarge), value_of_ofFloat h, abs_withSign,
        abs_of_nonneg (by positivity), hcast]
      push_cast
      rfl
    exact isFinite_of_wholePart (floor_add_half hx hN)
  · have hsmall : value x < leadingBit := not_le.mp hlarge
    by_cases hsum : value x + value Scalar.half = 0
    · exact (add_of_opposite hx isFinite_half hsum).1
    · rw [add_eq_ofRat hx isFinite_half hsum, value_half]
      rcases le_or_gt (value x) (-1 / 4) with hneg | hmore
      · refine isFinite_ofRat_of_le hx ?_
        rw [abs_of_neg (by linarith : value x < 0), abs_le]
        constructor <;> linarith
      · obtain ⟨hfinite, hbound⟩ := value_ofNat (n := leadingBit + 1) (by decide)
        refine isFinite_ofRat_of_le hfinite ?_
        rw [hbound, abs_of_nonneg (by linarith), abs_of_nonneg (by positivity)]
        push_cast
        linarith

end AddHalf

/-- A whole double is the double of its whole part; one that is not whole has a whole part that is
exact, and differs. -/
theorem whole_of_beq_ofInt (hx : Binary.ofFloat x = .finite false m e)
    (heq : (x == Float.ofInt ⌊value x⌋) = true) :
    ∃ N : ℕ, value x = N := by
  have hfinite : x.isFinite = true := isFinite_iff.mpr ⟨_, _, _, hx⟩
  have hvalue : value x = m * 2 ^ e := value_of_ofFloat hx
  rcases le_or_gt 0 e with hnonneg | hneg
  · refine ⟨m * 2 ^ e.toNat, ?_⟩
    rw [hvalue]
    push_cast
    rw [← zpow_natCast, Int.toNat_of_nonneg hnonneg]
  · have hpos : 0 ≤ value x := by
      rw [hvalue]
      positivity
    have hlt : (m : ℚ) < (2 * leadingBit : ℕ) := by exact_mod_cast (canonical_of_ofFloat hx).1.lt
    have hsmall : value x < (2 * leadingBit : ℕ) := by
      have hunit : (2 : ℚ) ^ e ≤ 1 := zpow_le_one_of_nonpos₀ one_le_two hneg.le
      calc value x = m * 2 ^ e := hvalue
        _ ≤ m * 1 := by gcongr
        _ < (2 * leadingBit : ℕ) := by rwa [mul_one]
    have hfloor : 0 ≤ ⌊value x⌋ := Int.floor_nonneg.mpr hpos
    obtain ⟨N, hN⟩ := Int.eq_ofNat_of_zero_le hfloor
    have hbits : N < 2 * leadingBit := by
      have hle : (N : ℚ) ≤ value x := by
        have hle := Int.floor_le (value x)
        rwa [hN, Int.cast_natCast] at hle
      exact_mod_cast hle.trans_lt hsmall
    obtain ⟨hNfinite, hNvalue⟩ := value_ofNat hbits
    have hofInt : Float.ofInt ⌊value x⌋ = Float.ofNat N := by
      rw [hN]
      rfl
    rw [hofInt, beq_iff hfinite hNfinite, hNvalue] at heq
    exact ⟨N, heq⟩

/-- Whether a whole number is found again when it is read as a double and rounded to the nearest whole
number: it has at most fifty-three bits, or it is even and a double. -/
def ReadsBack (n : ℕ) : Prop :=
  n ≤ leadingBit ∨ (n % 2 = 0 ∧ ∃ x : Float, x.isFinite = true ∧ value x = n)

/-- What is found by rounding a double to the nearest whole number is found again. -/
theorem readsBack_of_value (hx : x.isFinite = true) (hN : value x = N) :
    ReadsBack (if N ≤ leadingBit then N else N + N % 2) := by
  split
  · next hsmall => exact .inl hsmall
  · next hlarge =>
    have hlarge' : leadingBit ≤ N := (not_le.mp hlarge).le
    refine .inr ⟨by omega, ?_⟩
    rcases Nat.mod_two_eq_zero_or_one N with heven | hodd
    · exact ⟨x, hx, by rw [hN, heven, Nat.add_zero]⟩
    · obtain ⟨m, j, hfull, hlt, hj, hparts⟩ := exists_parts_of_leadingBit_le hx hN hlarge'
      have hj0 : j = 0 := by
        by_contra hj0
        obtain ⟨i, rfl⟩ := Nat.exists_eq_succ_of_ne_zero hj0
        rw [hparts, Nat.succ_eq_add_one, pow_succ, ← mul_assoc, Nat.mul_mod_left] at hodd
        cases hodd
      have hNm : N = m := by rw [hparts, hj0, pow_zero, mul_one]
      obtain ⟨i, hi⟩ : ∃ i, N + N % 2 = i * 2 := ⟨(N + N % 2) / 2, by omega⟩
      have habs : |((N + N % 2 : ℕ) : ℚ)| = i * 2 ^ (1 : ℤ) := by
        rw [abs_of_nonneg (Nat.cast_nonneg _), hi, zpow_one]
        push_cast
        rfl
      obtain ⟨hfinite, hvalue⟩ := value_ofRat (by omega) (by decide) (by decide) habs
      exact ⟨_, hfinite, hvalue⟩

/-- A whole number is found again from the double nearest to it exactly if it reads back. -/
theorem readsBack_iff (hn : 0 < n) (hfinite : (ofRat n).isFinite = true) (hN : value (ofRat n) = N) :
    (if N ≤ leadingBit then N else N + N % 2) = n ↔ ReadsBack n := by
  constructor
  · rintro rfl
    exact readsBack_of_value hfinite hN
  · rintro (hsmall | ⟨heven, x, hx, hvalue⟩)
    · have habs : |(n : ℚ)| = n * 2 ^ (0 : ℤ) := by simp
      have hbits : n < 2 * leadingBit := lt_of_le_of_lt hsmall (by decide)
      obtain ⟨-, hexact⟩ := value_ofRat hbits (by decide) (by decide) habs
      have hNn : N = n := by
        rw [hexact] at hN
        exact_mod_cast hN.symm
      rw [hNn, if_pos hsmall]
    · have hx0 : value x ≠ 0 := by
        rw [hvalue]
        exact_mod_cast hn.ne'
      have hNn : N = n := by
        rw [← hvalue, ofRat_value hx hx0, hvalue] at hN
        exact_mod_cast hN.symm
      rw [hNn, heven, Nat.add_zero, ite_self]

/-- The double nearest to a whole number is a whole number. -/
theorem exists_value_ofRat (hfinite : (ofRat n).isFinite = true) : ∃ N : ℕ, value (ofRat n) = N := by
  rcases Nat.eq_zero_or_pos n with rfl | hn
  · exact ⟨0, value_zero.trans Nat.cast_zero.symm⟩
  · have hpos : (0 : ℚ) < n := by exact_mod_cast hn
    obtain ⟨m, e, h⟩ := exists_rounds hpos
    rw [ofRat_eq_ofParts_of_pos hpos h] at hfinite ⊢
    rw [value_ofParts_of_rounds h hfinite, withSign_false]
    rcases le_or_gt 0 e with hnonneg | hneg
    · refine ⟨m * 2 ^ e.toNat, ?_⟩
      push_cast
      rw [← zpow_natCast, Int.toNat_of_nonneg hnonneg]
    · refine ⟨n, ?_⟩
      have hunit : (2 : ℚ) ^ e ≠ 0 := zpow_ne_zero e two_ne_zero
      have hwhole : (n : ℚ) / 2 ^ e = (n * 2 ^ (-e).toNat : ℕ) := by
        push_cast
        rw [← zpow_natCast, Int.toNat_of_nonneg (by omega), zpow_neg, div_eq_mul_inv]
      have hm : m = n * 2 ^ (-e).toNat := h.nearest.unique (hwhole ▸ NearestEven.natCast _)
      rw [hm, ← hwhole, div_mul_cancel₀ _ hunit]

/-- The whole number that a printed power is read as. -/
def readPower (n : ℕ) : ℕ :=
  let N := ⌊value (ofRat n)⌋.toNat
  if N ≤ leadingBit then N else N + N % 2

theorem readPower_eq (hN : value (ofRat n) = N) :
    readPower n = if N ≤ leadingBit then N else N + N % 2 := by
  unfold readPower
  rw [hN, Int.floor_natCast, Int.toNat_natCast]

theorem floor_add_half_ofRat (hfinite : (ofRat n).isFinite = true) :
    Scalar.floor (ofRat n + Scalar.half) = .ok (readPower n : ℤ) := by
  obtain ⟨N, hN⟩ := exists_value_ofRat hfinite
  rw [readPower_eq hN, floor_add_half hfinite hN]

theorem readsBack_readPower (hfinite : (ofRat n).isFinite = true) : ReadsBack (readPower n) := by
  obtain ⟨N, hN⟩ := exists_value_ofRat hfinite
  rw [readPower_eq hN]
  exact readsBack_of_value hfinite hN

theorem readPower_eq_self_iff (hn : 0 < n) (hfinite : (ofRat n).isFinite = true) :
    readPower n = n ↔ ReadsBack n := by
  obtain ⟨N, hN⟩ := exists_value_ofRat hfinite
  rw [readPower_eq hN]
  exact readsBack_iff hn hfinite hN

theorem isFinite_of_readsBack (h : ReadsBack n) : (ofRat n).isFinite = true := by
  rcases h with hsmall | ⟨-, x, hx, hvalue⟩
  · have habs : |(n : ℚ)| = n * 2 ^ (0 : ℤ) := by simp
    exact (value_ofRat (lt_of_le_of_lt hsmall (by decide)) (by decide) (by decide) habs).1
  · by_cases hx0 : value x = 0
    · rw [← hvalue, hx0]
      exact isFinite_zero
    · rwa [← hvalue, ofRat_value hx hx0]

/-- No large power is read as a small one. -/
theorem leadingBit_le_readPower (hn : leadingBit ≤ n) (hfinite : (ofRat n).isFinite = true) :
    leadingBit ≤ readPower n := by
  obtain ⟨N, hN⟩ := exists_value_ofRat hfinite
  obtain ⟨hleading, hvalue⟩ := value_ofNat (n := leadingBit) (by decide)
  have hn' : (n : ℚ) ≠ 0 := by
    have hpos : 0 < leadingBit := by decide
    exact_mod_cast (hpos.trans_le hn).ne'
  have hle : |value (Float.ofNat leadingBit)| ≤ |(n : ℚ)| := by
    rw [hvalue, abs_of_nonneg (Nat.cast_nonneg _), abs_of_nonneg (Nat.cast_nonneg _)]
    exact_mod_cast hn
  have hbound := le_abs_value_ofRat hn' hleading hle hfinite
  rw [hvalue, hN, abs_of_nonneg (Nat.cast_nonneg _), abs_of_nonneg (Nat.cast_nonneg _)] at hbound
  have hN' : leadingBit ≤ N := by exact_mod_cast hbound
  rw [readPower_eq hN]
  split <;> omega

theorem readPower_of_le (hn : n ≤ leadingBit) : readPower n = n := by
  have habs : |(n : ℚ)| = n * 2 ^ (0 : ℤ) := by simp
  have hvalue := (value_ofRat (lt_of_le_of_lt hn (by decide)) (by decide) (by decide) habs).2
  rw [readPower_eq hvalue, if_pos hn]

end PolyPlot.Double
