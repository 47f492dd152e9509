import PolyPlot.Proofs.Double.Overflow

namespace PolyPlot.Double

open Float.Model (UnpackedFloat Format)

variable {negative negative' : Bool} {m m' : ℕ} {e e' c : ℤ} {x y s : Float} {q : ℚ}

/-- A double is a whole number of any unit that is not greater than its own. -/
theorem exists_value_eq_of_le (h : Binary.ofFloat x = .finite negative m e) (hc : c ≤ e) :
    ∃ a : ℤ, value x = a * 2 ^ c := by
  have hunits : (m : ℚ) * 2 ^ e = (m * 2 ^ (e - c).toNat : ℕ) * 2 ^ c := by
    rw [Nat.cast_mul, Nat.cast_pow, Nat.cast_ofNat, ← zpow_natCast (2 : ℚ) (e - c).toNat,
      Int.toNat_of_nonneg (by omega), mul_assoc, ← zpow_add₀ two_ne_zero, sub_add_cancel]
  rw [value_of_ofFloat h, hunits]
  cases negative with
  | false => exact ⟨(m * 2 ^ (e - c).toNat : ℕ), by rw [withSign_false, Int.cast_natCast]⟩
  | true =>
    exact ⟨-(m * 2 ^ (e - c).toNat : ℕ), by rw [withSign_true, Int.cast_neg, Int.cast_natCast, neg_mul]⟩

/-- Finite doubles are whole multiples of the least one. -/
theorem exists_value_eq (hx : x.isFinite = true) : ∃ a : ℤ, value x = a * 2 ^ (-1074 : ℤ) := by
  obtain ⟨negative, m, e, h⟩ := isFinite_iff.mp hx
  exact exists_value_eq_of_le h (canonical_of_ofFloat h).1.least

/-- The values of finite doubles are apart by the least double. -/
theorem add_le_of_value_lt (hx : x.isFinite = true) (hy : y.isFinite = true) (hlt : value x < value y) :
    value x + 2 ^ (-1074 : ℤ) ≤ value y := by
  obtain ⟨a, ha⟩ := exists_value_eq hx
  obtain ⟨b, hb⟩ := exists_value_eq hy
  have hunit : (0 : ℚ) < 2 ^ (-1074 : ℤ) := by positivity
  rw [ha, hb] at hlt ⊢
  have hstep : (a : ℚ) + 1 ≤ b := by exact_mod_cast lt_of_mul_lt_mul_right hlt hunit.le
  calc (a : ℚ) * 2 ^ (-1074 : ℤ) + 2 ^ (-1074 : ℤ) = (a + 1) * 2 ^ (-1074 : ℤ) := by ring
    _ ≤ b * 2 ^ (-1074 : ℤ) := mul_le_mul_of_nonneg_right hstep hunit.le

theorem le_value_of_pos (hx : x.isFinite = true) (hpos : 0 < value x) : 2 ^ (-1074 : ℤ) ≤ value x := by
  have h := add_le_of_value_lt isFinite_zero hx (by rwa [value_zero])
  rwa [value_zero, zero_add] at h

theorem value_eq_of_nonneg (h : Binary.ofFloat x = .finite negative m e) (hnonneg : 0 ≤ value x) :
    value x = m * 2 ^ e := by
  rw [← abs_of_nonneg hnonneg, value_of_ofFloat h, abs_withSign, abs_of_nonneg (by positivity)]

/-- A finite double nearest to a positive rational has the rounded parts of it. -/
theorem exists_rounds_of_pos (hq : 0 < q) :
    ∃ m e, Rounds q m e ∧ ((ofRat q).isFinite = true → value (ofRat q) = m * 2 ^ e) := by
  obtain ⟨m, e, h⟩ := exists_rounds hq
  refine ⟨m, e, h, fun hfinite => ?_⟩
  rw [ofRat_eq_ofParts_of_pos hq h] at hfinite ⊢
  rw [value_ofParts_of_rounds h hfinite, withSign_false]

/-- A rational more than half a unit above a double is not rounded to it. -/
theorem lt_of_rounds {m' : ℕ} {e' : ℤ} (hc : Canonical m e) (h : Rounds q m' e')
    (hq : m * 2 ^ e + 2 ^ (e - 1) < q) : (m : ℚ) * 2 ^ e < m' * 2 ^ e' := by
  have hunit : (0 : ℚ) < 2 ^ e := by positivity
  have hhalf : (2 : ℚ) ^ (e - 1) = 2 ^ e / 2 := by rw [zpow_sub_one₀ two_ne_zero, div_eq_mul_inv]
  have hrounds := rounds_of_canonical hc
  have hle : (m : ℚ) * 2 ^ e ≤ q := by linarith
  refine lt_of_le_of_ne (hrounds.value_mono h hle) fun heq => ?_
  rcases (hrounds.exponent_mono h hle).lt_or_eq with hlt | rfl
  · -- The mantissa would be half as great, but it is full.
    have hless : (m' : ℚ) * 2 ^ e' < leadingBit * 2 ^ e' := by
      have hm : (m : ℚ) < (2 * leadingBit : ℕ) := by exact_mod_cast hc.lt
      have hnext : (2 : ℚ) ^ (e + 1) ≤ 2 ^ e' := zpow_le_zpow_right₀ one_le_two (by omega)
      rw [zpow_add_one₀ two_ne_zero] at hnext
      calc (m' : ℚ) * 2 ^ e' = m * 2 ^ e := heq.symm
        _ < (2 * leadingBit : ℕ) * 2 ^ e := mul_lt_mul_of_pos_right hm hunit
        _ = leadingBit * (2 ^ e * 2) := by
          push_cast
          ring
        _ ≤ leadingBit * 2 ^ e' := by gcongr
    have hfew : m' < leadingBit := by
      exact_mod_cast lt_of_mul_lt_mul_right hless (by positivity : (0 : ℚ) ≤ 2 ^ e')
    have hfull := h.full
    have hleast := hc.least
    omega
  · have hm : (m : ℚ) = m' := mul_right_cancel₀ hunit.ne' heq
    have hnear := (abs_le.mp h.nearest.le_half).2
    rw [← hm, sub_le_iff_le_add, div_le_iff₀ hunit] at hnear
    linarith

/-- A positive double is not lost in a sum below its reach. -/
theorem lt_value_add (hx : x.isFinite = true) (hs : s.isFinite = true) (hsum : (x + s).isFinite = true)
    (hnonneg : 0 ≤ value x) (hreach : value x < 2 ^ (53 + c)) (hstep : 2 ^ (c - 1) < value s) :
    value x < value (x + s) := by
  obtain ⟨negative, m, e, h⟩ := isFinite_iff.mp hx
  have hc := (canonical_of_ofFloat h).1
  have hvalue := value_eq_of_nonneg h hnonneg
  have hpos : 0 < value s := lt_trans (by positivity) hstep
  have hhalf : 2 ^ (e - 1) < value s := by
    rw [hvalue] at hreach
    rcases hc.exponent_lt hreach with hlower | rfl
    · exact lt_of_le_of_lt (zpow_le_zpow_right₀ one_le_two (by omega)) hstep
    · exact lt_of_lt_of_le (zpow_lt_zpow_right₀ one_lt_two (by omega)) (le_value_of_pos hs hpos)
  have hsum0 : 0 < value x + value s := by linarith
  obtain ⟨m', e', hrounds, hrounded⟩ := exists_rounds_of_pos hsum0
  rw [add_eq_ofRat hx hs hsum0.ne'] at hsum ⊢
  rw [hrounded hsum, hvalue]
  refine lt_of_rounds hc hrounds ?_
  linarith

/-- Half a unit above the mantissa of a power of two is rounded down. -/
theorem rounds_reach (hc : -1074 ≤ c) : Rounds (2 ^ (53 + c) + 2 ^ c) leadingBit (c + 1) := by
  have hunit : (0 : ℚ) < 2 ^ c := by positivity
  have hpower : (2 : ℚ) ^ (53 + c) = 2 ^ 53 * 2 ^ c := by
    rw [zpow_add₀ two_ne_zero]
    rfl
  have hnext : (2 : ℚ) ^ (c + 1) = 2 ^ c * 2 := zpow_add_one₀ two_ne_zero c
  refine ⟨by omega, .inl ?_, ?_, ?_⟩
  · rw [hpower, hnext]
    linarith
  · rw [hpower, hnext]
    linarith
  · have hquotient : ((2 : ℚ) ^ (53 + c) + 2 ^ c) / 2 ^ (c + 1) = (leadingBit : ℕ) + 1 / 2 := by
      have hleading : ((leadingBit : ℕ) : ℚ) = 2 ^ 52 := by norm_num [leadingBit]
      rw [hpower, hnext, hleading, div_eq_iff (by positivity)]
      ring
    rw [hquotient]
    exact NearestEven.half leadingBit

/-- A positive double does not lead past its reach. -/
theorem value_add_le_reach (hx : x.isFinite = true) (hs : s.isFinite = true) (hnonneg : 0 ≤ value x)
    (hle : value x ≤ 2 ^ (53 + c)) (hpos : 0 < value s) (hstep : value s ≤ 2 ^ c) (hc : c ≤ 970) :
    (x + s).isFinite = true ∧ 0 ≤ value (x + s) ∧ value (x + s) ≤ 2 ^ (53 + c) := by
  have hleast : -1074 ≤ c :=
    (zpow_le_zpow_iff_right₀ one_lt_two).mp ((le_value_of_pos hs hpos).trans hstep)
  have hreach : (leadingBit : ℚ) * 2 ^ (c + 1) = 2 ^ (53 + c) := by
    have hleading : ((leadingBit : ℕ) : ℚ) = 2 ^ (52 : ℤ) := by norm_num [leadingBit]
    rw [hleading, ← zpow_add₀ two_ne_zero]
    congr 1
    ring
  have hsum : 0 < value x + value s := by linarith
  obtain ⟨m, e, hrounds⟩ := exists_rounds hsum
  have hmono := hrounds.value_mono (rounds_reach hleast) (by linarith)
  obtain ⟨m', e', hcanonical, hparts, hvalue⟩ := hrounds.exists_canonical false
  have hexponent : e' ≤ c + 1 := by
    refine (rounds_of_canonical hcanonical).exponent_mono
      (rounds_of_canonical ⟨by decide, by omega, .inl le_rfl⟩ : Rounds _ leadingBit (c + 1)) ?_
    rw [hvalue]
    exact hmono
  have hgreatest : e' ≤ greatestExponent := by
    unfold greatestExponent
    omega
  rw [add_eq_ofRat hx hs hsum.ne', ofRat_eq_ofParts_of_pos hsum hrounds, hparts,
    value_ofParts hcanonical hgreatest, withSign_false, hvalue, ← hreach]
  exact ⟨isFinite_ofParts hcanonical hgreatest, by positivity, hmono⟩

/-- Rounding does not lead past a double above. -/
theorem value_ofRat_le (hx : x.isFinite = true) (hfinite : (ofRat q).isFinite = true) (hle : q ≤ value x) :
    value (ofRat q) ≤ value x := by
  rcases lt_trichotomy q 0 with hneg | rfl | hpos
  · obtain ⟨m, e, h⟩ := exists_rounds (abs_pos.mpr hneg.ne)
    have hvalue : value (ofRat q) ≤ 0 := by
      rw [ofRat_eq_ofParts hneg.ne h] at hfinite ⊢
      rw [value_ofParts_of_rounds h hfinite, decide_eq_true hneg, withSign_true, neg_nonpos]
      positivity
    rcases le_or_gt 0 (value x) with hx0 | hx0
    · exact hvalue.trans hx0
    · have hbound : |value x| ≤ |value (ofRat q)| := by
        refine le_abs_value_ofRat hneg.ne hx ?_ hfinite
        rw [abs_of_neg hx0, abs_of_neg hneg]
        exact neg_le_neg hle
      rwa [abs_of_neg hx0, abs_of_nonpos hvalue, neg_le_neg_iff] at hbound
  · rwa [ofRat, Rat.num_zero, Int.natAbs_zero, nearest_zero, value_signedZero]
  · have hx0 : 0 < value x := hpos.trans_le hle
    have hbound : |q| ≤ |value x| := by rwa [abs_of_pos hpos, abs_of_pos hx0]
    exact (le_abs_self _).trans ((abs_value_ofRat_le hx hbound).trans_eq (abs_of_pos hx0))

/-- A negative double leads down, to negative infinity at last. -/
theorem add_of_neg (hx : x.isFinite = true) (hs : s.isFinite = true) (hneg : value s < 0) :
    (x + s).isFinite = true ∧ value (x + s) ≤ value x ∨ Binary.ofFloat (x + s) = .infinite true := by
  by_cases hsum : value x + value s = 0
  · obtain ⟨hfinite, hzero⟩ := add_of_opposite hx hs hsum
    exact .inl ⟨hfinite, by linarith⟩
  · rw [add_eq_ofRat hx hs hsum]
    by_cases hfinite : (ofRat (value x + value s)).isFinite = true
    · exact .inl ⟨hfinite, value_ofRat_le hx hfinite (by linarith)⟩
    · have hdown : value x + value s < 0 := by
        by_contra hup
        refine hfinite (isFinite_ofRat_of_le hx ?_)
        rw [abs_of_nonneg (not_lt.mp hup), abs_of_nonneg (by linarith)]
        linarith
      rw [ofFloat_ofRat_of_not_isFinite hfinite, decide_eq_true hdown]
      exact .inr rfl

theorem add_eq_self_of_infinite (hx : Binary.ofFloat x = .infinite negative) (hs : s.isFinite = true) :
    x + s = x := by
  obtain ⟨t, hu⟩ := exists_unpack_infinite hx
  have hmodel : x + s = Float.ofModel (.pack (.add Format.binary64 x.toModel.unpack s.toModel.unpack)) :=
    rfl
  have hsum : UnpackedFloat.add Format.binary64 (.infinity t) s.toModel.unpack = .infinity t := by
    change s.toModel.unpack.isFinite = true at hs
    cases hv : s.toModel.unpack with
    | zero t' | finite t' m e hm => rfl
    | infinity t' | notANumber =>
      rw [hv] at hs
      cases hs
  rw [hmodel, hu, hsum, ← hu, ofModel_pack_unpack]

theorem natAbs_fmod_lt (a : ℤ) {b : ℤ} (hb : b ≠ 0) : (a.fmod b).natAbs < b.natAbs := by
  rcases hb.lt_or_gt with hneg | hpos
  · have hopposite : a.fmod b = -(-a).fmod (-b) := by rw [← Int.neg_fmod_neg, neg_neg, neg_neg]
    have hnonneg := Int.fmod_nonneg_of_pos (-a) (neg_pos.mpr hneg)
    have hlt := Int.fmod_lt_of_pos (-a) (neg_pos.mpr hneg)
    omega
  · have hnonneg := Int.fmod_nonneg_of_pos a hpos
    have hlt := Int.fmod_lt_of_pos a hpos
    omega

/-- The remainder of finite doubles is a rounded number of common units, of the sign of the divisor. -/
theorem exists_remainder_eq (hx : Binary.ofFloat x = .finite negative m e)
    (hy : Binary.ofFloat y = .finite negative' m' e') (hm' : m' ≠ 0) :
    ∃ n, n < Binary.numerator m' (e' - min e e') ∧ remainder x y =
      nearest negative' (Binary.numerator n (min e e')) (Binary.denominator (min e e')) := by
  have hdivisor : Binary.signed negative' (Binary.numerator m' (e' - min e e')) ≠ 0 := by
    have hpos : 0 < Binary.numerator m' (e' - min e e') :=
      Nat.mul_pos (Nat.pos_of_ne_zero hm') (Nat.pow_pos two_pos)
    cases negative' <;> simp only [Binary.signed, Bool.false_eq_true, if_true, if_false] <;> omega
  refine ⟨_, ?_, by rw [remainder, hx, hy]⟩
  refine (natAbs_fmod_lt _ hdivisor).trans_eq ?_
  cases negative' <;> simp [Binary.signed]

/-- The remainder of finite doubles is finite, no greater than the divisor, and of its sign. -/
theorem remainder_spec (hx : x.isFinite = true) (hy : y.isFinite = true) (hy0 : value y ≠ 0) :
    (remainder x y).isFinite = true ∧ |value (remainder x y)| ≤ |value y| ∧
      (0 < value y → 0 ≤ value (remainder x y)) := by
  obtain ⟨negative, m, e, h⟩ := isFinite_iff.mp hx
  obtain ⟨negative', m', e', h'⟩ := isFinite_iff.mp hy
  obtain ⟨n, hn, hremainder⟩ := exists_remainder_eq h h' (mt (value_eq_zero_iff h').mpr hy0)
  have hdenominator : 0 < Binary.denominator (min e e') := Nat.pow_pos two_pos
  have hle : (Binary.numerator n (min e e') : ℚ) / Binary.denominator (min e e') ≤ |value y| := by
    have hn' : (n : ℚ) ≤ m' * 2 ^ (e' - min e e') := by
      rw [← Int.toNat_of_nonneg (sub_nonneg.mpr (min_le_right e e')), zpow_natCast]
      exact_mod_cast hn.le
    rw [Binary.numerator_div_denominator, value_of_ofFloat h', abs_withSign,
      abs_of_nonneg (by positivity : (0 : ℚ) ≤ m' * 2 ^ e')]
    calc (n : ℚ) * 2 ^ min e e' ≤ m' * 2 ^ (e' - min e e') * 2 ^ min e e' := by gcongr
      _ = m' * 2 ^ e' := by rw [mul_assoc, ← zpow_add₀ two_ne_zero, sub_add_cancel]
  obtain ⟨hfinite, hbound⟩ := nearest_le hdenominator hy hle
  rw [hremainder]
  refine ⟨hfinite, hbound, fun hpos => ?_⟩
  have hsign : negative' = false := by
    cases negative' with
    | false => rfl
    | true =>
      rw [value_of_ofFloat h', withSign_true, neg_pos] at hpos
      exact absurd hpos (not_lt.mpr (by positivity))
  subst hsign
  exact value_nearest_nonneg hdenominator hfinite

end PolyPlot.Double
