import PolyPlot.Proofs.Double.Normalization

namespace PolyPlot.Double

open Float.Model (UnpackedFloat Format)
open Float.Model.UnpackedFloat (Sign decreaseExponent)

variable {negative : Bool} {m n : ℕ} {e k : ℤ} {x y : Float} {q : ℚ}

theorem apply_neg (s : Sign) (a : ℤ) : (-s).apply a = -s.apply a := by
  cases s with
  | negative => exact (neg_neg a).symm
  | positive => rfl

theorem isNegative_neg (s : Sign) : isNegative (-s) = !isNegative s := by
  cases s <;> rfl

theorem ofFloat_neg (h : Binary.ofFloat x = .finite negative m e) :
    Binary.ofFloat (-x) = .finite (!negative) m e := by
  obtain ⟨hc, he⟩ := canonical_of_ofFloat h
  have hmodel : -x = Float.ofModel (.pack x.toModel.unpack.neg) := rfl
  obtain ⟨s, rfl, ⟨hm, hu⟩ | ⟨rfl, rfl, hu⟩⟩ := exists_unpack h
  · rw [hmodel, hu, UnpackedFloat.neg, ofModel_pack_finite hc, ofFloat_ofParts hc he, isNegative_neg]
  · rw [hmodel, hu, UnpackedFloat.neg, ofModel_pack_zero, ← ofParts_zero _ (-1074), ofFloat_ofParts hc he,
      isNegative_neg]

theorem ofFloat_abs (h : Binary.ofFloat x = .finite negative m e) :
    Binary.ofFloat x.abs = .finite false m e := by
  obtain ⟨hc, he⟩ := canonical_of_ofFloat h
  have hmodel : x.abs = Float.ofModel (.pack x.toModel.unpack.abs) := rfl
  obtain ⟨s, rfl, ⟨hm, hu⟩ | ⟨rfl, rfl, hu⟩⟩ := exists_unpack h
  · rw [hmodel, hu, UnpackedFloat.abs, ofModel_pack_finite hc, ofFloat_ofParts hc he]
    rfl
  · rw [hmodel, hu, UnpackedFloat.abs, ofModel_pack_zero, ← ofParts_zero _ (-1074), ofFloat_ofParts hc he]
    rfl

theorem isFinite_neg (hx : x.isFinite = true) : (-x).isFinite = true := by
  obtain ⟨negative, m, e, h⟩ := isFinite_iff.mp hx
  exact isFinite_iff.mpr ⟨_, _, _, ofFloat_neg h⟩

theorem isFinite_abs (hx : x.isFinite = true) : x.abs.isFinite = true := by
  obtain ⟨negative, m, e, h⟩ := isFinite_iff.mp hx
  exact isFinite_iff.mpr ⟨_, _, _, ofFloat_abs h⟩

theorem value_neg (hx : x.isFinite = true) : value (-x) = -value x := by
  obtain ⟨negative, m, e, h⟩ := isFinite_iff.mp hx
  rw [value_of_ofFloat h, value_of_ofFloat (ofFloat_neg h)]
  cases negative <;> simp

theorem value_abs (hx : x.isFinite = true) : value x.abs = |value x| := by
  obtain ⟨negative, m, e, h⟩ := isFinite_iff.mp hx
  have hnonneg : (0 : ℚ) ≤ m * 2 ^ e := by positivity
  rw [value_of_ofFloat h, value_of_ofFloat (ofFloat_abs h), abs_withSign, abs_of_nonneg hnonneg,
    withSign_false]

/-- Finite doubles of one magnitude have one absolute value. -/
theorem abs_eq_of_value (hx : x.isFinite = true) (hy : y.isFinite = true) (h : |value x| = |value y|) :
    x.abs = y.abs := by
  obtain ⟨s, m, e, hparts⟩ := isFinite_iff.mp hx
  obtain ⟨t, m', e', hparts'⟩ := isFinite_iff.mp hy
  rw [← ofRat_value_of_nonneg (ofFloat_abs hparts), ← ofRat_value_of_nonneg (ofFloat_abs hparts'),
    value_abs hx, value_abs hy, h]

/-- A signed whole number of units is one of smaller units. -/
theorem apply_decreaseExponent (s : Sign) (m : ℕ) (hk : k ≤ e) :
    ((s.apply (decreaseExponent m e k).1 : ℤ) : ℚ) * 2 ^ k = (s.apply m : ℤ) * 2 ^ e := by
  have hmantissa : ((decreaseExponent m e k).1 : ℚ) * 2 ^ k = m * 2 ^ e := by
    rw [decreaseExponent, Nat.shiftLeft_eq, Nat.cast_mul, Nat.cast_pow, Nat.cast_ofNat, mul_assoc,
      ← zpow_natCast, ← zpow_add₀ two_ne_zero]
    congr 2
    omega
  cases s with
  | negative =>
    rw [Sign.apply, Sign.apply, Int.cast_neg, Int.cast_neg, Int.cast_natCast, Int.cast_natCast, neg_mul,
      neg_mul, hmantissa]
  | positive => exact hmantissa

/-- The sum of two doubles as a whole number of the smaller of their units. -/
theorem exists_sum (hx : x.isFinite = true) (hy : y.isFinite = true) (hx0 : value x ≠ 0)
    (hy0 : value y ≠ 0) :
    ∃ (a : ℤ) (k : ℤ), (a : ℚ) * 2 ^ k = value x + value y ∧
      x + y = Float.ofModel (.pack (UnpackedFloat.normalize Format.binary64 a k .positive)) := by
  obtain ⟨s, m, e, hm, hu, -, hvalue⟩ := exists_unpack_finite hx hx0
  obtain ⟨t, n, k, hn, hv, -, hvalue'⟩ := exists_unpack_finite hy hy0
  refine ⟨s.apply (decreaseExponent m e (min e k)).1 + t.apply (decreaseExponent n k (min e k)).1,
    min e k, ?_, ?_⟩
  · rw [Int.cast_add, add_mul, apply_decreaseExponent s m (min_le_left e k),
      apply_decreaseExponent t n (min_le_right e k), hvalue, hvalue']
  · have hmodel : x + y = Float.ofModel (.pack (.add Format.binary64 x.toModel.unpack y.toModel.unpack)) :=
      rfl
    rw [hmodel, hu, hv]
    rfl

theorem zero_add_eq (hx : x.isFinite = true) (hx0 : value x = 0) (hy0 : value y ≠ 0)
    (hy : y.isFinite = true) :
    x + y = y := by
  obtain ⟨s, hu⟩ := exists_unpack_zero hx hx0
  obtain ⟨t, m, e, hm, hv, -⟩ := exists_unpack_finite hy hy0
  have hmodel : x + y = Float.ofModel (.pack (.add Format.binary64 x.toModel.unpack y.toModel.unpack)) :=
    rfl
  have hsum : UnpackedFloat.add Format.binary64 (.zero s) (.finite t m e hm) = .finite t m e hm := rfl
  rw [hmodel, hu, hv, hsum, ← hv, ofModel_pack_unpack]

theorem add_zero_eq (hx : x.isFinite = true) (hx0 : value x ≠ 0) (hy : y.isFinite = true)
    (hy0 : value y = 0) :
    x + y = x := by
  obtain ⟨s, hu⟩ := exists_unpack_zero hy hy0
  obtain ⟨t, m, e, hm, hv, -⟩ := exists_unpack_finite hx hx0
  have hmodel : x + y = Float.ofModel (.pack (.add Format.binary64 x.toModel.unpack y.toModel.unpack)) :=
    rfl
  have hsum : UnpackedFloat.add Format.binary64 (.finite t m e hm) (.zero s) = .finite t m e hm := rfl
  rw [hmodel, hu, hv, hsum, ← hv, ofModel_pack_unpack]

/-- A sum other than zero is rounded once. -/
theorem add_eq_ofRat (hx : x.isFinite = true) (hy : y.isFinite = true) (hne : value x + value y ≠ 0) :
    x + y = ofRat (value x + value y) := by
  by_cases hx0 : value x = 0
  · rw [hx0, zero_add] at hne ⊢
    rw [zero_add_eq hx hx0 hne hy, ofRat_value hy hne]
  · by_cases hy0 : value y = 0
    · rw [hy0, add_zero, ofRat_value hx hx0, add_zero_eq hx hx0 hy hy0]
    · obtain ⟨a, k, hsum, hround⟩ := exists_sum hx hy hx0 hy0
      have ha : a ≠ 0 := by
        rintro rfl
        rw [Int.cast_zero, zero_mul] at hsum
        exact hne hsum.symm
      rw [hround, ofModel_pack_normalize ha, hsum]

theorem exists_signedZero (hx : x.isFinite = true) (hx0 : value x = 0) :
    ∃ negative, x = ofMagnitudeBits negative 0 := by
  obtain ⟨s, hu⟩ := exists_unpack_zero hx hx0
  refine ⟨isNegative s, ?_⟩
  rw [← ofModel_pack_zero, ← hu, ofModel_pack_unpack]

theorem isFinite_zero : (0 : Float).isFinite = true :=
  isFinite_signedZero false

@[simp] theorem value_zero : value 0 = 0 :=
  value_signedZero false

/-- A zero added to the positive zero is the positive zero. -/
theorem zero_add_eq_zero (hx : x.isFinite = true) (hx0 : value x = 0) : 0 + x = 0 := by
  obtain ⟨negative, rfl⟩ := exists_signedZero hx hx0
  cases negative with
  | false => decide
  | true => decide

/-- A sum with a zero is exact. -/
theorem add_of_zero (hx : x.isFinite = true) (hy : y.isFinite = true) (h : value x = 0 ∨ value y = 0) :
    (x + y).isFinite = true ∧ value (x + y) = value x + value y := by
  by_cases hx0 : value x = 0
  · rw [hx0, zero_add]
    by_cases hy0 : value y = 0
    · obtain ⟨s, rfl⟩ := exists_signedZero hx hx0
      obtain ⟨t, rfl⟩ := exists_signedZero hy hy0
      have hsum : ofMagnitudeBits s 0 + ofMagnitudeBits t 0 = ofMagnitudeBits (s && t) 0 := by
        cases s <;> cases t <;> decide
      rw [hsum, value_signedZero, value_signedZero]
      exact ⟨isFinite_signedZero _, rfl⟩
    · rw [zero_add_eq hx hx0 hy0 hy]
      exact ⟨hy, rfl⟩
  · have hy0 : value y = 0 := h.resolve_left hx0
    rw [add_zero_eq hx hx0 hy hy0, hy0, add_zero]
    exact ⟨hx, rfl⟩

/-- A sum that is zero is exact. -/
theorem add_of_opposite (hx : x.isFinite = true) (hy : y.isFinite = true) (h : value x + value y = 0) :
    (x + y).isFinite = true ∧ value (x + y) = 0 := by
  by_cases hzero : value x = 0 ∨ value y = 0
  · obtain ⟨hfinite, hvalue⟩ := add_of_zero hx hy hzero
    exact ⟨hfinite, hvalue.trans h⟩
  · obtain ⟨hx0, hy0⟩ := not_or.mp hzero
    obtain ⟨a, k, hsum, hround⟩ := exists_sum hx hy hx0 hy0
    have hunit : (2 : ℚ) ^ k ≠ 0 := zpow_ne_zero k two_ne_zero
    have ha : a = 0 := by
      rw [h, mul_eq_zero] at hsum
      exact_mod_cast hsum.resolve_right hunit
    have hsigned : x + y = ofMagnitudeBits false 0 := by
      rw [hround, ha]
      exact ofModel_pack_zero .positive
    rw [hsigned]
    exact ⟨isFinite_signedZero false, value_signedZero false⟩

/-- Subtraction is addition of the opposite, infinities and undefined values included. -/
theorem unpacked_sub_eq (u v : UnpackedFloat) :
    UnpackedFloat.sub Format.binary64 u v = UnpackedFloat.add Format.binary64 u v.neg := by
  cases u with
  | notANumber => rfl
  | infinity s | zero s => cases v <;> rfl
  | finite s m e hm =>
    cases v with
    | finite t n k hn =>
      rw [UnpackedFloat.neg, UnpackedFloat.add, UnpackedFloat.sub]
      simp only [apply_neg, Int.sub_eq_add_neg]
    | notANumber | infinity t | zero t => rfl

theorem unpack_neg (hx : x.isFinite = true) : (-x).toModel.unpack = x.toModel.unpack.neg := by
  obtain ⟨negative, m, e, h⟩ := isFinite_iff.mp hx
  apply ofUnpacked_injective
  rw [← ofFloat_eq_ofUnpacked, ofFloat_neg h]
  obtain ⟨t, rfl, ⟨hm, hu⟩ | ⟨rfl, rfl, hu⟩⟩ := exists_unpack h
  · rw [hu, UnpackedFloat.neg, Binary.ofUnpacked, isNegative_neg]
  · rw [hu, UnpackedFloat.neg, Binary.ofUnpacked, isNegative_neg]

/-- A difference is the sum with the opposite. -/
theorem sub_eq_add_opposite (hy : y.isFinite = true) : x - y = x + -y := by
  have hsub : x - y = Float.ofModel (.pack (.sub Format.binary64 x.toModel.unpack y.toModel.unpack)) := rfl
  rw [hsub, unpacked_sub_eq, ← unpack_neg hy]
  rfl

/-- A difference other than zero is rounded once. -/
theorem sub_eq_ofRat (hx : x.isFinite = true) (hy : y.isFinite = true) (hne : value x - value y ≠ 0) :
    x - y = ofRat (value x - value y) := by
  have hvalue : value x - value y = value x + value (-y) := by
    rw [value_neg hy]
    ring
  rw [sub_eq_add_opposite hy, add_eq_ofRat hx (isFinite_neg hy) (hvalue ▸ hne), hvalue]

theorem sub_of_zero (hx : x.isFinite = true) (hy : y.isFinite = true) (h : value x = 0 ∨ value y = 0) :
    (x - y).isFinite = true ∧ value (x - y) = value x - value y := by
  have hsum := add_of_zero hx (isFinite_neg hy) (by rwa [value_neg hy, neg_eq_zero])
  rw [value_neg hy] at hsum
  rw [sub_eq_add_opposite hy, sub_eq_add_neg]
  exact hsum

theorem isNegative_mul (s t : Sign) : isNegative (s * t) = xor (isNegative s) (isNegative t) := by
  cases s <;> cases t <;> rfl

/-- A product with a zero is a zero. -/
theorem exists_mul_signedZero (hx : x.isFinite = true) (hy : y.isFinite = true)
    (hzero : value x = 0 ∨ value y = 0) : ∃ negative, x * y = ofMagnitudeBits negative 0 := by
  have hmodel : x * y = Float.ofModel (.pack (.mul Format.binary64 x.toModel.unpack y.toModel.unpack)) :=
    rfl
  obtain ⟨negative, m, e, h⟩ := isFinite_iff.mp hx
  obtain ⟨negative', n, k, h'⟩ := isFinite_iff.mp hy
  obtain ⟨s, -, hs⟩ := exists_unpack h
  obtain ⟨t, -, ht⟩ := exists_unpack h'
  refine ⟨isNegative (s * t), ?_⟩
  rw [hmodel, ← ofModel_pack_zero]
  rcases hs with ⟨hm, hu⟩ | ⟨-, -, hu⟩
  · rcases ht with ⟨hn, hv⟩ | ⟨-, -, hv⟩
    · rw [value_eq_zero_iff h, value_eq_zero_iff h'] at hzero
      omega
    · rw [hu, hv]
      rfl
  · rcases ht with ⟨hn, hv⟩ | ⟨-, -, hv⟩
    · rw [hu, hv]
      rfl
    · rw [hu, hv]
      rfl

/-- A product is rounded to a unit no smaller than the product of the units. -/
theorem exponent_le_of_mul {m' : ℕ} {e' : ℤ} (hm : 0 < m) (hm' : 0 < m') (hc : Canonical m e)
    (hc' : Canonical m' e') (h : Rounds ((m * m' : ℕ) * 2 ^ (e + e')) n k) : e + e' ≤ k := by
  have hleast := h.least
  by_cases hfull : leadingBit ≤ m * m'
  · have hfull' : ((leadingBit : ℕ) : ℚ) ≤ (m * m' : ℕ) := by exact_mod_cast hfull
    have hleading : ((leadingBit : ℕ) : ℚ) = 2 ^ (52 : ℤ) := by norm_num [leadingBit]
    have hlower : (2 : ℚ) ^ (52 + (e + e')) ≤ (m * m' : ℕ) * 2 ^ (e + e') := by
      rw [zpow_add₀ two_ne_zero, ← hleading]
      gcongr
    have hless := h.lt_exponent hlower
    omega
  · have hfew : m < leadingBit := lt_of_le_of_lt (Nat.le_mul_of_pos_right m hm') (not_le.mp hfull)
    have hfew' : m' < leadingBit := lt_of_le_of_lt (Nat.le_mul_of_pos_left m' hm) (not_le.mp hfull)
    have he := hc.full.resolve_left (by omega)
    have he' := hc'.full.resolve_left (by omega)
    omega

/-- A product other than zero is rounded once. -/
theorem mul_eq_ofRat (hx : x.isFinite = true) (hy : y.isFinite = true) (hx0 : value x ≠ 0)
    (hy0 : value y ≠ 0) :
    x * y = ofRat (value x * value y) := by
  obtain ⟨s, m, e, hm, hu, hc, hvalue⟩ := exists_unpack_finite hx hx0
  obtain ⟨t, m', e', hm', hv, hc', hvalue'⟩ := exists_unpack_finite hy hy0
  have hmodel : x * y = Float.ofModel (.pack (.mul Format.binary64 x.toModel.unpack y.toModel.unpack)) :=
    rfl
  have hproduct : UnpackedFloat.mul Format.binary64 (.finite s m e hm) (.finite t m' e' hm') =
      UnpackedFloat.roundWithAccuracy Format.binary64 (s * t) (m * m') (e + e') .exact := rfl
  have hpos : (0 : ℚ) < (m * m' : ℕ) * 2 ^ (e + e') := by positivity
  have hsplit : ((m * m' : ℕ) : ℚ) * 2 ^ (e + e') = (m * 2 ^ e) * (m' * 2 ^ e') := by
    rw [zpow_add₀ two_ne_zero, Nat.cast_mul]
    ring
  have hsigned : value x * value y = withSign (isNegative (s * t)) ((m * m' : ℕ) * 2 ^ (e + e')) := by
    rw [hvalue, hvalue', hsplit, isNegative_mul]
    cases s <;> cases t <;> simp [isNegative, Sign.apply]
  obtain ⟨n, k, h⟩ := exists_rounds hpos
  rw [hsigned, ofRat_withSign hpos h, hmodel, hu, hv, hproduct]
  exact ofModel_pack_roundWithAccuracy (fun hzero => absurd hzero (Nat.mul_pos hm hm').ne') rfl h
    (exponent_le_of_mul hm hm' hc hc' h)

end PolyPlot.Double
