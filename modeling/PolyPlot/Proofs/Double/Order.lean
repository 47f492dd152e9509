import PolyPlot.Proofs.Double.Arithmetic

namespace PolyPlot.Double

open Float.Model (UnpackedFloat Format)
open Float.Model.UnpackedFloat (Sign)

variable {m m' : ℕ} {e e' : ℤ} {x y z : Float}

theorem compare_map {α : Type} [LinearOrder α] {f : α → ℚ} (hf : StrictMono f) (a b : α) :
    compare (f a) (f b) = compare a b := by
  rcases lt_trichotomy a b with h | rfl | h
  · exact (compare_lt_iff_lt.mpr (hf h)).trans (compare_lt_iff_lt.mpr h).symm
  · exact (compare_eq_iff_eq.mpr rfl).trans (compare_eq_iff_eq.mpr rfl).symm
  · exact (compare_gt_iff_gt.mpr (hf h)).trans (compare_gt_iff_gt.mpr h).symm

theorem compare_neg_neg (a b : ℚ) : compare (-a) (-b) = (compare a b).swap := by
  rcases lt_trichotomy a b with h | rfl | h
  · rw [compare_lt_iff_lt.mpr h, compare_gt_iff_gt.mpr (neg_lt_neg h)]
    rfl
  · rw [compare_eq_iff_eq.mpr rfl, compare_eq_iff_eq.mpr rfl]
    rfl
  · rw [compare_gt_iff_gt.mpr h, compare_lt_iff_lt.mpr (neg_lt_neg h)]
    rfl

/-- Canonical magnitudes compare by their exponents first. -/
theorem compare_magnitude (hc : Canonical m e) (hc' : Canonical m' e') :
    (compare e e').then (compare m m') = compare ((m : ℚ) * 2 ^ e) (m' * 2 ^ e') := by
  have hrounds := rounds_of_canonical hc
  have hrounds' := rounds_of_canonical hc'
  rcases lt_trichotomy e e' with h | rfl | h
  · have hless : (m : ℚ) * 2 ^ e < m' * 2 ^ e' :=
      not_le.mp fun hle => absurd (hrounds'.exponent_mono hrounds hle) (not_le.mpr h)
    rw [compare_lt_iff_lt.mpr h, compare_lt_iff_lt.mpr hless]
    rfl
  · have hpos : (0 : ℚ) < 2 ^ e := by positivity
    have hmono : StrictMono fun m : ℕ => (m : ℚ) * 2 ^ e := fun _ _ hless =>
      mul_lt_mul_of_pos_right (Nat.cast_lt.mpr hless) hpos
    rw [compare_eq_iff_eq.mpr rfl, compare_map hmono]
    rfl
  · have hmore : (m' : ℚ) * 2 ^ e' < m * 2 ^ e :=
      not_le.mp fun hle => absurd (hrounds.exponent_mono hrounds' hle) (not_le.mpr h)
    rw [compare_gt_iff_gt.mpr h, compare_gt_iff_gt.mpr hmore]
    rfl

/-- A finite double, unpacked: a zero, or a magnitude with one of the signs. -/
theorem unpack_of_isFinite (hx : x.isFinite = true) :
    (∃ s, x.toModel.unpack = .zero s ∧ value x = 0) ∨
      (∃ m e, ∃ hm : 0 < m, x.toModel.unpack = .finite .negative m e hm ∧ Canonical m e ∧
        value x = -(m * 2 ^ e) ∧ value x < 0) ∨
      ∃ m e, ∃ hm : 0 < m, x.toModel.unpack = .finite .positive m e hm ∧ Canonical m e ∧
        value x = m * 2 ^ e ∧ 0 < value x := by
  by_cases hzero : value x = 0
  · obtain ⟨s, hu⟩ := exists_unpack_zero hx hzero
    exact .inl ⟨s, hu, hzero⟩
  · obtain ⟨s, m, e, hm, hu, hc, hvalue⟩ := exists_unpack_finite hx hzero
    have hpos : (0 : ℚ) < m * 2 ^ e := magnitude_pos hm
    cases s with
    | negative =>
      have hopposite : value x = -(m * 2 ^ e) := by simpa [Sign.apply] using hvalue
      exact .inr (.inl ⟨m, e, hm, hu, hc, hopposite, hopposite ▸ neg_neg_of_pos hpos⟩)
    | positive =>
      have hsame : value x = m * 2 ^ e := by simpa [Sign.apply] using hvalue
      exact .inr (.inr ⟨m, e, hm, hu, hc, hsame, hsame ▸ hpos⟩)

/-- Finite doubles compare as their values do: by their signs, or by their magnitudes. -/
theorem compare_eq (hx : x.isFinite = true) (hy : y.isFinite = true) :
    x.toModel.unpack.compare y.toModel.unpack = some (compare (value x) (value y)) := by
  obtain ⟨s, hu, hx⟩ | ⟨m, e, hm, hu, hc, hvalue, hx⟩ | ⟨m, e, hm, hu, hc, hvalue, hx⟩ :=
      unpack_of_isFinite hx <;>
    obtain ⟨t, hv, hy⟩ | ⟨n, k, hn, hv, hd, hvalue', hy⟩ | ⟨n, k, hn, hv, hd, hvalue', hy⟩ :=
      unpack_of_isFinite hy <;>
    rw [hu, hv]
  · rw [hx, hy, compare_eq_iff_eq.mpr rfl]
    rfl
  · rw [compare_gt_iff_gt.mpr (hy.trans_eq hx.symm)]
    rfl
  · rw [compare_lt_iff_lt.mpr (hx.trans_lt hy)]
    rfl
  · rw [compare_lt_iff_lt.mpr (hx.trans_eq hy.symm)]
    rfl
  · rw [hvalue, hvalue', compare_neg_neg, ← compare_magnitude hc hd]
    rfl
  · rw [compare_lt_iff_lt.mpr (hx.trans hy)]
    rfl
  · rw [compare_gt_iff_gt.mpr (hy.trans_lt hx)]
    rfl
  · rw [compare_gt_iff_gt.mpr (hy.trans hx)]
    rfl
  · rw [hvalue, hvalue', ← compare_magnitude hc hd]
    rfl

theorem lt_iff_compare : x < y ↔ x.toModel.unpack.compare y.toModel.unpack = some .lt := by
  have hmodel : x < y ↔ x.toModel.unpack.lt y.toModel.unpack = true := decide_eq_true_iff
  rw [hmodel, UnpackedFloat.lt, beq_iff_eq]

theorem le_iff_compare :
    x ≤ y ↔ ∃ order, x.toModel.unpack.compare y.toModel.unpack = some order ∧ order.isLE = true := by
  have hmodel : x ≤ y ↔ x.toModel.unpack.le y.toModel.unpack = true := decide_eq_true_iff
  rw [hmodel, UnpackedFloat.le, Option.any_eq_true]

theorem lt_iff (hx : x.isFinite = true) (hy : y.isFinite = true) : x < y ↔ value x < value y := by
  rw [lt_iff_compare, compare_eq hx hy, Option.some_inj, compare_lt_iff_lt]

theorem le_iff (hx : x.isFinite = true) (hy : y.isFinite = true) : x ≤ y ↔ value x ≤ value y := by
  simp only [le_iff_compare, compare_eq hx hy, Option.some_inj, exists_eq_left', ← Ordering.ne_gt_iff_isLE,
    compare_le_iff_le]

theorem beq_iff (hx : x.isFinite = true) (hy : y.isFinite = true) :
    (x == y) = true ↔ value x = value y := by
  have hmodel : (x == y) = x.toModel.unpack.beq y.toModel.unpack := rfl
  rw [hmodel, UnpackedFloat.beq, compare_eq hx hy, beq_iff_eq, Option.some_inj, compare_eq_iff_eq]

theorem compare_infinity (hx : x.isFinite = true) (s : Sign) :
    x.toModel.unpack.compare (.infinity s) = some (if isNegative s then .gt else .lt) := by
  change x.toModel.unpack.isFinite = true at hx
  generalize x.toModel.unpack = u at *
  cases u with
  | infinity t | notANumber => cases hx
  | zero t | finite t m e hm => cases s <;> rfl

theorem infinity_compare (hx : x.isFinite = true) (s : Sign) :
    UnpackedFloat.compare (.infinity s) x.toModel.unpack = some (if isNegative s then .lt else .gt) := by
  change x.toModel.unpack.isFinite = true at hx
  generalize x.toModel.unpack = u at *
  cases u with
  | infinity t | notANumber => cases hx
  | zero t | finite t m e hm => cases s <;> rfl

theorem compare_notANumber (u : UnpackedFloat) : u.compare .notANumber = none := by
  cases u <;> rfl

/-- Nothing is below the negative infinity. -/
theorem compare_infinity_negative_ne (u : UnpackedFloat) :
    u.compare (.infinity .negative) ≠ some .lt := by
  cases u with
  | infinity s => cases s <;> decide
  | notANumber | zero s | finite s m e hm => exact nofun

/-- The positive infinity is below nothing. -/
theorem infinity_positive_compare_ne (u : UnpackedFloat) :
    UnpackedFloat.compare (.infinity .positive) u ≠ some .lt := by
  cases u with
  | infinity s => cases s <;> decide
  | notANumber | zero s | finite s m e hm => exact nofun

/-- A double that is not finite, unpacked. -/
theorem unpack_of_not_isFinite (hx : ¬ x.isFinite = true) :
    (∃ s, x.toModel.unpack = .infinity s) ∨ x.toModel.unpack = .notANumber := by
  change ¬ x.toModel.unpack.isFinite = true at hx
  generalize x.toModel.unpack = u at *
  cases u with
  | infinity s => exact .inl ⟨s, rfl⟩
  | notANumber => exact .inr rfl
  | zero s | finite s m e hm => exact absurd rfl hx

/-- What lies between finite doubles is finite. -/
theorem isFinite_of_le_of_le (hx : x.isFinite = true) (hz : z.isFinite = true) (hxy : x ≤ y)
    (hyz : y ≤ z) : y.isFinite = true := by
  obtain ⟨low, hlow, hlowLE⟩ := le_iff_compare.mp hxy
  obtain ⟨high, hhigh, hhighLE⟩ := le_iff_compare.mp hyz
  by_contra hy
  rcases unpack_of_not_isFinite hy with ⟨s, hu⟩ | hu
  · rw [hu, compare_infinity hx, Option.some_inj] at hlow
    rw [hu, infinity_compare hz, Option.some_inj] at hhigh
    subst hlow hhigh
    cases s with
    | negative => cases hlowLE
    | positive => cases hhighLE
  · rw [hu, compare_notANumber] at hlow
    cases hlow

/-- A double that is not finite and lies above a finite one lies above every finite one. -/
theorem lt_of_not_isFinite (hx : x.isFinite = true) (hz : z.isFinite = true) (hzy : z < y)
    (hy : ¬ y.isFinite = true) : x < y := by
  rw [lt_iff_compare] at hzy ⊢
  rcases unpack_of_not_isFinite hy with ⟨s, hu⟩ | hu
  · rw [hu, compare_infinity hz] at hzy
    rw [hu, compare_infinity hx, hzy]
  · rw [hu, compare_notANumber] at hzy
    cases hzy

/-- What is neither above nor below zero is a zero. -/
theorem abs_of_isZero (h : Scalar.isZero x = true) : x.abs = 0 := by
  have hbounds : x ≤ 0 ∧ 0 ≤ x := by simpa [Scalar.isZero] using h
  obtain ⟨hle, hge⟩ := hbounds
  have hfinite : x.isFinite = true := isFinite_of_le_of_le isFinite_zero isFinite_zero hge hle
  rw [le_iff hfinite isFinite_zero, value_zero] at hle
  rw [le_iff isFinite_zero hfinite, value_zero] at hge
  obtain ⟨negative, rfl⟩ := exists_signedZero hfinite (le_antisymm hle hge)
  cases negative <;> decide

theorem isZero_iff (hx : x.isFinite = true) : Scalar.isZero x = true ↔ value x = 0 := by
  simp only [Scalar.isZero, Bool.and_eq_true, decide_eq_true_eq, le_iff hx isFinite_zero,
    le_iff isFinite_zero hx, value_zero]
  exact le_antisymm_iff.symm

theorem lt_or_le (hx : x.isFinite = true) (hy : 0 < y) : x < y ∨ y ≤ x := by
  by_cases hfinite : y.isFinite = true
  · rw [lt_iff hx hfinite, le_iff hfinite hx]
    exact lt_or_ge _ _
  · exact .inl (lt_of_not_isFinite hx isFinite_zero hy hfinite)

/-- Of two doubles in strict order none is undefined. -/
theorem le_of_lt (h : x < y) : x ≤ y :=
  le_iff_compare.mpr ⟨.lt, lt_iff_compare.mp h, rfl⟩

theorem unpack_of_lt (h : x < y) (hy : ¬ y.isFinite = true) :
    y.toModel.unpack = .infinity .positive := by
  rw [lt_iff_compare] at h
  rcases unpack_of_not_isFinite hy with ⟨s, hv⟩ | hv
  · cases s with
    | positive => exact hv
    | negative =>
      rw [hv] at h
      exact absurd h (compare_infinity_negative_ne _)
  · rw [hv, compare_notANumber] at h
    cases h

/-- What lies above a double is not undefined. -/
theorem ofFloat_ne_undefined (h : x < y) : Binary.ofFloat y ≠ .undefined := by
  by_cases hy : y.isFinite = true
  · obtain ⟨negative, m, e, hparts⟩ := isFinite_iff.mp hy
    simp [hparts]
  · rw [ofFloat_eq_ofUnpacked, unpack_of_lt h hy]
    simp [Binary.ofUnpacked]

theorem unpack_of_gt (h : x < y) (hx : ¬ x.isFinite = true) :
    x.toModel.unpack = .infinity .negative := by
  rw [lt_iff_compare] at h
  rcases unpack_of_not_isFinite hx with ⟨s, hu⟩ | hu
  · cases s with
    | negative => exact hu
    | positive =>
      rw [hu] at h
      exact absurd h (infinity_positive_compare_ne _)
  · rw [hu] at h
    cases h

theorem unpack_of_le (h : y ≤ z) (hz : ¬ z.isFinite = true)
    (hy : y.isFinite = true ∨ y.toModel.unpack = .infinity .positive) :
    z.toModel.unpack = .infinity .positive := by
  obtain ⟨order, hcompare, hLE⟩ := le_iff_compare.mp h
  rcases unpack_of_not_isFinite hz with ⟨s, hw⟩ | hw
  · cases s with
    | positive => exact hw
    | negative =>
      have hgreater : y.toModel.unpack.compare z.toModel.unpack = some .gt := by
        rw [hw]
        rcases hy with hy | hy
        · exact compare_infinity hy .negative
        · rw [hy]
          rfl
      rw [hgreater, Option.some_inj] at hcompare
      subst hcompare
      cases hLE
  · rw [hw, compare_notANumber] at hcompare
    cases hcompare

/-- The order of doubles is transitive, infinities included. -/
theorem lt_of_lt_le (hxy : x < y) (hyz : y ≤ z) : x < z := by
  by_cases hz : z.isFinite = true
  · have hy : y.isFinite = true := by
      by_contra hy
      obtain ⟨order, hcompare, hLE⟩ := le_iff_compare.mp hyz
      rw [unpack_of_lt hxy hy, infinity_compare hz, Option.some_inj] at hcompare
      subst hcompare
      cases hLE
    by_cases hx : x.isFinite = true
    · rw [lt_iff hx hy] at hxy
      rw [le_iff hy hz] at hyz
      exact (lt_iff hx hz).mpr (hxy.trans_le hyz)
    · rw [lt_iff_compare, unpack_of_gt hxy hx, infinity_compare hz]
      rfl
  · have hinfinite : z.toModel.unpack = .infinity .positive :=
      unpack_of_le hyz hz (or_iff_not_imp_left.mpr (unpack_of_lt hxy))
    rw [lt_iff_compare, hinfinite]
    by_cases hx : x.isFinite = true
    · rw [compare_infinity hx]
      rfl
    · rw [unpack_of_gt hxy hx]
      rfl

/-- What is not at most a finite double is above it or undefined. -/
theorem not_le_iff (hy : y.isFinite = true) : ¬ x ≤ y ↔ y < x ∨ Binary.ofFloat x = .undefined := by
  by_cases hx : x.isFinite = true
  · have hdefined : Binary.ofFloat x ≠ .undefined := by
      obtain ⟨negative, m, e, hparts⟩ := isFinite_iff.mp hx
      simp [hparts]
    rw [le_iff hx hy, lt_iff hy hx, not_le, or_iff_left hdefined]
  · rw [le_iff_compare, lt_iff_compare, ofFloat_eq_ofUnpacked]
    rcases unpack_of_not_isFinite hx with ⟨s, hu⟩ | hu
    · rw [hu, infinity_compare hy, compare_infinity hy]
      cases s <;> simp [isNegative, Binary.ofUnpacked]
    · rw [hu, compare_notANumber]
      simp [Binary.ofUnpacked, UnpackedFloat.compare]

/-- What is not below a positive double is above it, or the same. -/
theorem lt_iff_ne_of_le (hx : 0 < x) (hy : y.isFinite = true) (hle : x ≤ y) : x < y ↔ y ≠ x := by
  have hfinite : x.isFinite = true := isFinite_of_le_of_le isFinite_zero hy (le_of_lt hx) hle
  rw [lt_iff isFinite_zero hfinite, value_zero] at hx
  rw [le_iff hfinite hy] at hle
  rw [lt_iff hfinite hy, hle.lt_iff_ne, ne_comm]
  refine not_congr ⟨fun h => ?_, congrArg value⟩
  rw [← ofRat_value hy (hx.trans_le hle).ne', h, ofRat_value hfinite hx.ne']

/-- The greatest whole number not above a finite double. -/
theorem floor_eq (hx : x.isFinite = true) : Scalar.floor x = .ok ⌊value x⌋ := by
  obtain ⟨negative, m, e, h⟩ := isFinite_iff.mp hx
  have hfloor : Scalar.floor x = (Binary.ofFloat x).wholePart Int.fdiv := rfl
  have hvalue : value x = (Binary.signed negative (Binary.numerator m e) : ℚ) / Binary.denominator e := by
    rw [value, h, Binary.rational?, Rat.mkRat_eq_div]
    rfl
  rw [hfloor, h, Binary.wholePart, hvalue, Rat.floor_intCast_div_natCast,
    Int.fdiv_eq_ediv_of_nonneg _ (by omega)]

/-- The whole part of a finite double that is not negative. -/
theorem truncate_eq (hx : Binary.ofFloat x = .finite false m e) : truncate x = .ok ⌊value x⌋ := by
  have hvalue : value x = ((Binary.numerator m e : ℕ) : ℤ) / (Binary.denominator e : ℕ) := by
    rw [value, hx, Binary.rational?, Rat.mkRat_eq_div]
    rfl
  rw [truncate, hx, Binary.wholePart, hvalue, Rat.floor_intCast_div_natCast, Binary.signed]
  rfl

end PolyPlot.Double
