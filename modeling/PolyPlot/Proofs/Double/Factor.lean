import PolyPlot.Proofs.Double.Growth

namespace PolyPlot.Double

open Float.Model (UnpackedFloat Format)
open Float.Model.UnpackedFloat (Sign)

variable {x y : Float} {q : ℚ}

theorem unpack_of_infinite (h : Binary.ofFloat y = .infinite false) :
    y.toModel.unpack = .infinity .positive := by
  obtain ⟨s, hs⟩ := exists_unpack_infinite h
  rw [ofFloat_eq_ofUnpacked, hs] at h
  cases s with
  | negative => cases h
  | positive => exact hs

theorem le_of_infinite (hx : x.isFinite = true) (hy : Binary.ofFloat y = .infinite false) : x ≤ y := by
  rw [le_iff_compare, unpack_of_infinite hy, compare_infinity hx]
  exact ⟨.lt, rfl, rfl⟩

/-- Rounding does not lead past a double below. -/
theorem le_ofRat (hx : x.isFinite = true) (hpos : 0 < value x) (hle : value x ≤ q) : x ≤ ofRat q := by
  have hq : 0 < q := hpos.trans_le hle
  by_cases hfinite : (ofRat q).isFinite = true
  · have hnonneg : 0 ≤ value (ofRat q) := by
      obtain ⟨m, e, -, hvalue⟩ := exists_rounds_of_pos hq
      rw [hvalue hfinite]
      positivity
    have hbound : |value x| ≤ |value (ofRat q)| := by
      apply le_abs_value_ofRat hq.ne' hx _ hfinite
      rwa [abs_of_pos hpos, abs_of_pos hq]
    rw [le_iff hx hfinite]
    rwa [abs_of_pos hpos, abs_of_nonneg hnonneg] at hbound
  · apply le_of_infinite hx
    rw [ofFloat_ofRat_of_not_isFinite hfinite, decide_eq_false hq.not_gt]

theorem finite_or_infinite_of_one_le (hy : 1 ≤ y) :
    y.isFinite = true ∧ 1 ≤ value y ∨ Binary.ofFloat y = .infinite false := by
  by_cases hfinite : y.isFinite = true
  · rw [le_iff isFinite_one hfinite, value_one] at hy
    exact .inl ⟨hfinite, hy⟩
  · right
    rw [ofFloat_eq_ofUnpacked, unpack_of_le hy hfinite (.inl isFinite_one)]
    rfl

theorem mul_infinite (hx : x.isFinite = true) (hpos : 0 < value x)
    (hy : Binary.ofFloat y = .infinite false) : x * y = y := by
  have hmodel : x * y = Float.ofModel (.pack (.mul Format.binary64 x.toModel.unpack y.toModel.unpack)) :=
    rfl
  obtain ⟨s, m, e, hm, hu, -, hvalue⟩ := exists_unpack_finite hx hpos.ne'
  have hv := unpack_of_infinite hy
  cases s with
  | negative =>
    have hmagnitude : (0 : ℚ) < m * 2 ^ e := magnitude_pos hm
    simp only [hvalue, Sign.apply, Int.cast_neg, Int.cast_natCast, neg_mul, Left.neg_pos_iff] at hpos
    exact absurd hpos hmagnitude.not_gt
  | positive =>
    have hproduct : UnpackedFloat.mul Format.binary64 (.finite .positive m e hm) (.infinity .positive) =
        .infinity .positive := rfl
    rw [hmodel, hu, hv, hproduct, ← hv, ofModel_pack_unpack]

/-- A product with a factor that is at least one is not below a double, also if it overflows. -/
theorem le_mul_factor (hx : x.isFinite = true) (hpos : 0 < value x) (hy : 1 ≤ y) : x ≤ x * y := by
  rcases finite_or_infinite_of_one_le hy with ⟨hfinite, hone⟩ | hinfinite
  · rw [mul_eq_ofRat hx hfinite hpos.ne' (zero_lt_one.trans_le hone).ne']
    exact le_ofRat hx hpos (le_mul_of_one_le_right hpos.le hone)
  · rw [mul_infinite hx hpos hinfinite]
    exact le_of_infinite hx hinfinite

theorem le_factor_mul (hx : x.isFinite = true) (hpos : 0 < value x) (hfinite : y.isFinite = true)
    (hy : 1 ≤ y) : x ≤ y * x := by
  rw [le_iff isFinite_one hfinite, value_one] at hy
  rw [mul_eq_ofRat hfinite hx (zero_lt_one.trans_le hy).ne' hpos.ne']
  exact le_ofRat hx hpos (le_mul_of_one_le_left hpos.le hy)

/-- A quotient by a divisor that is at least one is finite and not above a double. -/
theorem value_div_factor_le (hx : x.isFinite = true) (hpos : 0 < value x) (hy : 1 ≤ y) :
    (x / y).isFinite = true ∧ value (x / y) ≤ value x := by
  rcases finite_or_infinite_of_one_le hy with ⟨hfinite, hone⟩ | hinfinite
  · have hne : value y ≠ 0 := (zero_lt_one.trans_le hone).ne'
    have hle : value x / value y ≤ value x := div_le_self hpos.le hone
    have hquotient : (x / y).isFinite = true := by
      apply isFinite_div hx hfinite hx hne
      rwa [abs_of_pos (div_pos hpos (zero_lt_one.trans_le hone)), abs_of_pos hpos]
    rw [div_eq_ofRat hx hfinite hpos.ne' hne] at hquotient ⊢
    exact ⟨hquotient, value_ofRat_le hx hquotient hle⟩
  · obtain ⟨negative, hzero⟩ := exists_div_infinite hx hinfinite
    rw [hzero, value_signedZero]
    exact ⟨isFinite_signedZero negative, hpos.le⟩

theorem isZero_of_pos (hx : 0 < x) : Scalar.isZero x = false := by
  by_contra hzero
  have hbounds : x ≤ 0 ∧ 0 ≤ x := by simpa [Scalar.isZero] using hzero
  have hless : (0 : Float) < 0 := lt_of_lt_le hx hbounds.1
  exact absurd hless (by decide)

end PolyPlot.Double
