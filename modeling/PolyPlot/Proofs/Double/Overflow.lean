import PolyPlot.Proofs.Double.SquareRoot

namespace PolyPlot.Double

open Float.Model (UnpackedFloat Format)
open Float.Model.UnpackedFloat (Sign)

variable {negative : Bool} {n : ℕ} {k : ℤ} {x y : Float} {q : ℚ}

section Survival

variable {u v : UnpackedFloat}

theorem isFinite_of_isFinite_pack (h : (Float.ofModel (.pack u)).isFinite = true) :
    u.isFinite = true := by
  cases u with
  | zero s | finite s m e hm => rfl
  | notANumber => exact absurd h (by decide)
  | infinity s => cases s <;> exact absurd h (by decide)

theorem isFinite_of_unpacked_neg (h : u.neg.isFinite = true) : u.isFinite = true := by
  cases u with
  | notANumber | infinity s => cases h
  | zero s | finite s m e hm => rfl

theorem isFinite_of_unpacked_add (h : (UnpackedFloat.add Format.binary64 u v).isFinite = true) :
    u.isFinite = true ∧ v.isFinite = true := by
  cases u with
  | notANumber => cases h
  | infinity s =>
    cases v with
    | infinity t => cases s <;> cases t <;> cases h
    | notANumber | zero t | finite t n k hn => cases h
  | zero s | finite s m e hm =>
    cases v with
    | infinity t | notANumber => cases h
    | zero t | finite t n k hn => exact ⟨rfl, rfl⟩

theorem isFinite_of_isFinite_neg (h : (-x).isFinite = true) : x.isFinite = true :=
  isFinite_of_unpacked_neg (isFinite_of_isFinite_pack h)

theorem isFinite_of_isFinite_add (h : (x + y).isFinite = true) :
    x.isFinite = true ∧ y.isFinite = true :=
  isFinite_of_unpacked_add (isFinite_of_isFinite_pack h)

theorem isFinite_of_isFinite_sub (h : (x - y).isFinite = true) :
    x.isFinite = true ∧ y.isFinite = true := by
  have hsub : (UnpackedFloat.sub Format.binary64 x.toModel.unpack y.toModel.unpack).isFinite = true :=
    isFinite_of_isFinite_pack h
  rw [unpacked_sub_eq] at hsub
  exact (isFinite_of_unpacked_add hsub).imp_right isFinite_of_unpacked_neg

theorem isFinite_of_isFinite_mul (h : (x * y).isFinite = true) :
    x.isFinite = true ∧ y.isFinite = true := by
  have h' : (UnpackedFloat.mul Format.binary64 x.toModel.unpack y.toModel.unpack).isFinite = true :=
    isFinite_of_isFinite_pack h
  change x.toModel.unpack.isFinite = true ∧ y.toModel.unpack.isFinite = true
  generalize x.toModel.unpack = u, y.toModel.unpack = v at *
  cases u with
  | notANumber => cases h'
  | infinity s => cases v <;> cases h'
  | zero s | finite s m e hm =>
    cases v with
    | infinity t | notANumber => cases h'
    | zero t | finite t n k hn => exact ⟨rfl, rfl⟩

/-- The divisor of a finite quotient may be infinite. -/
theorem isFinite_of_isFinite_div (h : (x / y).isFinite = true) :
    x.isFinite = true ∧ (y.isFinite = true ∨ ∃ negative, Binary.ofFloat y = .infinite negative) := by
  have h' : (UnpackedFloat.div Format.binary64 x.toModel.unpack y.toModel.unpack).isFinite = true :=
    isFinite_of_isFinite_pack h
  rw [ofFloat_eq_ofUnpacked]
  change x.toModel.unpack.isFinite = true ∧ (y.toModel.unpack.isFinite = true ∨ _)
  generalize x.toModel.unpack = u, y.toModel.unpack = v at *
  cases u with
  | notANumber => cases h'
  | infinity s => cases v <;> cases h'
  | zero s | finite s m e hm =>
    cases v with
    | notANumber => cases h'
    | infinity t => exact ⟨rfl, .inr ⟨_, rfl⟩⟩
    | zero t | finite t n k hn => exact ⟨rfl, .inl rfl⟩

theorem isFinite_of_isFinite_sqrt (h : x.sqrt.isFinite = true) : x.isFinite = true := by
  have h' : (UnpackedFloat.sqrt Format.binary64 x.toModel.unpack).isFinite = true :=
    isFinite_of_isFinite_pack h
  change x.toModel.unpack.isFinite = true
  generalize x.toModel.unpack = u at *
  cases u with
  | notANumber => cases h'
  | infinity s => cases s <;> cases h'
  | zero s | finite s m e hm => rfl

theorem isFinite_of_isFinite_abs (h : x.abs.isFinite = true) : x.isFinite = true := by
  have h' : x.toModel.unpack.abs.isFinite = true := isFinite_of_isFinite_pack h
  change x.toModel.unpack.isFinite = true
  generalize x.toModel.unpack = u at *
  cases u with
  | notANumber => cases h'
  | infinity s => cases h'
  | zero s | finite s m e hm => rfl

/-- The magnitude of what is not finite is below no number. -/
theorem not_abs_lt_of_not_isFinite (hx : ¬ x.isFinite = true) : ¬ x.abs < y := by
  intro hlt
  rw [lt_iff_compare] at hlt
  have hmodel : x.abs = Float.ofModel (.pack x.toModel.unpack.abs) := rfl
  rcases unpack_of_not_isFinite hx with ⟨s, hu⟩ | hu
  · have hinfinite : x.abs.toModel.unpack = .infinity .positive := by
      apply ofUnpacked_injective
      rw [← ofFloat_eq_ofUnpacked, hmodel, hu, UnpackedFloat.abs]
      decide
    rw [hinfinite] at hlt
    exact absurd hlt (infinity_positive_compare_ne _)
  · have hundefined : x.abs.toModel.unpack = .notANumber := by
      rw [hmodel, hu]
      rfl
    rw [hundefined] at hlt
    cases hlt

end Survival

/-- A rational from `2 ^ 1024` on has no finite double. -/
theorem abs_lt_of_isFinite_ofRat (h : (ofRat q).isFinite = true) : |q| < 2 ^ (1024 : ℤ) := by
  by_contra hlarge
  rw [← natAbs_div_den, not_lt] at hlarge
  obtain ⟨negative, m, e, hparts⟩ := isFinite_iff.mp h
  rw [ofRat, nearest_eq_infinite q.den_pos hlarge, ofFloat_infinite] at hparts
  cases hparts

theorem abs_mul_lt_of_isFinite (h : (x * y).isFinite = true) :
    |value x * value y| < 2 ^ (1024 : ℤ) := by
  obtain ⟨hx, hy⟩ := isFinite_of_isFinite_mul h
  by_cases hzero : value x = 0 ∨ value y = 0
  · rw [mul_eq_zero.mpr hzero, abs_zero]
    positivity
  · obtain ⟨hx0, hy0⟩ := not_or.mp hzero
    rw [mul_eq_ofRat hx hy hx0 hy0] at h
    exact abs_lt_of_isFinite_ofRat h

/-- A rational whose double is not finite has an infinite one of its sign. -/
theorem ofFloat_ofRat_of_not_isFinite (h : ¬ (ofRat q).isFinite = true) :
    Binary.ofFloat (ofRat q) = .infinite (q < 0) := by
  by_cases hq : q = 0
  · rw [hq] at h
    exact absurd isFinite_zero h
  · obtain ⟨m, e, hrounds⟩ := exists_rounds (abs_pos.mpr hq)
    obtain ⟨m', e', hc, hparts, -⟩ := hrounds.exists_canonical (q < 0)
    rw [ofRat_eq_ofParts hq hrounds, hparts] at h ⊢
    have he : greatestExponent < e' := not_le.mp fun hle => h (isFinite_ofParts hc hle)
    have hfull : leadingBit ≤ m' := hc.full.resolve_right (by unfold greatestExponent at he; omega)
    rw [ofParts_eq_infinite hfull he]
    exact ofFloat_infinite

theorem exists_unpack_infinite (h : Binary.ofFloat x = .infinite negative) :
    ∃ s, x.toModel.unpack = .infinity s := by
  rw [ofFloat_eq_ofUnpacked] at h
  cases hu : x.toModel.unpack with
  | infinity s => exact ⟨s, rfl⟩
  | finite s m e hm | zero s | notANumber =>
    rw [hu, Binary.ofUnpacked] at h
    cases h

/-- A finite double divided by an infinity is a zero. -/
theorem exists_div_infinite (hx : x.isFinite = true) (hy : Binary.ofFloat y = .infinite negative) :
    ∃ negative, x / y = ofMagnitudeBits negative 0 := by
  obtain ⟨t, hv⟩ := exists_unpack_infinite hy
  have hmodel : x / y = Float.ofModel (.pack (.div Format.binary64 x.toModel.unpack y.toModel.unpack)) :=
    rfl
  obtain ⟨s, hs⟩ :
      ∃ s, UnpackedFloat.div Format.binary64 x.toModel.unpack y.toModel.unpack = .zero s := by
    change x.toModel.unpack.isFinite = true at hx
    rw [hv]
    cases hu : x.toModel.unpack with
    | zero s => exact ⟨s / t, rfl⟩
    | finite s m e hm => exact ⟨s / t, rfl⟩
    | infinity s | notANumber =>
      rw [hu] at hx
      cases hx
  rw [hmodel, hs, ofModel_pack_zero]
  exact ⟨_, rfl⟩

theorem isFinite_div_infinite (hx : x.isFinite = true) (hy : Binary.ofFloat y = .infinite negative) :
    (x / y).isFinite = true := by
  obtain ⟨negative, hzero⟩ := exists_div_infinite hx hy
  rw [hzero]
  exact isFinite_signedZero negative

/-- A finite double divided by a whole number is finite. -/
theorem isFinite_div_ofInt (hx : x.isFinite = true) (hn : 0 < n) :
    (x / Scalar.ofInt (n : ℤ)).isFinite = true := by
  have hnat : (Scalar.ofInt (n : ℤ) : Float) = ofRat n := ofNat_eq_ofRat hn
  rw [hnat]
  by_cases hfinite : (ofRat n).isFinite = true
  · have hne : (n : ℚ) ≠ 0 := by exact_mod_cast hn.ne'
    have hone : |value 1| ≤ |(n : ℚ)| := by
      rw [value_one, abs_one, abs_of_nonneg (by positivity)]
      exact_mod_cast hn
    have hlarge := le_abs_value_ofRat hne isFinite_one hone hfinite
    rw [value_one, abs_one] at hlarge
    refine isFinite_div hx hfinite hx (abs_pos.mp (zero_lt_one.trans_le hlarge)) ?_
    rw [abs_div]
    exact div_le_self (abs_nonneg _) hlarge
  · exact isFinite_div_infinite hx (ofFloat_ofRat_of_not_isFinite hfinite)

/-- A finite double of a magnitude that is no greater than a power of two. -/
structure AtMost (k : ℤ) (x : Float) : Prop where
  isFinite : x.isFinite = true
  abs_value_le : |value x| ≤ 2 ^ k

theorem value_two_zpow (hk : -1022 ≤ k) (hk' : k ≤ 1023) :
    (ofRat (2 ^ k)).isFinite = true ∧ value (ofRat (2 ^ k)) = 2 ^ k := by
  have habs : |(2 : ℚ) ^ k| = leadingBit * 2 ^ (k - 52) := by
    have hleading : ((leadingBit : ℕ) : ℚ) = 2 ^ (52 : ℤ) := by norm_num [leadingBit]
    rw [abs_of_pos (by positivity), hleading, ← zpow_add₀ two_ne_zero]
    congr 1
    ring
  exact value_ofRat (by decide) (by omega) (by unfold greatestExponent; omega) habs

namespace AtMost

variable {j : ℤ}

theorem ofRat (hk : -1022 ≤ k) (hk' : k ≤ 1023) (hq : |q| ≤ 2 ^ k) : AtMost k (ofRat q) := by
  obtain ⟨hfinite, hvalue⟩ := value_two_zpow hk hk'
  have hbound : |value (Double.ofRat (2 ^ k))| = 2 ^ k := by
    rw [hvalue, abs_of_pos (by positivity)]
  rw [← hbound] at hq
  exact ⟨isFinite_ofRat_of_le hfinite hq, hbound ▸ abs_value_ofRat_le hfinite hq⟩

theorem signedZero (negative : Bool) : AtMost k (ofMagnitudeBits negative 0) := by
  refine ⟨isFinite_signedZero negative, ?_⟩
  rw [value_signedZero, abs_zero]
  positivity

theorem neg (hx : AtMost k x) : AtMost k (-x) := by
  refine ⟨isFinite_neg hx.isFinite, ?_⟩
  rw [value_neg hx.isFinite, abs_neg]
  exact hx.abs_value_le

theorem add (hk : -1023 ≤ k) (hk' : k ≤ 1022) (hx : AtMost k x) (hy : AtMost k y) :
    AtMost (k + 1) (x + y) := by
  by_cases hsum : value x + value y = 0
  · obtain ⟨hfinite, hzero⟩ := add_of_opposite hx.isFinite hy.isFinite hsum
    refine ⟨hfinite, ?_⟩
    rw [hzero, abs_zero]
    positivity
  · rw [add_eq_ofRat hx.isFinite hy.isFinite hsum]
    refine .ofRat (by omega) (by omega) ?_
    calc |value x + value y| ≤ |value x| + |value y| := abs_add_le _ _
      _ ≤ 2 ^ k + 2 ^ k := add_le_add hx.abs_value_le hy.abs_value_le
      _ = 2 ^ (k + 1) := by
        rw [zpow_add_one₀ two_ne_zero]
        ring

theorem sub (hk : -1023 ≤ k) (hk' : k ≤ 1022) (hx : AtMost k x) (hy : AtMost k y) :
    AtMost (k + 1) (x - y) := by
  rw [sub_eq_add_opposite hy.isFinite]
  exact hx.add hk hk' hy.neg

theorem div (hk : -1022 ≤ k - j) (hk' : k - j ≤ 1023) (hx : AtMost k x) (hy : y.isFinite = true)
    (hle : 2 ^ j ≤ |value y|) : AtMost (k - j) (x / y) := by
  have hpos : (0 : ℚ) < 2 ^ j := by positivity
  have hy0 : value y ≠ 0 := abs_pos.mp (hpos.trans_le hle)
  by_cases hx0 : value x = 0
  · obtain ⟨negative, hzero⟩ := exists_div_signedZero hx.isFinite hy hx0 hy0
    rw [hzero]
    exact .signedZero negative
  · rw [div_eq_ofRat hx.isFinite hy hx0 hy0]
    refine .ofRat hk hk' ?_
    rw [abs_div, zpow_sub₀ two_ne_zero]
    gcongr
    exact hx.abs_value_le

end AtMost

/-- A finite double is below `2 ^ 1024`. -/
theorem abs_value_lt (hx : x.isFinite = true) : |value x| < 2 ^ (1024 : ℤ) := by
  by_cases hx0 : value x = 0
  · rw [hx0, abs_zero]
    positivity
  · apply abs_lt_of_isFinite_ofRat
    rwa [ofRat_value hx hx0]

/-- The square root of a finite double that is not negative. -/
theorem atMost_sqrt (hx : x.isFinite = true) (hnonneg : 0 ≤ value x) : AtMost 513 x.sqrt := by
  rcases hnonneg.eq_or_lt with hzero | hpos
  · obtain ⟨s, hu⟩ := exists_unpack_zero hx hzero.symm
    have hroot : x.sqrt = ofMagnitudeBits (isNegative s) 0 := by
      have hmodel : x.sqrt = Float.ofModel (.pack (.sqrt Format.binary64 x.toModel.unpack)) := rfl
      rw [hmodel, hu, ← ofModel_pack_zero]
      rfl
    rw [hroot]
    exact .signedZero _
  · obtain ⟨q, hq, hsquare, hroot⟩ := exists_sqrt_eq_ofRat hx hpos
    rw [hroot]
    refine .ofRat (by decide) (by decide) ?_
    have hbound : q ^ 2 ≤ (2 ^ (513 : ℤ)) ^ 2 := by
      calc q ^ 2 ≤ 4 * value x := hsquare
        _ ≤ 4 * 2 ^ (1024 : ℤ) := by
          have hlt := abs_value_lt hx
          rw [abs_of_pos hpos] at hlt
          linarith
        _ = 2 ^ (513 : ℤ) * 2 ^ (513 : ℤ) := by
          have hfour : (4 : ℚ) = 2 ^ (2 : ℤ) := by norm_num
          rw [hfour, ← zpow_add₀ two_ne_zero, ← zpow_add₀ two_ne_zero]
          rfl
        _ = (2 ^ (513 : ℤ)) ^ 2 := (sq _).symm
    rw [abs_of_pos hq]
    exact le_of_sq_le_sq hbound (by positivity)

end PolyPlot.Double
