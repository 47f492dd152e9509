import PolyPlot.Proofs.Double.Rounding

namespace PolyPlot.Double

variable {negative : Bool} {m m' : ℕ} {e e' : ℤ} {x y : Float} {q q' : ℚ}

/-- The exact value of a finite double; every other double has the value zero. -/
def value (x : Float) : ℚ :=
  (Binary.ofFloat x).rational?.getD 0

/-- A magnitude with a sign. -/
def withSign (negative : Bool) (q : ℚ) : ℚ :=
  if negative then -q else q

@[simp] theorem withSign_false (q : ℚ) : withSign false q = q :=
  rfl

@[simp] theorem withSign_true (q : ℚ) : withSign true q = -q :=
  rfl

@[simp] theorem abs_withSign (negative : Bool) (q : ℚ) : |withSign negative q| = |q| := by
  cases negative <;> simp

theorem withSign_eq_zero_iff : withSign negative q = 0 ↔ q = 0 := by
  cases negative <;> simp

theorem rational?_finite (negative : Bool) (m : ℕ) (e : ℤ) :
    (Binary.finite negative m e).rational? = some (withSign negative (m * 2 ^ e)) := by
  rw [Binary.rational?, Rat.mkRat_eq_div]
  congr 1
  rw [← Binary.numerator_div_denominator]
  cases negative with
  | false => simp [Binary.signed, withSign]
  | true => simp [Binary.signed, withSign, neg_div]

theorem value_of_ofFloat (h : Binary.ofFloat x = .finite negative m e) :
    value x = withSign negative (m * 2 ^ e) := by
  rw [value, h, rational?_finite]
  rfl

theorem value_signedZero (negative : Bool) : value (ofMagnitudeBits negative 0) = 0 := by
  rw [value_of_ofFloat (ofFloat_signedZero negative), withSign_eq_zero_iff, Nat.cast_zero, zero_mul]

theorem magnitude_pos (hm : 0 < m) : (0 : ℚ) < m * 2 ^ e := by
  have hm' : (0 : ℚ) < m := by exact_mod_cast hm
  positivity

theorem value_eq_zero_iff (h : Binary.ofFloat x = .finite negative m e) : value x = 0 ↔ m = 0 := by
  rw [value_of_ofFloat h, withSign_eq_zero_iff, mul_eq_zero, Nat.cast_eq_zero]
  exact or_iff_left (zpow_ne_zero e two_ne_zero)

/-- Canonical parts are the rounded parts of their own value. -/
theorem rounds_of_canonical (hc : Canonical m e) : Rounds (m * 2 ^ e) m e := by
  have hpos : (0 : ℚ) < 2 ^ e := by positivity
  refine ⟨hc.least, hc.full.imp_left fun hfull => ?_, ?_, ?_⟩
  · have hfull' : ((leadingBit : ℕ) : ℚ) ≤ m := by exact_mod_cast hfull
    have hleading : ((leadingBit : ℕ) : ℚ) = 2 ^ 52 := by norm_num [leadingBit]
    rw [hleading] at hfull'
    gcongr
  · have hlt : (m : ℚ) < (2 * leadingBit : ℕ) := by exact_mod_cast hc.lt
    have hleading : ((2 * leadingBit : ℕ) : ℚ) = 2 ^ 53 := by norm_num [leadingBit]
    rw [hleading] at hlt
    gcongr
  · rw [mul_div_cancel_right₀ _ hpos.ne']
    exact NearestEven.natCast m

/-- A magnitude below a power of two has a unit that leaves no more bits than that, or the least one. -/
theorem Canonical.exponent_lt {k : ℤ} (hc : Canonical m e) (hlt : (m : ℚ) * 2 ^ e < 2 ^ k) :
    52 + e < k ∨ e = -1074 := by
  refine hc.full.imp_left fun hfull => (zpow_lt_zpow_iff_right₀ one_lt_two).mp (lt_of_le_of_lt ?_ hlt)
  have hfull' : ((leadingBit : ℕ) : ℚ) ≤ m := by exact_mod_cast hfull
  have hleading : ((leadingBit : ℕ) : ℚ) = 2 ^ (52 : ℤ) := by norm_num [leadingBit]
  rw [zpow_add₀ two_ne_zero, ← hleading]
  gcongr

namespace Rounds

/-- Rounded magnitudes keep the order. -/
theorem value_mono (h : Rounds q m e) (h' : Rounds q' m' e') (hle : q ≤ q') :
    (m : ℚ) * 2 ^ e ≤ m' * 2 ^ e' := by
  rcases (h.exponent_mono h' hle).lt_or_eq with hlt | rfl
  · have hm : (m : ℚ) ≤ (2 * leadingBit : ℕ) := by exact_mod_cast h.le_carry
    have hfull : leadingBit ≤ m' := h'.full.resolve_right (by have := h.least; omega)
    have hfull' : ((leadingBit : ℕ) : ℚ) ≤ m' := by exact_mod_cast hfull
    have hnext : (2 : ℚ) ^ (e + 1) ≤ 2 ^ e' := zpow_le_zpow_right₀ one_le_two (by omega)
    rw [zpow_add_one₀ two_ne_zero] at hnext
    calc (m : ℚ) * 2 ^ e ≤ (2 * leadingBit : ℕ) * 2 ^ e := by gcongr
      _ = leadingBit * (2 ^ e * 2) := by
          push_cast
          ring
      _ ≤ m' * 2 ^ e' := by gcongr
  · have hquotient : q / 2 ^ e ≤ q' / 2 ^ e := by gcongr
    have hm : (m : ℚ) ≤ m' := by exact_mod_cast h.nearest.mono h'.nearest hquotient
    gcongr

/-- A carried mantissa is brought to its canonical form. -/
theorem exists_canonical (h : Rounds q m e) (negative : Bool) :
    ∃ m' e', Canonical m' e' ∧ ofParts negative m e = ofParts negative m' e' ∧
      (m' : ℚ) * 2 ^ e' = m * 2 ^ e := by
  by_cases hm : m = 2 * leadingBit
  · subst hm
    have hleast := h.least
    refine ⟨leadingBit, e + 1, ⟨by decide, by omega, .inl le_rfl⟩, ofParts_carry h.least, ?_⟩
    rw [zpow_add_one₀ two_ne_zero]
    push_cast
    ring
  · exact ⟨m, e, h.canonical hm, rfl, rfl⟩

end Rounds

theorem value_ofParts (hc : Canonical m e) (he : e ≤ greatestExponent) :
    value (ofParts negative m e) = withSign negative (m * 2 ^ e) :=
  value_of_ofFloat (ofFloat_ofParts hc he)

/-- The exponent of a canonical double that is finite is not too great. -/
theorem le_greatestExponent_of_isFinite (hc : Canonical m e)
    (hfinite : (ofParts negative m e).isFinite = true) :
    e ≤ greatestExponent := by
  by_contra hgt
  have hlt : greatestExponent < e := not_le.mp hgt
  have hfull : leadingBit ≤ m := hc.full.resolve_right (by unfold greatestExponent at hlt; omega)
  rw [ofParts_eq_infinite hfull hlt, isFinite_iff] at hfinite
  obtain ⟨_, _, _, h⟩ := hfinite
  rw [ofFloat_infinite] at h
  cases h

theorem value_ofParts_of_rounds (h : Rounds q m e) (hfinite : (ofParts negative m e).isFinite = true) :
    value (ofParts negative m e) = withSign negative (m * 2 ^ e) := by
  obtain ⟨m', e', hc, heq, hvalue⟩ := h.exists_canonical negative
  rw [heq] at hfinite ⊢
  rw [value_ofParts hc (le_greatestExponent_of_isFinite hc hfinite), hvalue]

theorem Rounds.isFinite (h : Rounds q m e) (he : e < greatestExponent) :
    (ofParts negative m e).isFinite = true := by
  by_cases hm : m = 2 * leadingBit
  · have hleast := h.least
    rw [hm, ofParts_carry h.least]
    exact isFinite_ofParts ⟨by decide, by omega, .inl le_rfl⟩ (by omega)
  · exact isFinite_ofParts (h.canonical hm) he.le

/-- The parts of a rounded double are the rounded ones, unless the mantissa was rounded up to a power of
two. -/
theorem parts_of_rounds {m₀ : ℕ} {e₀ : ℤ} (h : Rounds q m₀ e₀)
    (hparts : Binary.ofFloat (ofParts negative m₀ e₀) = .finite negative m e) :
    m = m₀ ∧ e = e₀ ∨ m₀ = 2 * leadingBit ∧ m = leadingBit ∧ e = e₀ + 1 := by
  have hfinite : (ofParts negative m₀ e₀).isFinite = true := isFinite_iff.mpr ⟨_, _, _, hparts⟩
  by_cases hcarry : m₀ = 2 * leadingBit
  · have hleast := h.least
    have hc : Canonical leadingBit (e₀ + 1) := ⟨by decide, by omega, .inl le_rfl⟩
    rw [hcarry, ofParts_carry hleast] at hparts hfinite
    rw [ofFloat_ofParts hc (le_greatestExponent_of_isFinite hc hfinite), Binary.finite.injEq] at hparts
    exact .inr ⟨hcarry, hparts.2.1.symm, hparts.2.2.symm⟩
  · have hc := h.canonical hcarry
    rw [ofFloat_ofParts hc (le_greatestExponent_of_isFinite hc hfinite), Binary.finite.injEq] at hparts
    exact .inl ⟨hparts.2.1.symm, hparts.2.2.symm⟩

/-- The fraction that a rational is made of. -/
theorem natAbs_div_den (q : ℚ) : (q.num.natAbs : ℚ) / q.den = |q| := by
  have habs : |q| = (|q.num| : ℚ) / q.den := by
    conv_lhs => rw [← Rat.num_div_den q]
    rw [abs_div, Nat.abs_cast]
  rw [habs, Nat.cast_natAbs, Int.cast_abs]

theorem ofRat_eq_ofParts (hq : q ≠ 0) (h : Rounds |q| m e) : ofRat q = ofParts (q < 0) m e := by
  have hnum : 0 < q.num.natAbs := Int.natAbs_pos.mpr (Rat.num_ne_zero.mpr hq)
  rw [← natAbs_div_den] at h
  rw [ofRat, nearest_eq_ofParts hnum q.den_pos h]
  congr 1
  exact decide_eq_decide.mpr Rat.num_neg

theorem ofRat_eq_ofParts_of_pos (hq : 0 < q) (h : Rounds q m e) : ofRat q = ofParts false m e := by
  rw [← abs_of_pos hq] at h
  rw [ofRat_eq_ofParts hq.ne' h, decide_eq_false (not_lt.mpr hq.le)]

theorem ofRat_withSign (hq : 0 < q) (h : Rounds q m e) :
    ofRat (withSign negative q) = ofParts negative m e := by
  have hne : withSign negative q ≠ 0 := mt withSign_eq_zero_iff.mp hq.ne'
  have hsign : decide (withSign negative q < 0) = negative := by
    cases negative with
    | false => exact decide_eq_false (not_lt.mpr hq.le)
    | true => exact decide_eq_true (neg_lt_zero.mpr hq)
  have habs : |withSign negative q| = q := by rw [abs_withSign, abs_of_pos hq]
  rw [ofRat_eq_ofParts hne (habs.symm ▸ h), hsign]

/-- A double other than zero is the one nearest to its value. -/
theorem ofRat_value (hx : x.isFinite = true) (hne : value x ≠ 0) : ofRat (value x) = x := by
  obtain ⟨negative, m, e, h⟩ := isFinite_iff.mp hx
  have hm : 0 < m := Nat.pos_of_ne_zero (mt (value_eq_zero_iff h).mpr hne)
  have hpos := magnitude_pos (e := e) hm
  rw [value_of_ofFloat h, ofRat_withSign hpos (rounds_of_canonical (canonical_of_ofFloat h).1),
    eq_ofParts_of_ofFloat h]

theorem ofRat_value_of_nonneg (h : Binary.ofFloat x = .finite false m e) : ofRat (value x) = x := by
  by_cases hne : value x = 0
  · obtain rfl : m = 0 := (value_eq_zero_iff h).mp hne
    rw [hne, eq_ofParts_of_ofFloat h, ofParts_zero]
    exact nearest_zero false 1
  · exact ofRat_value (isFinite_iff.mpr ⟨_, _, _, h⟩) hne

section Bounds

variable {n d : ℕ}

/-- A finite double nearest to a fraction has the sign that was asked for. -/
theorem exists_parts_of_nearest (hd : 0 < d) (hfinite : (nearest negative n d).isFinite = true) :
    ∃ m e, Binary.ofFloat (nearest negative n d) = .finite negative m e := by
  rcases Nat.eq_zero_or_pos n with rfl | hn
  · rw [nearest_zero]
    exact ⟨0, -1074, ofFloat_signedZero negative⟩
  · have hpos : (0 : ℚ) < n / d := by
      have hn' : (0 : ℚ) < n := by exact_mod_cast hn
      positivity
    obtain ⟨m, e, h⟩ := exists_rounds hpos
    obtain ⟨m', e', hc, hparts, -⟩ := h.exists_canonical negative
    rw [nearest_eq_ofParts hn hd h, hparts] at hfinite ⊢
    exact ⟨m', e', ofFloat_ofParts hc (le_greatestExponent_of_isFinite hc hfinite)⟩

theorem value_nearest_nonneg (hd : 0 < d) (hfinite : (nearest false n d).isFinite = true) :
    0 ≤ value (nearest false n d) := by
  obtain ⟨m, e, h⟩ := exists_parts_of_nearest hd hfinite
  rw [value_of_ofFloat h, withSign_false]
  positivity

/-- A fraction that is not above a double is rounded to a finite double that is not above it. -/
theorem nearest_le (hd : 0 < d) (hy : y.isFinite = true) (hle : (n : ℚ) / d ≤ |value y|) :
    (nearest negative n d).isFinite = true ∧ |value (nearest negative n d)| ≤ |value y| := by
  rcases Nat.eq_zero_or_pos n with rfl | hn
  · rw [nearest_zero, value_signedZero, abs_zero]
    exact ⟨isFinite_signedZero negative, abs_nonneg _⟩
  · obtain ⟨negative', m', e', h'⟩ := isFinite_iff.mp hy
    obtain ⟨hc', he'⟩ := canonical_of_ofFloat h'
    have hbound : |value y| = m' * 2 ^ e' := by
      rw [value_of_ofFloat h', abs_withSign, abs_of_nonneg (by positivity)]
    rw [hbound] at hle ⊢
    have hpos : (0 : ℚ) < n / d := by
      have hn' : (0 : ℚ) < n := by exact_mod_cast hn
      positivity
    have hrounds' := rounds_of_canonical hc'
    obtain ⟨m, e, h⟩ := exists_rounds hpos
    have hmono := h.value_mono hrounds' hle
    have hexponent := h.exponent_mono hrounds' hle
    have hfinite : (ofParts negative m e).isFinite = true := by
      by_cases hm : m = 2 * leadingBit
      · -- The next power of two is not above the bound either, so the exponent is not the greatest.
        refine h.isFinite (lt_of_not_ge fun hgreatest => ?_)
        obtain rfl : e = e' := le_antisymm hexponent (he'.trans hgreatest)
        have hlt : (m' : ℚ) < m := by
          rw [hm]
          exact_mod_cast hc'.lt
        have hunit : (0 : ℚ) < 2 ^ e := by positivity
        exact absurd hmono (not_le.mpr (mul_lt_mul_of_pos_right hlt hunit))
      · exact isFinite_ofParts (h.canonical hm) (hexponent.trans he')
    rw [nearest_eq_ofParts hn hd h]
    refine ⟨hfinite, ?_⟩
    rw [value_ofParts_of_rounds h hfinite, abs_withSign, abs_of_nonneg (by positivity)]
    exact hmono

/-- A fraction that is not below a double is rounded to a double that is not below it. -/
theorem le_nearest (hn : 0 < n) (hd : 0 < d) (hy : y.isFinite = true) (hle : |value y| ≤ n / d)
    (hfinite : (nearest negative n d).isFinite = true) : |value y| ≤ |value (nearest negative n d)| := by
  obtain ⟨negative', m', e', h'⟩ := isFinite_iff.mp hy
  have hbound : |value y| = m' * 2 ^ e' := by
    rw [value_of_ofFloat h', abs_withSign, abs_of_nonneg (by positivity)]
  have hpos : (0 : ℚ) < n / d := by
    have hn' : (0 : ℚ) < n := by exact_mod_cast hn
    positivity
  obtain ⟨m, e, h⟩ := exists_rounds hpos
  rw [nearest_eq_ofParts hn hd h] at hfinite ⊢
  have hmagnitude : (0 : ℚ) ≤ m * 2 ^ e := by positivity
  rw [value_ofParts_of_rounds h hfinite, abs_withSign, abs_of_nonneg hmagnitude, hbound]
  exact (rounds_of_canonical (canonical_of_ofFloat h').1).value_mono h (hbound ▸ hle)

/-- A fraction beyond the finite doubles is rounded to an infinity. -/
theorem nearest_eq_infinite (hd : 0 < d) (hle : (2 : ℚ) ^ (1024 : ℤ) ≤ n / d) :
    nearest negative n d = ofMagnitudeBits negative infinityBits := by
  have hpos : (0 : ℚ) < n / d := lt_of_lt_of_le (by positivity) hle
  have hn : 0 < n := by
    by_contra hn
    obtain rfl : n = 0 := by omega
    rw [Nat.cast_zero, zero_div] at hpos
    exact lt_irrefl 0 hpos
  obtain ⟨m, e, h⟩ := exists_rounds hpos
  have hless := h.lt_exponent hle
  rw [nearest_eq_ofParts hn hd h]
  exact ofParts_eq_infinite (h.full.resolve_right (by omega)) (by unfold greatestExponent; omega)

/-- A fraction of no more than half the least double is rounded to zero. -/
theorem nearest_eq_zero (hd : 0 < d) (hle : (n : ℚ) / d ≤ 2 ^ (-1075 : ℤ)) :
    nearest negative n d = ofMagnitudeBits negative 0 := by
  rcases Nat.eq_zero_or_pos n with rfl | hn
  · exact nearest_zero negative d
  · have hleast : (2 : ℚ) ^ (-1075 : ℤ) = 2 ^ (-1074 : ℤ) / 2 := zpow_sub_one₀ two_ne_zero (-1074)
    have hunit : (0 : ℚ) < 2 ^ (-1074 : ℤ) := by positivity
    have hhalf : (n : ℚ) / d / 2 ^ (-1074 : ℤ) ≤ 1 / 2 := by
      rw [div_le_iff₀ hunit]
      linarith
    have hrounds : Rounds ((n : ℚ) / d) 0 (-1074) := by
      refine ⟨le_rfl, .inr rfl, ?_, ⟨?_, fun _ => rfl⟩⟩
      · calc (n : ℚ) / d ≤ 2 ^ (-1074 : ℤ) / 2 := hleast ▸ hle
          _ < 2 ^ 53 * 2 ^ (-1074 : ℤ) := by linarith
      · rw [Nat.cast_zero, sub_zero, abs_of_nonneg (by positivity)]
        exact hhalf
    rw [nearest_eq_ofParts hn hd hrounds, ofParts_zero]

/-- Fractions of one value are rounded alike. -/
theorem nearest_congr {n' d' : ℕ} (hd : 0 < d) (hd' : 0 < d') (heq : (n : ℚ) / d = n' / d') :
    nearest negative n d = nearest negative n' d' := by
  have hdq : (d : ℚ) ≠ 0 := by exact_mod_cast hd.ne'
  have hdq' : (d' : ℚ) ≠ 0 := by exact_mod_cast hd'.ne'
  rcases Nat.eq_zero_or_pos n with rfl | hn
  · have hzero : n' = 0 := by
      rw [Nat.cast_zero, zero_div, eq_comm, div_eq_zero_iff] at heq
      exact_mod_cast heq.resolve_right hdq'
    rw [hzero, nearest_zero, nearest_zero]
  · have hn' : 0 < n' := by
      by_contra hn'
      obtain rfl : n' = 0 := by omega
      rw [Nat.cast_zero, zero_div, div_eq_zero_iff] at heq
      have := heq.resolve_right hdq
      exact hn.ne' (by exact_mod_cast this)
    have hpos : (0 : ℚ) < n / d := by
      have hnq : (0 : ℚ) < n := by exact_mod_cast hn
      positivity
    obtain ⟨m, e, h⟩ := exists_rounds hpos
    rw [nearest_eq_ofParts hn hd h, nearest_eq_ofParts hn' hd' (heq ▸ h)]

end Bounds

/-- The double nearest to a fraction that is the magnitude of a double is that double. -/
theorem nearest_eq_of_value {n d : ℕ} (h : Binary.ofFloat x = .finite negative m e) (hn : 0 < n)
    (hd : 0 < d)
    (hvalue : (n : ℚ) / d = m * 2 ^ e) : nearest negative n d = x := by
  have hrounds : Rounds ((n : ℚ) / d) m e := by
    rw [hvalue]
    exact rounds_of_canonical (canonical_of_ofFloat h).1
  rw [nearest_eq_ofParts hn hd hrounds, eq_ofParts_of_ofFloat h]

end PolyPlot.Double
