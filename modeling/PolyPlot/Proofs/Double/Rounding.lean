import PolyPlot.Proofs.Double.Parts

namespace PolyPlot

/-- A whole number is nearest to a rational, and even if another one is as near. -/
structure NearestEven (q : ℚ) (m : ℕ) : Prop where
  le_half : |q - m| ≤ 1 / 2
  even_of_half : |q - m| = 1 / 2 → m % 2 = 0

namespace NearestEven

variable {q q' : ℚ} {m m' : ℕ}

theorem natCast (m : ℕ) : NearestEven m m :=
  ⟨by norm_num, by norm_num⟩

/-- What is less than a half away is nearest. -/
theorem of_lt (h : |q - m| < 1 / 2) : NearestEven q m :=
  ⟨h.le, fun hhalf => absurd hhalf h.ne⟩

theorem down (hlow : m ≤ q) (hhigh : q < m + 1 / 2) : NearestEven q m := by
  apply of_lt
  rw [abs_of_nonneg (by linarith)]
  linarith

theorem up (hlow : m + 1 / 2 < q) (hhigh : q < m + 1) : NearestEven q (m + 1) := by
  apply of_lt
  push_cast
  rw [abs_of_neg (by linarith)]
  linarith

/-- A half goes to the even neighbour. -/
theorem half (m : ℕ) : NearestEven (m + 1 / 2) (m + m % 2) := by
  rcases Nat.mod_two_eq_zero_or_one m with heven | hodd
  · rw [heven, Nat.add_zero]
    refine ⟨?_, fun _ => heven⟩
    rw [add_sub_cancel_left, abs_of_pos (by norm_num)]
  · rw [hodd]
    refine ⟨?_, fun _ => by omega⟩
    rw [abs_of_neg (by push_cast; linarith)]
    push_cast
    linarith

/-- Rounding keeps the order. -/
theorem mono (h : NearestEven q m) (h' : NearestEven q' m') (hle : q ≤ q') : m ≤ m' := by
  by_contra hlt
  have hnext : (m' : ℚ) + 1 ≤ m := by exact_mod_cast Nat.lt_of_not_le hlt
  obtain ⟨hlow, -⟩ := abs_le.mp h.le_half
  obtain ⟨-, hhigh⟩ := abs_le.mp h'.le_half
  -- Both are at their bounds, a half away from neighbours, of which only one is even.
  have hq : q - m = -(1 / 2) := by linarith
  have hq' : q' - m' = 1 / 2 := by linarith
  have hm : m = m' + 1 := by
    have : (m : ℚ) = m' + 1 := by linarith
    exact_mod_cast this
  have heven := h.even_of_half (by rw [hq, abs_neg, abs_of_pos (by norm_num)])
  have heven' := h'.even_of_half (by rw [hq', abs_of_pos (by norm_num)])
  omega

theorem unique (h : NearestEven q m) (h' : NearestEven q m') : m = m' :=
  le_antisymm (h.mono h' le_rfl) (h'.mono h le_rfl)

/-- No whole number is nearer. -/
theorem abs_sub_le (h : NearestEven q m) (n : ℕ) : |q - m| ≤ |q - n| := by
  rcases eq_or_ne m n with rfl | hne
  · exact le_rfl
  · have hapart : (1 : ℚ) ≤ |(n : ℚ) - m| := by
      have hne' : (n : ℤ) - m ≠ 0 := by omega
      exact_mod_cast Int.one_le_abs hne'
    have htriangle : |(n : ℚ) - m| ≤ |q - m| + |q - n| := by
      calc |(n : ℚ) - m| = |(q - m) - (q - n)| := by ring_nf
        _ ≤ |q - m| + |q - n| := abs_sub _ _
    linarith [h.le_half]

theorem le_of_le_natCast {n : ℕ} (h : NearestEven q m) (hle : q ≤ n) : m ≤ n :=
  h.mono (natCast n) hle

theorem natCast_le_of_le {n : ℕ} (h : NearestEven q m) (hle : n ≤ q) : n ≤ m :=
  (natCast n).mono h hle

theorem eq_zero_iff (hq : 0 ≤ q) (h : NearestEven q m) : m = 0 ↔ q ≤ 1 / 2 := by
  constructor
  · rintro rfl
    have hle := h.le_half
    rwa [Nat.cast_zero, sub_zero, abs_of_nonneg hq] at hle
  · intro hle
    have hhalf : NearestEven (1 / 2) 0 := by simpa using NearestEven.half 0
    exact Nat.le_zero.mp (h.mono hhalf hle)

end NearestEven

section Fraction

variable {n d : ℕ}

theorem div_lt_half_iff (hd : 0 < d) : (n : ℚ) / d < 1 / 2 ↔ 2 * n < d := by
  have hd' : (0 : ℚ) < d := by exact_mod_cast hd
  rw [div_lt_div_iff₀ hd' two_pos, one_mul, mul_comm]
  exact_mod_cast Iff.rfl

theorem half_lt_div_iff (hd : 0 < d) : 1 / 2 < (n : ℚ) / d ↔ d < 2 * n := by
  have hd' : (0 : ℚ) < d := by exact_mod_cast hd
  rw [div_lt_div_iff₀ two_pos hd', one_mul, mul_comm]
  exact_mod_cast Iff.rfl

theorem div_eq_half_iff (hd : 0 < d) : (n : ℚ) / d = 1 / 2 ↔ 2 * n = d := by
  have hd' : (d : ℚ) ≠ 0 := by exact_mod_cast hd.ne'
  rw [div_eq_div_iff hd' two_ne_zero, one_mul, mul_comm]
  exact_mod_cast Iff.rfl

/-- Rounding a quotient of whole numbers. -/
theorem nearestEven_divideToEven (n : ℕ) (hd : 0 < d) : NearestEven ((n : ℚ) / d) (divideToEven n d) := by
  have hd' : (0 : ℚ) < d := by exact_mod_cast hd
  have hquotient : (n : ℚ) / d = (n / d : ℕ) + (n % d : ℕ) / d := by
    have hn : (n : ℚ) = d * (n / d : ℕ) + (n % d : ℕ) := by exact_mod_cast (Nat.div_add_mod n d).symm
    rw [hn]
    field_simp
  have hnonneg : (0 : ℚ) ≤ (n % d : ℕ) / d := by positivity
  have hone : ((n % d : ℕ) : ℚ) / d < 1 := (div_lt_one hd').mpr (by exact_mod_cast Nat.mod_lt n hd)
  rw [hquotient]
  unfold divideToEven
  dsimp only
  split
  · next hless =>
    have hbelow := (div_lt_half_iff hd).mpr hless
    exact .down (by linarith) (by linarith)
  · split
    · next hmore =>
      have habove := (half_lt_div_iff hd).mpr hmore
      exact .up (by linarith) (by linarith)
    · rw [(div_eq_half_iff hd).mpr (by omega)]
      exact .half (n / d)

end Fraction

theorem zpow_eq_div {b : ℚ} (hb : b ≠ 0) (e : ℤ) : b ^ e = b ^ e.toNat / b ^ (-e).toNat := by
  rw [← zpow_natCast, ← zpow_natCast, ← zpow_sub₀ hb]
  congr 1
  omega

theorem Binary.numerator_eq (m : ℕ) (e : ℤ) : numerator m e = m * 2 ^ e.toNat :=
  rfl

theorem Binary.denominator_eq (e : ℤ) : denominator e = 2 ^ (-e).toNat :=
  rfl

theorem Binary.numerator_div_denominator (m : ℕ) (e : ℤ) :
    (numerator m e : ℚ) / denominator e = m * 2 ^ e := by
  rw [zpow_eq_div two_ne_zero, numerator_eq, denominator_eq]
  push_cast
  ring

namespace Double

/-- The rounding of a positive rational to a whole number of units `2 ^ e`. -/
structure Rounds (q : ℚ) (m : ℕ) (e : ℤ) : Prop where
  least : -1074 ≤ e
  lower : 2 ^ 52 * 2 ^ e ≤ q ∨ e = -1074
  upper : q < 2 ^ 53 * 2 ^ e
  nearest : NearestEven (q / 2 ^ e) m

namespace Rounds

variable {q q' : ℚ} {m m' : ℕ} {e e' : ℤ}

theorem exponent_mono (h : Rounds q m e) (h' : Rounds q' m' e') (hle : q ≤ q') : e ≤ e' := by
  by_contra hlt
  have hlower : (2 : ℚ) ^ 52 * 2 ^ e ≤ q := h.lower.resolve_right (by have := h'.least; omega)
  have hunits : (2 : ℚ) ^ 53 * 2 ^ e' ≤ 2 ^ 52 * 2 ^ e := by
    have hpow : (2 : ℚ) ^ (e' + 1) ≤ 2 ^ e := zpow_le_zpow_right₀ one_le_two (by omega)
    rw [zpow_add_one₀ two_ne_zero] at hpow
    linarith
  linarith [h'.upper]

theorem unique (h : Rounds q m e) (h' : Rounds q m' e') : m = m' ∧ e = e' := by
  obtain rfl : e = e' := le_antisymm (h.exponent_mono h' le_rfl) (h'.exponent_mono h le_rfl)
  exact ⟨h.nearest.unique h'.nearest, rfl⟩

/-- What has so many bits before the point has no more of them than the unit allows. -/
theorem lt_exponent {k : ℤ} (h : Rounds q m e) (hq : 2 ^ k ≤ q) : k < 53 + e := by
  have hunit : (2 : ℚ) ^ 53 * 2 ^ e = 2 ^ (53 + e) := by
    rw [zpow_add₀ two_ne_zero]
    norm_num
  exact (zpow_lt_zpow_iff_right₀ one_lt_two).mp (hq.trans_lt (hunit ▸ h.upper))

theorem le_carry (h : Rounds q m e) : m ≤ 2 * leadingBit := by
  have hpos : (0 : ℚ) < 2 ^ e := by positivity
  have hquotient : q / 2 ^ e ≤ (2 * leadingBit : ℕ) := by
    rw [div_le_iff₀ hpos]
    have hupper := h.upper
    norm_num [leadingBit] at hupper ⊢
    linarith
  exact h.nearest.le_of_le_natCast hquotient

theorem full (h : Rounds q m e) : leadingBit ≤ m ∨ e = -1074 := by
  refine h.lower.imp_left fun hlower => ?_
  have hpos : (0 : ℚ) < 2 ^ e := by positivity
  have hquotient : (leadingBit : ℕ) ≤ q / 2 ^ e := by
    rw [le_div_iff₀ hpos]
    norm_num [leadingBit] at hlower ⊢
    linarith
  exact h.nearest.natCast_le_of_le hquotient

/-- The rounded parts are canonical unless the mantissa carries. -/
theorem canonical (h : Rounds q m e) (hm : m ≠ 2 * leadingBit) : Canonical m e :=
  ⟨lt_of_le_of_ne h.le_carry hm, h.least, h.full⟩

end Rounds

/-- The test for a mantissa of less than fifty-three bits. -/
theorem short_iff {n d : ℕ} (hd : 0 < d) (e : ℤ) :
    n * Binary.denominator e < leadingBit * Binary.numerator d e ↔ (n : ℚ) / d < 2 ^ 52 * 2 ^ e := by
  have hd' : (0 : ℚ) < d := by exact_mod_cast hd
  have hdenominator : (0 : ℚ) < 2 ^ (-e).toNat := by positivity
  have hleading : ((leadingBit : ℕ) : ℚ) = 2 ^ 52 := by norm_num [leadingBit]
  rw [← Nat.cast_lt (α := ℚ), zpow_eq_div two_ne_zero, Binary.numerator_eq, Binary.denominator_eq,
    ← mul_div_assoc, div_lt_div_iff₀ hd' hdenominator]
  push_cast
  rw [hleading]
  ring_nf

/-- A quotient lies between powers of two that the lengths of its parts give. -/
theorem bounds_of_log2 {n d : ℕ} (hn : 0 < n) (hd : 0 < d) :
    (2 : ℚ) ^ ((n.log2 : ℤ) - d.log2 - 1) < (n : ℚ) / d ∧
      (n : ℚ) / d < 2 ^ ((n.log2 : ℤ) - d.log2 + 1) := by
  have hd' : (0 : ℚ) < d := by exact_mod_cast hd
  have hnlow : (2 : ℚ) ^ n.log2 ≤ n := by exact_mod_cast Nat.log2_self_le hn.ne'
  have hnhigh : (n : ℚ) < 2 ^ (n.log2 + 1) := by exact_mod_cast Nat.lt_log2_self
  have hdlow : (2 : ℚ) ^ d.log2 ≤ d := by exact_mod_cast Nat.log2_self_le hd.ne'
  have hdhigh : (d : ℚ) < 2 ^ (d.log2 + 1) := by exact_mod_cast Nat.lt_log2_self
  constructor
  · rw [lt_div_iff₀ hd']
    calc (2 : ℚ) ^ ((n.log2 : ℤ) - d.log2 - 1) * d
        < 2 ^ ((n.log2 : ℤ) - d.log2 - 1) * 2 ^ (d.log2 + 1) := by
          gcongr
      _ = 2 ^ n.log2 := by
          rw [← zpow_natCast, ← zpow_natCast, ← zpow_add₀ two_ne_zero]
          congr 1
          push_cast
          ring
      _ ≤ n := hnlow
  · rw [div_lt_iff₀ hd']
    calc (n : ℚ) < 2 ^ (n.log2 + 1) := hnhigh
      _ = 2 ^ ((n.log2 : ℤ) - d.log2 + 1) * 2 ^ d.log2 := by
          rw [← zpow_natCast, ← zpow_natCast, ← zpow_add₀ two_ne_zero]
          congr 1
          push_cast
          ring
      _ ≤ 2 ^ ((n.log2 : ℤ) - d.log2 + 1) * d := by
          gcongr

theorem exponentOf_spec {n d : ℕ} (hn : 0 < n) (hd : 0 < d) :
    -1074 ≤ exponentOf n d ∧ (2 ^ 52 * 2 ^ exponentOf n d ≤ (n : ℚ) / d ∨ exponentOf n d = -1074) ∧
      (n : ℚ) / d < 2 ^ 53 * 2 ^ exponentOf n d := by
  obtain ⟨hlow, hhigh⟩ := bounds_of_log2 hn hd
  -- The exponent before it is raised to the least one.
  obtain ⟨e, he, hlower, hupper⟩ : ∃ e, exponentOf n d = max e (-1074) ∧ 2 ^ 52 * 2 ^ e ≤ (n : ℚ) / d ∧
      (n : ℚ) / d < 2 ^ 53 * 2 ^ e := by
    have hshort := short_iff (n := n) hd ((n.log2 : ℤ) - d.log2 - 52)
    by_cases h : (n : ℚ) / d < 2 ^ 52 * 2 ^ ((n.log2 : ℤ) - d.log2 - 52)
    · refine ⟨(n.log2 : ℤ) - d.log2 - 52 - 1, ?_, ?_, ?_⟩
      · rw [exponentOf, if_pos (hshort.mpr h)]
      · refine le_of_eq_of_le ?_ hlow.le
        rw [← zpow_natCast, ← zpow_add₀ two_ne_zero]
        congr 1
        push_cast
        ring
      · refine lt_of_lt_of_eq h ?_
        rw [← zpow_natCast, ← zpow_natCast, ← zpow_add₀ two_ne_zero, ← zpow_add₀ two_ne_zero]
        congr 1
        push_cast
        ring
    · refine ⟨(n.log2 : ℤ) - d.log2 - 52, ?_, not_lt.mp h, ?_⟩
      · rw [exponentOf, if_neg (mt hshort.mp h)]
      · refine lt_of_lt_of_eq hhigh ?_
        rw [← zpow_natCast, ← zpow_add₀ two_ne_zero]
        congr 1
        push_cast
        ring
  rw [he]
  rcases le_total (-1074) e with h | h
  · rw [max_eq_left h]
    exact ⟨h, .inl hlower, hupper⟩
  · rw [max_eq_right h]
    have hpow : (2 : ℚ) ^ e ≤ 2 ^ (-1074 : ℤ) := zpow_le_zpow_right₀ one_le_two h
    exact ⟨le_rfl, .inr rfl, by linarith⟩

theorem rounds_divideToEven {n d : ℕ} (hn : 0 < n) (hd : 0 < d) :
    Rounds ((n : ℚ) / d)
      (divideToEven (n * Binary.denominator (exponentOf n d)) (Binary.numerator d (exponentOf n d)))
      (exponentOf n d) := by
  obtain ⟨hleast, hlower, hupper⟩ := exponentOf_spec hn hd
  refine ⟨hleast, hlower, hupper, ?_⟩
  have hpos : 0 < Binary.numerator d (exponentOf n d) := Nat.mul_pos hd (Nat.pow_pos two_pos)
  have hquotient : (n : ℚ) / d / 2 ^ exponentOf n d =
      (n * Binary.denominator (exponentOf n d) : ℕ) / (Binary.numerator d (exponentOf n d) : ℕ) := by
    rw [zpow_eq_div two_ne_zero, Binary.numerator_eq, Binary.denominator_eq]
    push_cast
    field_simp
  rw [hquotient]
  exact nearestEven_divideToEven _ hpos

theorem exists_rounds {q : ℚ} (hq : 0 < q) : ∃ m e, Rounds q m e := by
  have hnum : 0 < q.num.toNat := by
    have := Rat.num_pos.mpr hq
    omega
  have hrounds := rounds_divideToEven hnum q.den_pos
  have hq' : (q.num.toNat : ℚ) / q.den = q := by
    have hcast : ((q.num.toNat : ℤ) : ℚ) = q.num := by rw [Int.toNat_of_nonneg (Rat.num_pos.mpr hq).le]
    rw [Int.cast_natCast] at hcast
    rw [hcast, Rat.num_div_den]
  rw [hq'] at hrounds
  exact ⟨_, _, hrounds⟩

/-- The double nearest to a fraction has the rounded parts of its value. -/
theorem nearest_eq_ofParts {negative : Bool} {n d m : ℕ} {e : ℤ} (hn : 0 < n) (hd : 0 < d)
    (h : Rounds ((n : ℚ) / d) m e) : nearest negative n d = ofParts negative m e := by
  obtain ⟨rfl, rfl⟩ := h.unique (rounds_divideToEven hn hd)
  rw [nearest, if_neg hn.ne']

end Double

end PolyPlot
