import PolyPlot.Decimal.Reading
import PolyPlot.Proofs.Double.Value
import PolyPlot.Proofs.Grammar.Derivation

namespace PolyPlot

/-- The number that the digits of a numeral write. -/
def Numeral.rational (t : Numeral) : ℚ :=
  Nat.ofDigitChars 10 t.whole 0 + Nat.ofDigitChars 10 t.places 0 / 10 ^ t.places.length

namespace Decimal

open Double

variable {negative : Bool} {n : ℕ}

/-- The number that digits and an exponent write. -/
def rational (x : Decimal) : ℚ :=
  x.digits * 10 ^ x.exponent

theorem ofAscii_eq (s : List Char) : ofAscii s = Nat.ofDigitChars 10 s 0 := by
  rw [ofAscii, ofDigits, List.foldl_map]
  rfl

@[simp] theorem ofAscii_text (n : ℕ) : ofAscii (text n) = n := by
  rw [ofAscii_eq]
  exact Nat.ofDigitChars_ten_toDigits

/-- Zeros in front of digits do not count. -/
theorem ofAscii_zeros (n : ℕ) (s : List Char) : ofAscii (List.replicate n '0' ++ s) = ofAscii s := by
  rw [ofAscii_eq, ofAscii_eq, Nat.ofDigitChars_append, Nat.ofDigitChars_replicate_zero, Nat.mul_zero]

theorem ofAscii_append_zeros (s : List Char) (n : ℕ) :
    ofAscii (s ++ List.replicate n '0') = ofAscii s * 10 ^ n := by
  rw [ofAscii_eq, ofAscii_eq, Nat.ofDigitChars_append, Nat.ofDigitChars_replicate_zero, Nat.mul_comm]

theorem isDigit_of_mem_text {c : Char} (hc : c ∈ text n) : c.isDigit = true :=
  Nat.isDigit_of_mem_toDigits (by decide) (by decide) hc

theorem text_ne_nil (n : ℕ) : text n ≠ [] :=
  Nat.toDigits_ne_nil

theorem numerator_div_denominator (n : ℕ) (exponent : ℤ) :
    (numerator n exponent : ℚ) / denominator exponent = n * 10 ^ exponent := by
  rw [zpow_eq_div (by norm_num), ← mul_div_assoc, numerator, denominator]
  push_cast [Nat.pow_eq]
  rfl

theorem pow_length_text_le (hn : 0 < n) : 10 ^ ((text n).length - 1) ≤ n := by
  rcases Nat.eq_zero_or_pos ((text n).length - 1) with hone | hmore
  · rw [hone, pow_zero]
    exact hn
  · have hpos : 0 < (text n).length := List.length_pos_iff.mpr (text_ne_nil n)
    have hlong : ¬ (text n).length ≤ (text n).length - 1 := by omega
    exact not_lt.mp (mt (Nat.length_toDigits_le_iff (by decide) hmore).mpr hlong)

/-- A number whose first digit is too far before the point is beyond the finite doubles. -/
theorem le_of_length_text {exponent : ℤ} (hn : 0 < n) (h : farthestExponent < exponent + (text n).length) :
    (2 : ℚ) ^ (1024 : ℤ) ≤ numerator n exponent / denominator exponent := by
  have hlength' : (10 : ℚ) ^ (((text n).length - 1 : ℕ) : ℤ) ≤ n := by
    rw [zpow_natCast]
    exact_mod_cast pow_length_text_le hn
  unfold farthestExponent at h
  rw [numerator_div_denominator]
  calc (2 : ℚ) ^ (1024 : ℤ) = (2 ^ 8) ^ 128 := by rw [← pow_mul, ← zpow_natCast]; norm_num
    _ ≤ (10 ^ 3) ^ 128 := by gcongr; norm_num
    _ = 10 ^ (384 : ℤ) := by rw [← pow_mul, ← zpow_natCast]; norm_num
    _ ≤ 10 ^ (400 : ℤ) := zpow_le_zpow_right₀ (by norm_num) (by norm_num)
    _ ≤ 10 ^ ((((text n).length - 1 : ℕ) : ℤ) + exponent) := zpow_le_zpow_right₀ (by norm_num) (by omega)
    _ = 10 ^ (((text n).length - 1 : ℕ) : ℤ) * 10 ^ exponent := zpow_add₀ (by norm_num) _ _
    _ ≤ n * 10 ^ exponent := by gcongr

theorem lt_pow_length_text (n : ℕ) : n < 10 ^ (text n).length := by
  have hpos : 0 < (text n).length := List.length_pos_iff.mpr (text_ne_nil n)
  exact (Nat.length_toDigits_le_iff (by decide) hpos).mp le_rfl

theorem zpow_farthest_lt : (10 : ℚ) ^ (-400 : ℤ) < 2 ^ (-1075 : ℤ) := by
  rw [zpow_neg, zpow_neg, inv_lt_inv₀ (by positivity) (by positivity)]
  calc (2 : ℚ) ^ (1075 : ℤ) ≤ 2 ^ (1200 : ℤ) := zpow_le_zpow_right₀ one_le_two (by norm_num)
    _ = (2 ^ (3 : ℤ)) ^ (400 : ℤ) := by rw [← zpow_mul]; norm_num
    _ < 10 ^ (400 : ℤ) := zpow_lt_zpow_left₀ (by norm_num) (by norm_num) (by norm_num)

/-- A number whose first digit is too far behind the point is below half the least double. -/
theorem lt_of_length_text {x : Decimal} (h : x.exponent + (text x.digits).length < -farthestExponent) :
    x.rational < 2 ^ (-1075 : ℤ) := by
  have hlength : (x.digits : ℚ) < 10 ^ ((text x.digits).length : ℤ) := by
    rw [zpow_natCast]
    exact_mod_cast lt_pow_length_text x.digits
  unfold farthestExponent at h
  calc x.rational < 10 ^ ((text x.digits).length : ℤ) * 10 ^ x.exponent := by
        unfold rational
        gcongr
    _ = 10 ^ (((text x.digits).length : ℤ) + x.exponent) := (zpow_add₀ (by norm_num) _ _).symm
    _ ≤ 10 ^ (-400 : ℤ) := zpow_le_zpow_right₀ (by norm_num) (by omega)
    _ < 2 ^ (-1075 : ℤ) := zpow_farthest_lt

/-- A decimal number is read as the double nearest to it. -/
theorem toDouble_eq (negative : Bool) (x : Decimal) :
    toDouble negative x = nearest negative (numerator x.digits x.exponent) (denominator x.exponent) := by
  have hdenominator : 0 < denominator x.exponent := Nat.pow_pos (by decide)
  unfold toDouble
  dsimp only
  split
  · next hsmall =>
    rw [nearest_zero]
    rcases hsmall with hzero | hlead
    · rw [hzero, numerator, Nat.zero_mul, nearest_zero]
    · have hbound := (lt_of_length_text hlead).le
      rw [rational, ← numerator_div_denominator] at hbound
      exact (nearest_eq_zero hdenominator hbound).symm
  · next hmore =>
    have hpos : 0 < x.digits := Nat.pos_of_ne_zero fun hzero => hmore (.inl hzero)
    split
    · next hlarge => exact (nearest_eq_infinite hdenominator (le_of_length_text hpos hlarge)).symm
    · rfl

/-- A numeral is read as the double nearest to its digits over a power of ten. -/
theorem toDouble_numeral (t : Numeral) :
    t.toDouble = nearest false (ofAscii (t.whole ++ t.places)) (10 ^ t.places.length) := by
  have hto : (-(t.places.length : ℤ)).toNat = 0 := by omega
  have hto' : (- -(t.places.length : ℤ)).toNat = t.places.length := by omega
  rw [Numeral.toDouble, toDouble_eq]
  simp only [numerator, denominator, hto, hto', Nat.pow_eq, Nat.pow_zero, Nat.mul_one]

/-- A numeral is read as the double nearest to the number that its digits write. -/
theorem toDouble_eq_ofRat (t : Numeral) : t.toDouble = ofRat t.rational := by
  have hten : (0 : ℚ) < 10 ^ t.places.length := by positivity
  have hnonneg : 0 ≤ t.rational := by
    unfold Numeral.rational
    positivity
  have hvalue : (ofAscii (t.whole ++ t.places) : ℚ) / (10 ^ t.places.length : ℕ) =
      (t.rational.num.natAbs : ℚ) / t.rational.den := by
    rw [natAbs_div_den, abs_of_nonneg hnonneg, ofAscii_eq, Nat.ofDigitChars_append, Nat.ofDigitChars_eq_ofDigitChars_zero]
    push_cast
    rw [add_div, mul_div_cancel_left₀ _ hten.ne']
    rfl
  rw [toDouble_numeral, ofRat, nearest_congr (Nat.pow_pos (by decide)) t.rational.den_pos hvalue]
  congr 1
  exact (decide_eq_false (not_lt.mpr (Rat.num_nonneg.mpr hnonneg))).symm

theorem toDouble_text (n : ℕ) : Numeral.toDouble ⟨text n, []⟩ = ofRat n := by
  rw [toDouble_eq_ofRat, Numeral.rational, ← ofAscii_eq, ofAscii_text]
  simp

end Decimal

end PolyPlot
