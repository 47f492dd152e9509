import PolyPlot.Proofs.Decimal.Numerals

namespace PolyPlot.Decimal

open Double

variable {negative : Bool} {m n d a : ℕ} {e grid : ℤ} {q : ℚ} {x : Float}

/-- A rational is between the bounds of the reals that round to `m * 2 ^ e`. The bounds themselves round
to it only if the mantissa is even. -/
structure Between (m : ℕ) (e : ℤ) (q : ℚ) : Prop where
  low : (bounds m e).1 * 2 ^ (e - 2) ≤ q
  high : q ≤ (bounds m e).2 * 2 ^ (e - 2)
  strict : m % 2 = 1 → (bounds m e).1 * 2 ^ (e - 2) < q ∧ q < (bounds m e).2 * 2 ^ (e - 2)

theorem quarter_eq (e : ℤ) : (2 : ℚ) ^ e = 4 * 2 ^ (e - 2) := by
  rw [zpow_sub₀ two_ne_zero]
  norm_num
  ring

theorem bounds_snd (m : ℕ) (e : ℤ) : ((bounds m e).2 : ℚ) * 2 ^ (e - 2) = (m + 1 / 2) * 2 ^ e := by
  rw [bounds, quarter_eq e]
  push_cast
  ring

/-- The lower bound is half a unit away where the doubles below have the same unit. -/
theorem bounds_fst (hm : 0 < m) (h : m ≠ leadingBit ∨ e = -1074) :
    ((bounds m e).1 : ℚ) * 2 ^ (e - 2) = (m - 1 / 2) * 2 ^ e := by
  have hsame : ¬ (m = leadingBit ∧ -1074 < e) := by omega
  have hcast : ((4 * m - 2 : ℕ) : ℚ) = 4 * m - 2 := by
    rw [Nat.cast_sub (by omega)]
    push_cast
    ring
  rw [bounds, quarter_eq e, if_neg hsame, hcast]
  ring

/-- Below a power of two the unit is half as great. -/
theorem bounds_fst_leadingBit (he : -1074 < e) :
    ((bounds leadingBit e).1 : ℚ) * 2 ^ (e - 2) = (leadingBit - 1 / 4) * 2 ^ e := by
  have hcast : ((4 * leadingBit - 1 : ℕ) : ℚ) = 4 * leadingBit - 1 := by
    rw [Nat.cast_sub (by decide)]
    push_cast
    ring
  rw [bounds, quarter_eq e, if_pos ⟨rfl, he⟩, hcast]
  ring

namespace Between

/-- A rational that is not below the least mantissa with the exponent has the parts of the double. -/
theorem rounds (hc : Canonical m e) (hm : 0 < m) (h : Between m e q)
    (hlower : 2 ^ 52 * 2 ^ e ≤ q ∨ e = -1074) : Rounds q m e := by
  have hunit : (0 : ℚ) < 2 ^ e := by positivity
  have hlt : (m : ℚ) + 1 ≤ 2 ^ 53 := by
    have hlt := hc.lt
    rw [leadingBit_eq] at hlt
    exact_mod_cast (by omega : m + 1 ≤ 2 ^ 53)
  have hhigh := h.high
  rw [bounds_snd] at hhigh
  have hlow : (m - 1 / 2) * 2 ^ e ≤ q := by
    by_cases hsame : m ≠ leadingBit ∨ e = -1074
    · exact bounds_fst hm hsame ▸ h.low
    · obtain ⟨rfl, he⟩ : m = leadingBit ∧ e ≠ -1074 := by omega
      refine le_trans ?_ (hlower.resolve_right he)
      rw [leadingBit_eq]
      push_cast
      nlinarith
  refine ⟨hc.least, hlower, ?_, ?_, fun htie => ?_⟩
  · calc q ≤ (m + 1 / 2) * 2 ^ e := hhigh
      _ < 2 ^ 53 * 2 ^ e := by nlinarith
  · rw [abs_le, le_sub_iff_add_le, sub_le_iff_le_add, le_div_iff₀ hunit, div_le_iff₀ hunit]
    constructor <;> linarith
  · by_contra hodd
    have hleading : leadingBit % 2 = 0 := by decide
    have hsame : m ≠ leadingBit ∨ e = -1074 := .inl fun heq => hodd (heq ▸ hleading)
    obtain ⟨hlow, hhigh⟩ := h.strict (by omega)
    rw [bounds_fst hm hsame] at hlow
    rw [bounds_snd] at hhigh
    refine absurd htie (ne_of_lt ?_)
    rw [abs_lt, lt_sub_iff_add_lt, sub_lt_iff_lt_add, lt_div_iff₀ hunit, div_lt_iff₀ hunit]
    constructor <;> linarith

/-- What is between the bounds and below the least mantissa with the exponent is rounded up to it, in the
smaller unit. -/
theorem rounds_below (hc : Canonical m e) (h : Between m e q) (hlt : q < 2 ^ 52 * 2 ^ e)
    (he : e ≠ -1074) : m = leadingBit ∧ Rounds q (2 * leadingBit) (e - 1) := by
  have hunit : (0 : ℚ) < 2 ^ (e - 1) := by positivity
  have hleast := hc.least
  have hfull : leadingBit ≤ m := hc.full.resolve_right he
  have hhalf : (2 : ℚ) ^ e = 2 * 2 ^ (e - 1) := by
    rw [zpow_sub_one₀ two_ne_zero]
    ring
  obtain rfl : m = leadingBit := by
    by_contra hne
    have hmore : (2 : ℚ) ^ 52 + 1 ≤ m := by
      rw [leadingBit_eq] at hfull hne
      exact_mod_cast (by omega : 2 ^ 52 + 1 ≤ m)
    have hlow := h.low
    rw [bounds_fst (by rw [leadingBit_eq] at hfull; omega) (.inl hne), hhalf] at hlow
    rw [hhalf] at hlt
    nlinarith
  have hlow := h.low
  rw [bounds_fst_leadingBit (by omega), hhalf, leadingBit_eq] at hlow
  rw [hhalf] at hlt
  push_cast at hlow
  refine ⟨rfl, by omega, .inl (by linarith), by linarith, ?_, fun _ => by decide⟩
  rw [abs_le, le_sub_iff_add_le, sub_le_iff_le_add, le_div_iff₀ hunit, div_le_iff₀ hunit, leadingBit_eq]
  push_cast
  constructor <;> linarith

/-- The double nearest to what is between the bounds of a double. -/
theorem nearest_eq (hparts : Binary.ofFloat x = .finite negative m e) (hm : 0 < m) (hn : 0 < n)
    (hd : 0 < d) (h : Between m e (n / d)) : nearest negative n d = x := by
  obtain ⟨hc, -⟩ := canonical_of_ofFloat hparts
  by_cases hlower : 2 ^ 52 * 2 ^ e ≤ (n : ℚ) / d ∨ e = -1074
  · rw [nearest_eq_ofParts hn hd (h.rounds hc hm hlower), eq_ofParts_of_ofFloat hparts]
  · obtain ⟨hlt, he⟩ := not_or.mp hlower
    obtain ⟨rfl, hrounds⟩ := h.rounds_below hc (not_le.mp hlt) he
    have hleast := hc.least
    rw [nearest_eq_ofParts hn hd hrounds, ofParts_carry (by omega), sub_add_cancel,
      eq_ofParts_of_ofFloat hparts]

theorem half_least_le (hc : Canonical m e) (hm : 0 < m) (h : Between m e q) : 2 ^ (-1075 : ℤ) ≤ q := by
  have hleast : (2 : ℚ) ^ (-1075 : ℤ) ≤ 2 ^ (e - 1) := zpow_le_zpow_right₀ one_le_two (by have := hc.least; omega)
  have hquarter : (2 : ℚ) ^ (e - 1) = 2 * 2 ^ (e - 2) := by
    rw [← zpow_one_add₀ two_ne_zero]
    congr 1
    ring
  have htwo : (2 : ℚ) ≤ (bounds m e).1 := by
    have hnat : 2 ≤ (bounds m e).1 := by
      rw [bounds]
      dsimp only
      split <;> omega
    exact_mod_cast hnat
  calc (2 : ℚ) ^ (-1075 : ℤ) ≤ 2 * 2 ^ (e - 2) := hquarter ▸ hleast
    _ ≤ (bounds m e).1 * 2 ^ (e - 2) := by gcongr
    _ ≤ q := h.low

end Between

theorem digits_pos_of_between {y : Decimal} (hc : Canonical m e) (hm : 0 < m)
    (h : Between m e y.rational) : 0 < y.digits := by
  have hpos : 0 < y.rational := lt_of_lt_of_le (by positivity) (h.half_least_le hc hm)
  by_contra hzero
  obtain hzero : y.digits = 0 := by omega
  rw [rational, hzero, Nat.cast_zero, zero_mul] at hpos
  exact lt_irrefl 0 hpos

/-- Digits that write a number between the bounds of a double read back as the double. -/
theorem toDouble_of_between {y : Decimal} (hparts : Binary.ofFloat x = .finite negative m e) (hm : 0 < m)
    (h : Between m e y.rational) : toDouble negative y = x := by
  obtain ⟨hc, -⟩ := canonical_of_ofFloat hparts
  have hdigits := digits_pos_of_between hc hm h
  rw [toDouble_eq]
  rw [rational, ← numerator_div_denominator] at h
  exact h.nearest_eq hparts hm (Nat.mul_pos hdigits (Nat.pow_pos (by decide))) (Nat.pow_pos (by decide))

/-- A positive fraction is not below the power of ten of its first digit. -/
theorem pow_leadingExponent_le (hn : 0 < n) (hd : 0 < d) : (10 : ℚ) ^ leadingExponent n d ≤ n / d := by
  have hd' : (0 : ℚ) < d := by exact_mod_cast hd
  unfold leadingExponent
  dsimp only
  generalize he : ((text n).length : ℤ) - (text d).length = e
  rw [le_div_iff₀ hd']
  split
  · have hpos : 0 < (text n).length := List.length_pos_iff.mpr (text_ne_nil n)
    have hlow : (10 : ℚ) ^ (((text n).length - 1 : ℕ) : ℤ) ≤ n := by
      rw [zpow_natCast]
      exact_mod_cast pow_length_text_le hn
    have hhigh : (d : ℚ) ≤ 10 ^ ((text d).length : ℤ) := by
      rw [zpow_natCast]
      exact_mod_cast (lt_pow_length_text d).le
    calc (10 : ℚ) ^ (e - 1) * d ≤ 10 ^ (e - 1) * 10 ^ ((text d).length : ℤ) := by gcongr
      _ = 10 ^ (((text n).length - 1 : ℕ) : ℤ) := by
          rw [← zpow_add₀ (by norm_num)]
          congr 1
          omega
      _ ≤ n := hlow
  · next hlong =>
    have hden : (0 : ℚ) < denominator e := by exact_mod_cast Nat.pow_pos (by decide)
    have hle : (numerator d e : ℚ) ≤ n * denominator e := by exact_mod_cast not_lt.mp hlong
    rw [mul_comm, ← numerator_div_denominator, div_le_iff₀ hden]
    exact hle

/-- The unit in which the multiples of a power of ten are compared with the bounds of a double, and the
quarter of the double's own in it. -/
theorem exists_scale (e grid : ℤ) : ∃ s : ℚ, 0 < s ∧
    (∀ a : ℕ, ((a * numerator (Binary.denominator (e - 2)) grid : ℕ) : ℚ) = a * 10 ^ grid * s) ∧
    ∀ b : ℕ, ((b * (Binary.numerator 1 (e - 2) * denominator grid) : ℕ) : ℚ) = b * 2 ^ (e - 2) * s := by
  have hbinary := Binary.numerator_div_denominator 1 (e - 2)
  have hdecimal := numerator_div_denominator (Binary.denominator (e - 2)) grid
  have hb : (0 : ℚ) < Binary.denominator (e - 2) := by exact_mod_cast Nat.pow_pos two_pos
  have hd : (0 : ℚ) < denominator grid := by exact_mod_cast Nat.pow_pos (by decide)
  rw [div_eq_iff hb.ne', Nat.cast_one, one_mul] at hbinary
  rw [div_eq_iff hd.ne'] at hdecimal
  refine ⟨Binary.denominator (e - 2) * denominator grid, mul_pos hb hd, fun a => ?_, fun b => ?_⟩
  · rw [Nat.cast_mul, hdecimal]
    ring
  · rw [Nat.cast_mul, Nat.cast_mul, hbinary]
    ring

/-- The test for a multiple that reads back, in any unit. -/
theorem readsBack_iff {quarter unit : ℕ} {s : ℚ} (hs : 0 < s)
    (hunit : ((a * unit : ℕ) : ℚ) = a * 10 ^ grid * s)
    (hquarter : ∀ b : ℕ, ((b * quarter : ℕ) : ℚ) = b * 2 ^ (e - 2) * s) :
    (if m % 2 = 0 then (bounds m e).1 * quarter ≤ a * unit ∧ a * unit ≤ (bounds m e).2 * quarter
      else (bounds m e).1 * quarter < a * unit ∧ a * unit < (bounds m e).2 * quarter) ↔
    Between m e (a * 10 ^ grid) := by
  simp only [← Nat.cast_le (α := ℚ), ← Nat.cast_lt (α := ℚ), hunit, hquarter, mul_le_mul_iff_left₀ hs,
    mul_lt_mul_iff_left₀ hs]
  split
  · next heven => exact ⟨fun h => ⟨h.1, h.2, by omega⟩, fun h => ⟨h.low, h.high⟩⟩
  · exact ⟨fun h => ⟨h.1.le, h.2.le, fun _ => h⟩, fun h => h.strict (by omega)⟩

theorem between_of_onGrid? {y : Decimal} (h : onGrid? m e grid = some y) : Between m e y.rational := by
  obtain ⟨s, hs, hunit, hquarter⟩ := exists_scale e grid
  unfold onGrid? at h
  obtain ⟨a, hfind, rfl⟩ := Option.map_eq_some_iff.mp h
  have htest := List.find?_some hfind
  exact (readsBack_iff hs (hunit a) hquarter).mp (of_decide_eq_true htest)

/-- A multiple is found if the nearest one is between the bounds. -/
theorem exists_onGrid? (h : ∀ a : ℕ, NearestEven (m * 2 ^ e / 10 ^ grid) a → Between m e (a * 10 ^ grid)) :
    ∃ y, onGrid? m e grid = some y := by
  obtain ⟨s, hs, hunit, hquarter⟩ := exists_scale e grid
  have hpos : 0 < numerator (Binary.denominator (e - 2)) grid :=
    Nat.mul_pos (Nat.pow_pos two_pos) (Nat.pow_pos (by decide))
  have hquotient : ((4 * m * (Binary.numerator 1 (e - 2) * denominator grid) : ℕ) : ℚ) /
      numerator (Binary.denominator (e - 2)) grid = m * 2 ^ e / 10 ^ grid := by
    have hone := hunit 1
    rw [one_mul, Nat.cast_one, one_mul] at hone
    rw [hquarter, hone, mul_div_mul_right _ _ hs.ne', quarter_eq e]
    push_cast
    ring
  have hnearest := nearestEven_divideToEven (4 * m * (Binary.numerator 1 (e - 2) * denominator grid)) hpos
  rw [hquotient] at hnearest
  have htest := (readsBack_iff hs (hunit _) hquarter).mpr (h _ hnearest)
  refine ⟨⟨divideToEven (4 * m * (Binary.numerator 1 (e - 2) * denominator grid))
    (numerator (Binary.denominator (e - 2)) grid), grid⟩, ?_⟩
  unfold onGrid?
  refine congrArg (Option.map _) (List.find?_cons_of_pos ?_)
  exact decide_eq_true htest

/-- With seventeen digits the nearest multiple is between the bounds. -/
theorem between_of_fine (hc : Canonical m e) (hm : 0 < m) (hfine : (10 : ℚ) ^ (grid + 16) ≤ m * 2 ^ e)
    (h : NearestEven (m * 2 ^ e / 10 ^ grid) a) : Between m e (a * 10 ^ grid) := by
  have hunit : (0 : ℚ) < 2 ^ e := by positivity
  have hten : (0 : ℚ) < 10 ^ grid := by positivity
  rw [zpow_add₀ (by norm_num)] at hfine
  have hhalf := h.le_half
  rw [abs_le, le_sub_iff_add_le, sub_le_iff_le_add, le_div_iff₀ hten, div_le_iff₀ hten] at hhalf
  obtain ⟨hlow, hhigh⟩ := hhalf
  have hlt : (m : ℚ) < 2 ^ 53 := by
    have hlt := hc.lt
    rw [leadingBit_eq] at hlt
    exact_mod_cast (by omega : m < 2 ^ 53)
  have hcoarse : (10 : ℚ) ^ grid < 2 ^ e := by nlinarith
  have habove : (a : ℚ) * 10 ^ grid < (bounds m e).2 * 2 ^ (e - 2) := by
    rw [bounds_snd]
    linarith
  have hbelow : (bounds m e).1 * 2 ^ (e - 2) < (a : ℚ) * 10 ^ grid := by
    by_cases hsame : m ≠ leadingBit ∨ e = -1074
    · rw [bounds_fst hm hsame]
      linarith
    · obtain ⟨rfl, he⟩ : m = leadingBit ∧ -1074 < e := by have := hc.least; omega
      rw [bounds_fst_leadingBit he]
      rw [leadingBit_eq] at *
      push_cast at *
      linarith
  exact ⟨hbelow.le, habove.le, fun _ => ⟨hbelow, habove⟩⟩

/-- Dropping zeros keeps the number. -/
theorem rational_reduced (fuel : ℕ) (y : Decimal) : (reduced fuel y).rational = y.rational := by
  induction fuel generalizing y with
  | zero => rfl
  | succ fuel ih =>
    rw [reduced]
    split
    · next hzero =>
      have hdigits : (y.digits : ℚ) = (y.digits / 10 : ℕ) * 10 := by
        exact_mod_cast (Nat.div_mul_cancel (Nat.dvd_of_mod_eq_zero hzero.1)).symm
      rw [ih, rational, rational, hdigits, zpow_add_one₀ (by norm_num)]
      ring
    · rfl

/-- The shortest digits of a double are between its bounds. -/
theorem between_shortest (hc : Canonical m e) (hm : 0 < m) : Between m e (shortest m e).rational := by
  have hnum : 0 < Binary.numerator m e := Nat.mul_pos hm (Nat.pow_pos two_pos)
  have hden : 0 < Binary.denominator e := Nat.pow_pos two_pos
  have hlead := pow_leadingExponent_le hnum hden
  rw [Binary.numerator_div_denominator] at hlead
  unfold shortest
  dsimp only
  rw [rational_reduced]
  generalize leadingExponent (Binary.numerator m e) (Binary.denominator e) = lead at hlead
  have hfinest : (10 : ℚ) ^ (lead - (16 : ℕ) + 16) ≤ m * 2 ^ e := by
    rwa [Nat.cast_ofNat, sub_add_cancel]
  obtain ⟨y, hy⟩ := exists_onGrid? fun a => between_of_fine (a := a) hc hm hfinest
  obtain ⟨z, hz⟩ : ∃ z, (List.range 17).findSome? (fun more => onGrid? m e (lead - (more : ℕ))) = some z := by
    rw [← Option.isSome_iff_exists, List.findSome?_isSome_iff]
    exact ⟨16, by decide, by rw [hy]; rfl⟩
  obtain ⟨more, -, hfound⟩ := List.exists_of_findSome?_eq_some hz
  rw [hz, Option.getD_some]
  exact between_of_onGrid? hfound

/-- Whatever writes the number of the shortest digits of a double reads back as the double. -/
theorem toDouble_of_rational {y : Decimal} (hparts : Binary.ofFloat x = .finite negative m e) (hm : 0 < m)
    (hy : y.rational = (shortest m e).rational) : toDouble negative y = x := by
  apply toDouble_of_between hparts hm
  rw [hy]
  exact between_shortest (canonical_of_ofFloat hparts).1 hm

end PolyPlot.Decimal
