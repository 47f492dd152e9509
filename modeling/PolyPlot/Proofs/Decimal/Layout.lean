import PolyPlot.Decimal.Layout
import PolyPlot.Proofs.Decimal.Shortest

namespace PolyPlot

/-- The number that a numeral with an exponent writes. -/
def Numeral.decimal (t : Numeral) (e : ℤ) : Decimal :=
  ⟨Decimal.ofAscii (t.whole ++ t.places), e - t.places.length⟩

namespace Decimal

variable {s : List Char} {n : ℕ} {x : Decimal}

/-- A zero comes first only if no digit follows. -/
def NoLeadingZero (s : List Char) : Prop :=
  s = ['0'] ∨ s.head? ≠ some '0'

theorem head?_text (hn : 0 < n) : (text n).head? ≠ some '0' := by
  induction n using Nat.strongRecOn with
  | ind n ih =>
    rcases lt_or_ge n 10 with hsmall | hlarge
    · rw [text, Nat.toDigits_of_lt_base hsmall]
      interval_cases n <;> decide
    · rw [text, Nat.toDigits_of_base_le (by decide) hlarge, List.head?_append_of_ne_nil _ Nat.toDigits_ne_nil]
      exact ih (n / 10) (by omega) (by omega)

theorem noLeadingZero_text (n : ℕ) : NoLeadingZero (text n) := by
  rcases Nat.eq_zero_or_pos n with rfl | hn
  · exact .inl rfl
  · exact .inr (head?_text hn)

/-- Digits filled up with zeros on either side until one stands before the point. -/
def filled (s : List Char) (whole : ℤ) : List Char :=
  List.replicate (1 - whole).toNat '0' ++ s ++
    List.replicate ((max whole 1).toNat - ((1 - whole).toNat + s.length)) '0'

theorem length_filled (s : List Char) (whole : ℤ) : (filled s whole).length =
    (1 - whole).toNat + s.length + ((max whole 1).toNat - ((1 - whole).toNat + s.length)) := by
  simp [filled, Nat.add_assoc]

/-- The point is put into the digits that are filled up. -/
theorem pointed_eq_text (s : List Char) (whole : ℤ) : pointed s whole =
    Numeral.text ⟨(filled s whole).take (max whole 1).toNat, (filled s whole).drop (max whole 1).toNat⟩ := by
  have hfilled : filled s whole = List.replicate (1 - whole).toNat '0' ++ s ++
      List.replicate ((max whole 1).toNat - (List.replicate (1 - whole).toNat '0' ++ s).length) '0' := by
    rw [List.length_append, List.length_replicate]
    rfl
  unfold pointed
  rw [hfilled]
  dsimp only
  split
  · next hnone =>
    rw [Numeral.text, hnone, List.isEmpty_nil, if_pos rfl, List.append_nil,
      List.take_of_length_le (List.drop_eq_nil_iff.mp hnone)]
  · next hsome => rw [Numeral.text, if_neg (by simpa using hsome)]

/-- Digits with a point, and with zeros where digits are missing, are a numeral of the same number. -/
theorem exists_numeral_pointed (hs : ∀ c ∈ s, c.isDigit = true) (hne : s ≠ []) (hzero : s.head? ≠ some '0')
    (whole : ℤ) :
    ∃ t : Numeral, t.WellFormed ∧ NoLeadingZero t.whole ∧ pointed s whole = t.text ∧
      ∀ e, (t.decimal e).rational = ofAscii s * 10 ^ (whole + e - s.length) := by
  have hlength := length_filled s whole
  have hpos : 0 < s.length := List.length_pos_iff.mpr hne
  have hdigits : ∀ c ∈ filled s whole, c.isDigit = true := by
    intro c hc
    simp only [filled, List.mem_append, List.mem_replicate] at hc
    rcases hc with (⟨-, rfl⟩ | hc) | ⟨-, rfl⟩
    · rfl
    · exact hs c hc
    · rfl
  refine ⟨_, ⟨?_, fun c hc => hdigits c (List.mem_of_mem_take hc), fun c hc =>
    hdigits c (List.mem_of_mem_drop hc)⟩, ?_, pointed_eq_text s whole, fun e => ?_⟩
  · rw [← List.length_pos_iff, List.length_take]
    omega
  · rcases le_or_gt whole 0 with hbehind | hbefore
    · have hone : (max whole 1).toNat = 1 := by omega
      obtain ⟨k, hk⟩ : ∃ k, (1 - whole).toNat = k + 1 := ⟨(-whole).toNat, by omega⟩
      refine .inl ?_
      simp [filled, hone, hk, List.replicate_succ]
    · have hnone : (1 - whole).toNat = 0 := by omega
      refine .inr ?_
      rw [List.head?_take, if_neg (by omega), filled, hnone, List.replicate_zero, List.nil_append,
        List.head?_append_of_ne_nil _ hne]
      exact hzero
  · have hvalue : ofAscii ((filled s whole).take (max whole 1).toNat ++
        (filled s whole).drop (max whole 1).toNat) =
        ofAscii s * 10 ^ ((max whole 1).toNat - ((1 - whole).toNat + s.length)) := by
      rw [List.take_append_drop, filled, ofAscii_append_zeros, ofAscii_zeros]
    rw [rational, Numeral.decimal, hvalue, List.length_drop]
    push_cast
    rw [mul_assoc, ← zpow_natCast, ← zpow_add₀ (by norm_num)]
    congr 2
    omega

/-- A numeral without places has one with a zero behind the point. -/
theorem rational_append_zero (w : List Char) :
    (Numeral.decimal ⟨w, ['0']⟩ 0).rational = (Numeral.decimal ⟨w, []⟩ 0).rational := by
  have hzero := ofAscii_append_zeros w 1
  rw [List.replicate_one, pow_one] at hzero
  simp [rational, Numeral.decimal, hzero]

/-- The shortest text of a number is a numeral with places that writes it, or a numeral that writes it
with the exponent behind. -/
theorem exists_numeral_shortText (hx : 0 < x.digits) :
    ∃ t : Numeral, t.WellFormed ∧ NoLeadingZero t.whole ∧
      (t.places ≠ [] ∧ shortText x = t.text ∧ (t.decimal 0).rational = x.rational ∨
        ∃ e, shortText x = t.text ++ exponentText 'e' e ∧ (t.decimal e).rational = x.rational) := by
  have hpointed := exists_numeral_pointed (s := text x.digits) (fun c hc => isDigit_of_mem_text hc)
    (text_ne_nil x.digits) (head?_text hx)
  unfold shortText
  dsimp only
  generalize hlead : x.exponent + ((text x.digits).length : ℤ) - 1 = lead
  split
  · obtain ⟨t, ht, hlow, htext, hvalue⟩ := hpointed (lead + 1)
    have hrational : (t.decimal 0).rational = x.rational := by
      rw [hvalue, ofAscii_text, rational]
      congr 2
      omega
    rw [htext]
    by_cases hplaces : t.places = []
    · have hnone : t.text.contains '.' = false := by
        simp only [Numeral.text, hplaces, List.isEmpty_nil, if_true, List.append_nil, List.contains_eq_mem,
          decide_eq_false_iff_not]
        exact fun hmem => ne_point_of_isDigit (ht.2.1 _ hmem) rfl
      refine ⟨⟨t.whole, ['0']⟩, ⟨ht.1, ht.2.1, by simp⟩, hlow, .inl ⟨by simp, ?_, ?_⟩⟩
      · rw [hnone, if_neg (by decide), Numeral.text, hplaces]
        simp [Numeral.text]
      · rw [rational_append_zero, ← hrational, ← hplaces]
    · have hpoint : t.text.contains '.' = true := by
        simp [Numeral.text, hplaces]
      exact ⟨t, ht, hlow, .inl ⟨hplaces, if_pos hpoint, hrational⟩⟩
  · obtain ⟨t, ht, hlow, htext, hvalue⟩ := hpointed 1
    refine ⟨t, ht, hlow, .inr ⟨lead, by rw [htext], ?_⟩⟩
    rw [hvalue, ofAscii_text, rational]
    congr 2
    omega

end Decimal

end PolyPlot
