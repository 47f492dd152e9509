import PolyPlot.Coeffs.Printer
import PolyPlot.Proofs.Decimal.Places
import PolyPlot.Proofs.Decimal.Reading

namespace PolyPlot.Decimal

open Double

variable {negative : Bool} {k m n places : ℕ} {e : ℤ} {x : Float} {s w f : List Char}

/-- Without the zeros at the end of its places a numeral reads alike. -/
theorem toDouble_append_zeros (w f : List Char) (j : ℕ) :
    Numeral.toDouble ⟨w, f⟩ = nearest false (ofAscii (w ++ (f ++ List.replicate j '0')))
      (10 ^ (f.length + j)) := by
  have hten : (10 : ℚ) ^ j ≠ 0 := by positivity
  rw [toDouble_numeral, ← List.append_assoc, ofAscii_append_zeros]
  apply nearest_congr (by positivity) (by positivity)
  push_cast
  rw [pow_add, mul_div_mul_right _ _ hten]

/-- A text is zeros behind nothing or behind another character. -/
theorem exists_trailing_zeros (f : List Char) :
    ∃ f' j, f = f' ++ List.replicate j '0' ∧ (f' = [] ∨ ∃ g c, f' = g ++ [c] ∧ c ≠ '0') := by
  induction f using List.reverseRecOn with
  | nil => exact ⟨[], 0, rfl, .inl rfl⟩
  | append_singleton f c ih =>
    by_cases hc : c = '0'
    · obtain ⟨f', j, rfl, hlast⟩ := ih
      refine ⟨f', j + 1, ?_, hlast⟩
      rw [hc, List.replicate_succ', List.append_assoc]
    · exact ⟨f ++ [c], 0, by rw [List.replicate_zero, List.append_nil], .inr ⟨f, c, rfl, hc⟩⟩

theorem ne_point_of_isDigit {c : Char} (hc : c.isDigit = true) : c ≠ '.' := by
  rintro rfl
  cases hc

theorem isDigit_getLast {w : List Char} (hw : ∀ c ∈ w, c.isDigit = true) (hwne : w ≠ []) :
    ∃ v c, w = v ++ [c] ∧ c.isDigit = true := by
  refine ⟨w.dropLast, w.getLast hwne, (List.dropLast_append_getLast hwne).symm,
    hw _ (List.getLast_mem hwne)⟩

/-- Dropping zeros leaves a numeral with fewer places. -/
theorem dropZeros_pointed (hw : ∀ c ∈ w, c.isDigit = true) (hf : ∀ c ∈ f, c.isDigit = true)
    (hwne : w ≠ []) :
    ∃ f' j, f = f' ++ List.replicate j '0' ∧ dropZeros (w ++ '.' :: f) = Numeral.text ⟨w, f'⟩ := by
  obtain ⟨f', j, rfl, hlast⟩ := exists_trailing_zeros f
  refine ⟨f', j, rfl, ?_⟩
  have hpoint : (w ++ '.' :: (f' ++ List.replicate j '0')).contains '.' = true := by simp
  have hreverse : (w ++ '.' :: (f' ++ List.replicate j '0')).reverse =
      List.replicate j '0' ++ (f'.reverse ++ '.' :: w.reverse) := by simp
  have hzeros : ∀ c ∈ List.replicate j '0', (c == '0') = true := by
    intro c hc
    rw [List.eq_of_mem_replicate hc]
    rfl
  rw [dropZeros, if_pos hpoint, hreverse, List.dropWhile_append_of_pos hzeros]
  rcases hlast with rfl | ⟨g, c, rfl, hc⟩
  · obtain ⟨v, d, rfl, hd⟩ := isDigit_getLast hw hwne
    have hd' : (d == '.') = false := by simpa using ne_point_of_isDigit hd
    simp [Numeral.text, hd']
  · have hc0 : (c == '0') = false := by simpa using hc
    have hc' : (c == '.') = false := by
      simpa using ne_point_of_isDigit (hf c (by simp))
    simp [Numeral.text, hc0, hc']

/-- Digits with a point before the last places; there is none without places. -/
theorem pointed_eq {s : List Char} (hlength : places + 1 ≤ s.length) : pointed s ((s.length : ℤ) - places) =
    if places = 0 then s else s.take (s.length - places) ++ '.' :: s.drop (s.length - places) := by
  have hpadded : ((1 : ℤ) - ((s.length : ℤ) - places)).toNat = 0 := by omega
  have hbefore : (max ((s.length : ℤ) - places) 1).toNat = s.length - places := by omega
  have hfilled : s.length - places - s.length = 0 := by omega
  unfold pointed
  simp only [hpadded, hbefore, hfilled, List.replicate_zero, List.nil_append, List.append_nil]
  split
  · next hnone =>
    rw [List.drop_eq_nil_iff] at hnone
    rw [if_pos (by omega)]
  · next hsome =>
    rw [if_neg]
    rintro rfl
    rw [Nat.sub_zero, List.drop_length] at hsome
    exact hsome rfl

/-- The digits of a fraction with places are a whole part and as many places, which together count
the last places. -/
theorem fixedChars_eq (places num den : ℕ) :
    ∃ w f, w ≠ [] ∧ (∀ c ∈ w, c.isDigit = true) ∧ (∀ c ∈ f, c.isDigit = true) ∧ f.length = places ∧
      ofAscii (w ++ f) = roundTo num den (-places) ∧
      fixedChars places num den = if places = 0 then w else w ++ '.' :: f := by
  generalize hk : roundTo num den (-places) = k
  generalize hs : List.replicate (places + 1 - (text k).length) '0' ++ text k = s
  have hlength : places + 1 ≤ s.length := by
    rw [← hs, List.length_append, List.length_replicate]
    omega
  have hdigits : ∀ c ∈ s, c.isDigit = true := by
    intro c hc
    rw [← hs, List.mem_append] at hc
    rcases hc with hzero | hdigit
    · rw [List.eq_of_mem_replicate hzero]
      rfl
    · exact isDigit_of_mem_text hdigit
  have hfixed : fixedChars places num den = pointed s ((s.length : ℤ) - places) := by
    rw [fixedChars, hk, hs]
  refine ⟨s.take (s.length - places), s.drop (s.length - places), ?_,
    fun c hc => hdigits c (List.mem_of_mem_take hc), fun c hc => hdigits c (List.mem_of_mem_drop hc), ?_, ?_, ?_⟩
  · rw [← List.length_pos_iff, List.length_take]
    omega
  · rw [List.length_drop]
    omega
  · rw [List.take_append_drop, ← hs, ofAscii_zeros, ofAscii_text]
  · rw [hfixed, pointed_eq hlength]
    split
    · next hzero => rw [hzero, Nat.sub_zero, List.take_length]
    · rfl

/-- A fixed count of digits without needless zeros is the numeral of the count of last places. -/
theorem exists_numeral_fixedChars (places num den : ℕ) :
    ∃ t : Numeral, t.WellFormed ∧ dropZeros (fixedChars places num den) = t.text ∧
      t.toDouble = nearest false (roundTo num den (-places)) (10 ^ places) := by
  obtain ⟨w, f, hwne, hw, hf, hlength, hcount, hfixed⟩ := fixedChars_eq places num den
  rw [hfixed, ← hcount]
  rcases Nat.eq_zero_or_pos places with rfl | hpos
  · obtain rfl : f = [] := List.eq_nil_of_length_eq_zero hlength
    have hnone : w.contains '.' = false := by
      simp only [List.contains_eq_mem, decide_eq_false_iff_not]
      exact fun hmem => ne_point_of_isDigit (hw _ hmem) rfl
    refine ⟨⟨w, []⟩, ⟨hwne, hw, hf⟩, ?_, toDouble_numeral ⟨w, []⟩⟩
    rw [if_pos rfl, dropZeros, hnone]
    exact (List.append_nil w).symm
  · obtain ⟨f', j, rfl, htext⟩ := dropZeros_pointed hw hf hwne
    rw [List.length_append, List.length_replicate] at hlength
    refine ⟨⟨w, f'⟩, ⟨hwne, hw, fun c hc => hf c (List.mem_append_left _ hc)⟩, ?_, ?_⟩
    · rw [if_neg hpos.ne', htext]
    · rw [← hlength]
      exact toDouble_append_zeros w f' j

/-- The numeral of a magnitude that was rounded to places is well-formed, and reads back. -/
theorem exists_numeral (hplaces : places ≤ 9) (hx : x = nearest false k (10 ^ places))
    (hparts : Binary.ofFloat x = .finite false m e) :
    ∃ t : Numeral, t.WellFormed ∧ Coeffs.numeral places x = .ok (String.ofList t.text) ∧
      t.toDouble = x := by
  have hfinite : x.isFinite = true := isFinite_iff.mpr ⟨_, _, _, hparts⟩
  unfold Coeffs.numeral
  rw [truncate_eq hparts]
  simp only [bind, Except.bind, pure, Except.pure]
  split
  · next hwhole =>
    obtain ⟨N, hN⟩ := whole_of_beq_ofInt hparts hwhole
    refine ⟨⟨text N, []⟩, ⟨text_ne_nil N, fun c hc => isDigit_of_mem_text hc, by simp⟩, ?_, ?_⟩
    · rw [hN, Int.floor_natCast, intText, if_neg (by omega), Int.natAbs_natCast]
      simp [Numeral.text]
    · rw [toDouble_text, ← hN, ofRat_value_of_nonneg hparts]
  · next hfraction =>
    rw [if_neg (by unfold Coeffs.mostNumeralPlaces; omega)]
    obtain ⟨t, ht, htext, hread⟩ := exists_numeral_fixedChars places (Binary.numerator m e)
      (Binary.denominator e)
    refine ⟨t, ht, ?_, ?_⟩
    · have hfixed : (fixed (places : ℤ).toNat x).toList =
          fixedChars places (Binary.numerator m e) (Binary.denominator e) := by
        rw [fixed, Decimal.withSign, hparts, Int.toNat_natCast, String.toList_ofList]
        rfl
      rw [hfixed, htext]
    · rw [hread]
      exact nearest_roundTo hplaces hx hparts (nearestEven_roundTo_binary m e places)

end PolyPlot.Decimal
