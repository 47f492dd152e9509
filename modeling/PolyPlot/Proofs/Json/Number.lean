import PolyPlot.Proofs.Decimal.Layout
import PolyPlot.Proofs.Json.Text

namespace PolyPlot.Json

open Decimal

variable {negative : Bool} {c : Char} {w rest : List Char} {t : Numeral} {e : ℤ} {x : Float}

/-- A text that may stand behind a value: the end, or a comma or a bracket that closes. -/
def EndsValue (rest : List Char) : Prop :=
  ∀ c ∈ rest.head?, c ∈ [',', ']', '}']

theorem endsValue_cons (hc : c ∈ [',', ']', '}']) : EndsValue (c :: rest) := by
  simpa [EndsValue] using hc

/-- No digit comes first. -/
def EndsDigits (rest : List Char) : Prop :=
  ∀ c ∈ rest.head?, c.isDigit = false

theorem EndsValue.endsDigits (h : EndsValue rest) : EndsDigits rest := by
  intro c hc
  have hmem := h c hc
  fin_cases hmem <;> rfl

theorem EndsValue.head?_ne_point (h : EndsValue rest) : rest.head? ≠ some '.' := by
  intro hpoint
  have hmem := h '.' hpoint
  simp at hmem

theorem EndsValue.head?_ne_mark (h : EndsValue rest) : ∀ c ∈ rest.head?, c ≠ 'e' ∧ c ≠ 'E' := by
  intro c hc
  have hmem := h c hc
  fin_cases hmem <;> decide

theorem takeWhile_digits (hw : ∀ c ∈ w, c.isDigit = true) (hrest : EndsDigits rest) :
    (w ++ rest).takeWhile Char.isDigit = w ∧ (w ++ rest).dropWhile Char.isDigit = rest := by
  rw [List.takeWhile_append_of_pos hw, List.dropWhile_append_of_pos hw]
  cases rest with
  | nil => simp
  | cons c rest => simp [hrest c rfl]

theorem readFraction?_places (ht : t.WellFormed) (hplaces : t.places ≠ []) (hrest : EndsDigits rest) :
    readFraction? ('.' :: t.places ++ rest) = some (t.places, rest) := by
  obtain ⟨htake, hdrop⟩ := takeWhile_digits ht.2.2 hrest
  simp only [readFraction?, List.cons_append, htake, hdrop]
  
theorem readFraction?_none (h : rest.head? ≠ some '.') : readFraction? rest = none := by
  unfold readFraction?
  split
  · simp at h
  · rfl

theorem readExponent?_none (h : ∀ c ∈ rest.head?, c ≠ 'e' ∧ c ≠ 'E') : readExponent? rest = none := by
  cases rest with
  | nil => rfl
  | cons c rest =>
    have hc := h c rfl
    simp [readExponent?, hc.1, hc.2]

theorem signed_natAbs (e : ℤ) : Binary.signed (decide (e < 0)) e.natAbs = e := by
  unfold Binary.signed
  split
  · next hneg =>
    have hneg := of_decide_eq_true hneg
    omega
  · next hnonneg =>
    have hnonneg := of_decide_eq_false (Bool.not_eq_true _ ▸ hnonneg)
    omega

theorem readExponent?_exponentText (e : ℤ) (hrest : EndsDigits rest) :
    readExponent? (exponentText 'e' e ++ rest) = some (e, rest) := by
  generalize hd : List.replicate (2 - (Decimal.text e.natAbs).length) '0' ++ Decimal.text e.natAbs = digits
  have hdigits : ∀ c ∈ digits, c.isDigit = true := by
    intro c hc
    rw [← hd, List.mem_append] at hc
    rcases hc with hzero | hdigit
    · rw [List.eq_of_mem_replicate hzero]
      rfl
    · exact isDigit_of_mem_text hdigit
  have hne : digits ≠ [] := hd ▸ List.append_ne_nil_of_right_ne_nil _ (text_ne_nil _)
  have hvalue : ofAscii digits = e.natAbs := by rw [← hd, ofAscii_zeros, ofAscii_text]
  have hsign : takeSign ((if e < 0 then '-' else '+') :: (digits ++ rest)) = (decide (e < 0), digits ++ rest) := by
    split
    · next hneg => rw [decide_eq_true hneg, takeSign]
    · next hnonneg => rw [decide_eq_false hnonneg, takeSign]
  obtain ⟨htake, hdrop⟩ := takeWhile_digits hdigits hrest
  rw [exponentText, hd, List.cons_append, List.cons_append, readExponent?, if_pos (.inl rfl), hsign]
  simp only [htake, hdrop]
  rw [hvalue, signed_natAbs]

theorem takeMinus_sign (hne : w ≠ []) (hw : ∀ c ∈ w, c.isDigit = true) :
    takeMinus (sign negative ++ (w ++ rest)) = (negative, w ++ rest) := by
  cases negative with
  | true => rfl
  | false =>
    obtain ⟨c, v, rfl⟩ := List.exists_cons_of_ne_nil hne
    have hc : c ≠ '-' := by
      rintro rfl
      simp at hw
    unfold takeMinus
    split
    · next h =>
      cases h
      exact absurd rfl hc
    · rfl

theorem takeWhole_digits (hne : w ≠ []) (hw : ∀ c ∈ w, c.isDigit = true) (hlow : NoLeadingZero w)
    (hrest : EndsDigits rest) : takeWhole (w ++ rest) = (w, rest) := by
  rcases hlow with rfl | hfirst
  · rfl
  · obtain ⟨htake, hdrop⟩ := takeWhile_digits hw hrest
    obtain ⟨c, v, rfl⟩ := List.exists_cons_of_ne_nil hne
    have hc : c ≠ '0' := by simpa using hfirst
    unfold takeWhole
    split
    · next h =>
      cases h
      exact absurd rfl hc
    · rw [htake, hdrop]

/-- A sign and digits are taken off the front of a number. -/
theorem readNumber_eq (hne : w ≠ []) (hw : ∀ c ∈ w, c.isDigit = true) (hlow : NoLeadingZero w)
    (hrest : EndsDigits rest) :
    readNumber (sign negative ++ (w ++ rest)) = .ok (readPlaces negative w rest) := by
  have hsome : ¬ w.isEmpty = true := by simpa using hne
  unfold readNumber
  rw [takeMinus_sign hne hw]
  dsimp only
  rw [takeWhole_digits hne hw hlow hrest]
  exact if_neg hsome

/-- A text begins with a digit, or with a sign and a digit. -/
def BeginsNumber (s : List Char) : Prop :=
  ∃ negative c r, s = sign negative ++ c :: r ∧ c.isDigit = true

theorem beginsNumber_sign_append (hne : w ≠ []) (hw : ∀ c ∈ w, c.isDigit = true) (negative : Bool)
    (r : List Char) : BeginsNumber (sign negative ++ (w ++ r)) := by
  obtain ⟨c, v, rfl⟩ := List.exists_cons_of_ne_nil hne
  exact ⟨negative, c, v ++ r, rfl, hw c List.mem_cons_self⟩

theorem intText_eq (n : ℤ) : intText n = sign (decide (n < 0)) ++ Decimal.text n.natAbs := by
  unfold intText sign
  by_cases hneg : n < 0 <;> simp [hneg]

theorem beginsNumber_intText (n : ℤ) : BeginsNumber (intText n) := by
  rw [intText_eq, ← List.append_nil (Decimal.text n.natAbs)]
  exact beginsNumber_sign_append (text_ne_nil _) (fun c hc => isDigit_of_mem_text hc) _ []

/-- A whole number is read back from its digits. -/
theorem readNumber_intText (n : ℤ) (hrest : EndsValue rest) :
    readNumber (intText n ++ rest) = .ok (.int n, rest) := by
  rw [intText_eq, List.append_assoc,
    readNumber_eq (text_ne_nil _) (fun c hc => isDigit_of_mem_text hc) (noLeadingZero_text _) hrest.endsDigits,
    readPlaces, readFraction?_none hrest.head?_ne_point, readExponent?_none hrest.head?_ne_mark]
  dsimp only
  rw [ofAscii_text, signed_natAbs]

/-- A numeral with places is read as the number it writes. -/
theorem readNumber_text (ht : t.WellFormed) (hlow : NoLeadingZero t.whole) (hplaces : t.places ≠ [])
    (hrest : EndsValue rest) :
    readNumber (sign negative ++ (t.text ++ rest)) = .ok (.float (toDouble negative (t.decimal 0)), rest) := by
  have htext : t.text ++ rest = t.whole ++ ('.' :: t.places ++ rest) := by
    rw [Numeral.text, if_neg (by simpa using hplaces), List.append_assoc]
  have hpoint : EndsDigits ('.' :: t.places ++ rest) := by simp [EndsDigits]
  rw [htext, readNumber_eq ht.1 ht.2.1 hlow hpoint, readPlaces,
    readFraction?_places ht hplaces hrest.endsDigits]
  simp only [readExponent?_none hrest.head?_ne_mark, Numeral.decimal, zero_sub]

/-- A numeral with an exponent is read as the number that both write. -/
theorem readNumber_text_exponentText (ht : t.WellFormed) (hlow : NoLeadingZero t.whole) (e : ℤ)
    (hrest : EndsValue rest) :
    readNumber (sign negative ++ (t.text ++ exponentText 'e' e ++ rest)) =
      .ok (.float (toDouble negative (t.decimal e)), rest) := by
  have hmark : EndsDigits (exponentText 'e' e ++ rest) := by simp [EndsDigits, exponentText]
  have hread := readExponent?_exponentText e hrest.endsDigits
  by_cases hplaces : t.places = []
  · have htext : t.text ++ exponentText 'e' e ++ rest = t.whole ++ (exponentText 'e' e ++ rest) := by
      rw [Numeral.text, hplaces, List.isEmpty_nil, if_pos rfl, List.append_nil, List.append_assoc]
    have hnone : readFraction? (exponentText 'e' e ++ rest) = none :=
      readFraction?_none (by simp [exponentText])
    rw [htext, readNumber_eq ht.1 ht.2.1 hlow hmark, readPlaces, hnone, hread]
    simp only [Numeral.decimal, hplaces, List.append_nil, List.length_nil, Nat.cast_zero, sub_zero]
  · have htext : t.text ++ exponentText 'e' e ++ rest =
        t.whole ++ ('.' :: t.places ++ (exponentText 'e' e ++ rest)) := by
      rw [Numeral.text, if_neg (by simpa using hplaces), List.append_assoc, List.append_assoc]
    have hpoint : EndsDigits ('.' :: t.places ++ (exponentText 'e' e ++ rest)) := by simp [EndsDigits]
    rw [htext, readNumber_eq ht.1 ht.2.1 hlow hpoint, readPlaces, readFraction?_places ht hplaces hmark]
    simp only [hread, Numeral.decimal]

theorem writtenChars_zero (hparts : Binary.ofFloat x = .finite negative 0 e) :
    writtenChars x = sign negative ++ ['0', '.', '0'] := by
  unfold writtenChars
  rw [hparts]
  rfl

theorem writtenChars_of_pos {m : ℕ} (hparts : Binary.ofFloat x = .finite negative m e) (hm : 0 < m) :
    writtenChars x = sign negative ++ shortText (shortest m e) := by
  obtain ⟨k, rfl⟩ := Nat.exists_eq_succ_of_ne_zero hm.ne'
  unfold writtenChars
  rw [hparts]
  rfl

/-- The text of a finite double is a sign and a numeral that reads back, with places or with an exponent
behind. -/
theorem exists_numeral_writtenChars (hx : x.isFinite = true) :
    ∃ (negative : Bool) (t : Numeral), t.WellFormed ∧ NoLeadingZero t.whole ∧
      (t.places ≠ [] ∧ writtenChars x = sign negative ++ t.text ∧ toDouble negative (t.decimal 0) = x ∨
        ∃ e, writtenChars x = sign negative ++ (t.text ++ exponentText 'e' e) ∧
          toDouble negative (t.decimal e) = x) := by
  obtain ⟨negative, m, e, hparts⟩ := Double.isFinite_iff.mp hx
  obtain ⟨hc, -⟩ := Double.canonical_of_ofFloat hparts
  rcases Nat.eq_zero_or_pos m with rfl | hm
  · refine ⟨negative, ⟨['0'], ['0']⟩, ⟨by simp, by simp, by simp⟩, .inl rfl, .inl ⟨by simp, ?_, ?_⟩⟩
    · rw [writtenChars_zero hparts]
      rfl
    · rw [Double.eq_ofParts_of_ofFloat hparts, Double.ofParts_zero]
      exact Double.nearest_zero negative 1
  · obtain ⟨t, ht, hlow, htext⟩ := exists_numeral_shortText (digits_pos_of_between hc hm (between_shortest hc hm))
    refine ⟨negative, t, ht, hlow, ?_⟩
    rw [writtenChars_of_pos hparts hm]
    rcases htext with ⟨hplaces, htext, hvalue⟩ | ⟨e', htext, hvalue⟩
    · exact .inl ⟨hplaces, by rw [htext], toDouble_of_rational hparts hm hvalue⟩
    · exact .inr ⟨e', by rw [htext], toDouble_of_rational hparts hm hvalue⟩

theorem beginsNumber_writtenChars (hx : x.isFinite = true) : BeginsNumber (writtenChars x) := by
  obtain ⟨negative, t, ht, -, ⟨-, htext, -⟩ | ⟨e, htext, -⟩⟩ := exists_numeral_writtenChars hx
  · rw [htext, Numeral.text]
    exact beginsNumber_sign_append ht.1 ht.2.1 negative _
  · rw [htext, Numeral.text, List.append_assoc]
    exact beginsNumber_sign_append ht.1 ht.2.1 negative _

/-- A finite double is read back from its shortest text. -/
theorem readNumber_writtenChars (hx : x.isFinite = true) (hrest : EndsValue rest) :
    readNumber (writtenChars x ++ rest) = .ok (.float x, rest) := by
  obtain ⟨negative, t, ht, hlow, ⟨hplaces, htext, hread⟩ | ⟨e, htext, hread⟩⟩ :=
    exists_numeral_writtenChars hx
  · rw [htext, List.append_assoc, readNumber_text ht hlow hplaces hrest, hread]
  · rw [htext, List.append_assoc, readNumber_text_exponentText ht hlow e hrest, hread]

section Visible

end Visible

end PolyPlot.Json
