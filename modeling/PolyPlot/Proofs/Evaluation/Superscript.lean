import PolyPlot.Proofs.Evaluation.Compilation
import PolyPlot.Proofs.Grammar.Position
import PolyPlot.Proofs.Normal.Superscript

namespace PolyPlot.Expression

open Reading (ExtendsNumber StartsOutside tree)

variable {α : Type} {value? : Numeral → Option α}

section Characters

variable {u v w : List Char}

/-- Both texts have a character that is not of the grammar. -/
theorem toOption_tree_of_common_mem {s s' : List Char} {c : Char} (hdigit : ¬ c.isDigit = true)
    (hsign : c ∉ Grammar.signs) (hs : c ∈ s) (hs' : c ∈ s') :
    (tree value? none s).toOption = (tree value? none s').toOption := by
  rw [Reading.toOption_tree_of_mem hdigit hsign hs, Reading.toOption_tree_of_mem hdigit hsign hs']

theorem toOption_tree_of_sigma {s s' : List Char} (hs : 'Σ' ∈ s) (hs' : 'Σ' ∈ s') :
    (tree value? none (normalChars s)).toOption = (tree value? none (normalChars s')).toOption := by
  have hnone {s : List Char} (hs : 'Σ' ∈ s) : (tree value? none (normalChars s)).toOption = none := by
    obtain ⟨c, hc, hmem⟩ := exists_mem_normalChars_of_sigma hs
    have hall : ['σ', 'ς'].all (fun c => !c.isDigit && !Grammar.signs.contains c) = true := by decide
    have hforeign := List.all_eq_true.mp hall c hc
    simp only [Bool.and_eq_true, Bool.not_eq_true', List.contains_eq_mem, decide_eq_false_iff_not] at hforeign
    exact Reading.toOption_tree_of_mem (Bool.eq_false_iff.mp hforeign.1) hforeign.2 hmem
  rw [hnone hs, hnone hs']

/-- Digits behind a caret, with all that extends them, are read as in parentheses. Where the product signs
around them differ, they are no number, or a digit of another script follows. -/
theorem toOption_tree_exponent {before digits more rest : List Char} (hne : digits ≠ [])
    (hdigits : ∀ c ∈ digits, c.isDigit = true) (hmore : ∀ c ∈ more, ExtendsNumber c)
    (hrest : StartsOutside ExtendsNumber rest) :
    (tree value? none (insertProducts (before ++ '^' :: (digits ++ more ++ rest)))).toOption =
      (tree value? none (insertProducts (before ++ '^' :: (grouped (digits ++ more) ++ rest)))).toOption := by
  have hcaret : IsSign '^' := by decide
  have hnumber : ∀ c ∈ digits ++ more, ExtendsNumber c :=
    List.forall_mem_append.mpr ⟨fun c hc => .inl (hdigits c hc), hmore⟩
  obtain ⟨s, c, hconcat⟩ : ∃ s c, digits ++ more = s ++ [c] := by
    rcases List.eq_nil_or_concat (digits ++ more) with hnil | ⟨s, c, hconcat⟩
    · exact absurd (List.append_eq_nil_iff.mp hnil).1 hne
    · exact ⟨s, c, hconcat.trans List.concat_eq_append⟩
  have hproducts (u : List Char) : insertProducts (digits ++ more ++ u) = digits ++ more ++ behind c u := by
    rw [hconcat] at hnumber ⊢
    obtain ⟨hs, hc⟩ := List.forall_mem_append.mp hnumber
    rw [List.append_assoc, List.singleton_append, insertProducts_number hs (hc c List.mem_cons_self)]
    simp
  have hself : insertProducts (digits ++ more) = digits ++ more := by
    have hnil := hproducts []
    rwa [List.append_nil, show behind c [] = [] from rfl, List.append_nil] at hnil
  rw [insertProducts_append_sign hcaret, insertProducts_append_sign hcaret, hproducts,
    insertProducts_grouped_append, hself, insertProducts_eq_behind]
  by_cases hscript : ∀ d ∈ rest.head?, Text.isDecimal d = false
  · refine Reading.toOption_tree_power_congr _ fun position stack => ?_
    have hlast : c ∈ (digits ++ more).getLast? := by
      rw [hconcat, List.getLast?_concat]
      rfl
    exact Reading.toOption_result_parenthesized hne hdigits hmore (startsOutside_behind hrest c)
      (fun hdigit => behind_digit (hdigit c hlast) hscript) position stack
  · have hall : Grammar.signs.all (fun d => !Text.isDecimal d) = true := by decide
    simp only [not_forall, Bool.not_eq_false] at hscript
    obtain ⟨d, hd, hdecimal⟩ := hscript
    obtain ⟨rest, rfl⟩ := List.head?_eq_some_iff.mp hd
    have hdigit : ¬ d.isDigit = true := fun h => hrest d rest rfl (.inl h)
    have hsign : d ∉ Grammar.signs := by
      intro hmem
      have hnot := List.all_eq_true.mp hall d hmem
      rw [hdecimal] at hnot
      cases hnot
    have hmem : d ∈ insertProducts (d :: rest) := mem_insertProducts_of_mem List.mem_cons_self
    apply toOption_tree_of_common_mem hdigit hsign <;> simp [behind, hmem]

/-- A run of superscripts is read like its digits, and the digits and points behind them, in parentheses. -/
theorem toOption_tree_superscript (hne : w ≠ []) (hw : ∀ c ∈ w, c ∈ superscriptDigits)
    (hlast : ∀ c ∈ (visible u).getLast?, c ∉ superscriptDigits)
    (hfirst : ∀ c ∈ (visible v).head?, c ∉ superscriptDigits) :
    (tree value? none (normalChars (u ++ w ++ v))).toOption =
      (tree value? none (normalChars (u ++ '^' :: grouped (w.filterMap superscript? ++ v.takeWhile goesOn) ++
        v.dropWhile goesOn))).toOption := by
  by_cases hu : 'Σ' ∈ u
  · exact toOption_tree_of_sigma (by simp [hu]) (by simp [hu])
  by_cases hv : 'Σ' ∈ v
  · refine toOption_tree_of_sigma (by simp [hv]) ?_
    rw [← List.takeWhile_append_dropWhile (p := goesOn) (l := v)] at hv
    rcases List.mem_append.mp hv with hv | hv <;> simp [grouped, hv]
  have hrest : StartsOutside ExtendsNumber (foldedChars (v.dropWhile goesOn)) :=
    startsOutside_foldedChars (fun h => hv ((List.dropWhile_suffix _).subset h)) fun c hc =>
      not_extendsNumber_of_mem_head?_dropWhile hc
  rw [normalChars_eq, normalChars_eq, foldedChars_superscript hne hw hu hv hlast hfirst,
    foldedChars_power hu hlast]
  exact toOption_tree_exponent (filterMap_superscript?_ne_nil hne hw)
    (fun c hc => isDigit_of_mem_filterMap hc) (fun c hc => extendsNumber_of_mem_visible_takeWhile hc) hrest

/-- Only the visible characters of a text matter. -/
theorem normalChars_congr (h : visible u = visible v) : normalChars u = normalChars v := by
  unfold visible at h
  unfold normalChars
  rw [h]

/-- Where no number goes on, nothing of what follows gets into the parentheses. -/
theorem normalChars_power_of_head? {digits : List Char} (hv : ∀ c ∈ (visible v).head?, ¬ ExtendsNumber c) :
    normalChars (u ++ '^' :: grouped (digits ++ v.takeWhile goesOn) ++ v.dropWhile goesOn) =
      normalChars (u ++ '^' :: grouped digits ++ v) := by
  have hsplit : visible v = visible (v.takeWhile goesOn) ++ visible (v.dropWhile goesOn) := by
    rw [← visible_append, List.takeWhile_append_dropWhile]
  have hnil : visible (v.takeWhile goesOn) = [] := by
    cases hvisible : visible (v.takeWhile goesOn) with
    | nil => rfl
    | cons c s =>
      have hc : ExtendsNumber c := extendsNumber_of_mem_visible_takeWhile (hvisible ▸ List.mem_cons_self)
      exact absurd hc (hv c (by rw [hsplit, hvisible]; rfl))
  apply normalChars_congr
  rw [hnil, List.nil_append] at hsplit
  have hpower (s : List Char) : '^' :: grouped (digits ++ s) = '^' :: '(' :: digits ++ s ++ [')'] := by
    simp [grouped]
  have hdigits := hpower []
  rw [List.append_nil, List.append_nil] at hdigits
  rw [hpower, hdigits]
  simp only [visible_append, hnil, List.append_nil, hsplit.symm]

end Characters

section Texts

variable [Scalar α]

/-- Equal outcomes, or two refusals. -/
def SameOutcome (a b : Except Failure (Coeffs α)) : Prop :=
  a = b ∨ ∃ e e', a = .error (.refused e) ∧ b = .error (.refused e')

/-- Texts that are not blank have the same outcome if they have the same tree, or none. -/
theorem sameOutcome_of_toOption (literal : Float → α) (limits : Limits α) {s s' : String}
    (hs : screen none s = .ok ()) (hs' : screen none s' = .ok ())
    (htree : (tree Numeral.finite? none (normalChars s.toList)).toOption =
      (tree Numeral.finite? none (normalChars s'.toList)).toOption) :
    SameOutcome (compileWith literal limits none none s) (compileWith literal limits none none s') := by
  have hread (s : String) :
      Tree.read none (normalize s) = tree Numeral.finite? none (normalChars s.toList) := by
    rw [Tree.read, toList_normalize]
  unfold compileWith rawVector
  rw [hs, hs', hread, hread]
  cases h : tree Numeral.finite? none (normalChars s.toList) with
  | error e =>
    cases h' : tree Numeral.finite? none (normalChars s'.toList) with
    | error e' => exact .inr ⟨e, e', rfl, rfl⟩
    | ok t' =>
      rw [h, h'] at htree
      cases htree
  | ok t =>
    cases h' : tree Numeral.finite? none (normalChars s'.toList) with
    | error e' =>
      rw [h, h'] at htree
      cases htree
    | ok t' =>
      rw [h, h'] at htree
      cases htree
      exact .inl rfl

/-- The digits that superscripts raise. -/
def plainDigits (w : String) : String :=
  String.ofList (w.toList.filterMap superscript?)

/-- The beginning of a text that goes on with a number in front of it, with the blanks in it. -/
def numberEnd (v : String) : String :=
  String.ofList (v.toList.takeWhile goesOn)

/-- The rest of such a text. -/
def behindNumber (v : String) : String :=
  String.ofList (v.toList.dropWhile goesOn)

/-- A text with a power whose exponent is in parentheses. -/
def withPower (u exponent v : String) : String :=
  u ++ "^(" ++ exponent ++ ")" ++ v

theorem toList_withPower (u exponent v : String) :
    (withPower u exponent v).toList = u.toList ++ '^' :: grouped exponent.toList ++ v.toList := by
  simp [withPower, grouped]

theorem screen_of_mem {text : String} {c : Char} (hc : c ∈ text.toList) (hvisible : Text.isBlank c = false) :
    screen none text = .ok () := by
  unfold screen
  rw [if_neg]
  intro hblank
  rw [List.all_eq_true.mp hblank c hc] at hvisible
  cases hvisible

/-- A run of superscript digits denotes the exponent that its digits make together with the digits and
points behind it. Where no digit or point follows, it denotes its own digits and nothing else. -/
theorem compileWith_superscript (literal : Float → α) (limits : Limits α) (u w v : String) (hne : w ≠ "")
    (hw : ∀ c ∈ w.toList, c ∈ superscriptDigits)
    (hlast : ∀ c ∈ (visible u.toList).getLast?, c ∉ superscriptDigits)
    (hfirst : ∀ c ∈ (visible v.toList).head?, c ∉ superscriptDigits) :
    SameOutcome (compileWith literal limits none none (u ++ w ++ v))
        (compileWith literal limits none none
          (withPower u (plainDigits w ++ numberEnd v) (behindNumber v))) ∧
      ((∀ c ∈ (visible v.toList).head?, ¬ ExtendsNumber c) →
        SameOutcome (compileWith literal limits none none (u ++ w ++ v))
          (compileWith literal limits none none (withPower u (plainDigits w) v))) := by
  have hscreen : screen none (u ++ w ++ v) = .ok () := by
    obtain ⟨c, digits, hcons⟩ := List.exists_cons_of_ne_nil (mt String.toList_eq_nil_iff.mp hne)
    have hc : c ∈ w.toList := hcons ▸ List.mem_cons_self
    exact screen_of_mem (c := c) (by simp [hc]) (isBlank_of_mem_superscriptDigits (hw c hc))
  have hpower (exponent v : String) : screen none (withPower u exponent v) = .ok () :=
    screen_of_mem (c := '^') (by simp [toList_withPower]) (by decide)
  have htree := @toOption_tree_superscript Float Numeral.finite? u.toList v.toList w.toList
    (mt String.toList_eq_nil_iff.mp hne) hw hlast hfirst
  refine ⟨?_, fun hstop => ?_⟩
  · apply sameOutcome_of_toOption literal limits hscreen (hpower _ _)
    simpa [toList_withPower, plainDigits, numberEnd, behindNumber] using htree
  · apply sameOutcome_of_toOption literal limits hscreen (hpower _ _)
    rw [normalChars_power_of_head? hstop] at htree
    simpa [toList_withPower, plainDigits] using htree

/-- A digit behind a superscript gets into the exponent and is no factor. -/
theorem compileWith_superscript_digit :
    SameOutcome (compileWith id ({} : Options).limits none none "x²3")
        (compileWith id ({} : Options).limits none none "x^(23)") ∧
      ¬ SameOutcome (compileWith id ({} : Options).limits none none "x²3")
        (compileWith id ({} : Options).limits none none "x^(2)3") ∧
      compileWith id ({} : Options).limits none none "x^(2)3" = .ok [0, 0, 3] := by
  have hthree : compileWith id ({} : Options).limits none none "x^(2)3" = .ok [0, 0, 3] := by decide +kernel
  have hpower : compileWith id ({} : Options).limits none none "x²3" =
      .ok (List.replicate 23 0 ++ [1]) := by decide +kernel
  have hsuperscript : ∀ c ∈ "²".toList, c ∈ superscriptDigits := by simp [superscriptDigits]
  have hx : (visible "x".toList).getLast? = some 'x' := by decide
  have hdigit : (visible "3".toList).head? = some '3' := by decide
  refine ⟨?_, ?_, hthree⟩
  · exact (compileWith_superscript id ({} : Options).limits "x" "²" "3" (by decide) hsuperscript
      (by rw [hx]; simp [superscriptDigits]) (by rw [hdigit]; simp [superscriptDigits])).1
  · rintro (h | ⟨e, e', h, -⟩)
    · rw [hthree, hpower] at h
      exact absurd (Except.ok.inj h) (by decide +kernel)
    · rw [hpower] at h
      cases h

end Texts

end PolyPlot.Expression
