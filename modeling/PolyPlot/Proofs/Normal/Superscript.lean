import Mathlib.Data.List.Basic
import PolyPlot.Proofs.Grammar.Completeness
import PolyPlot.Proofs.Normal.Idempotence

namespace PolyPlot.Expression

open Reading (ExtendsNumber StartsOutside startsOutside_cons)

variable {a c d : Char} {s u v w : List Char}

/-- The characters of a text that are not dropped. -/
def visible (s : List Char) : List Char :=
  s.filter fun c => !Text.isBlank c

theorem visible_append (s u : List Char) : visible (s ++ u) = visible s ++ visible u :=
  List.filter_append ..

theorem mem_visible : c ∈ visible s ↔ c ∈ s ∧ Text.isBlank c = false := by
  simp [visible]

section Letters

/-- What a visible character is folded to, unless it is a capital sigma. -/
def folded (c : Char) : List Char :=
  (Text.lower [c]).map foldSign

/-- But for capital sigmas, the lower case of a letter does not depend on its neighbours. -/
theorem lowerAfter_of_not_mem (hs : 'Σ' ∉ s) (before : List Char) :
    Text.lowerAfter before s = s.flatMap fun c => Text.lower [c] := by
  induction s generalizing before with
  | nil => rfl
  | cons c s ih =>
    rw [List.mem_cons, not_or] at hs
    obtain ⟨hc, hs⟩ := hs
    replace hc : c ≠ 'Σ' := Ne.symm hc
    have hself : Text.lower [c] = if c = 'İ' then ['i', Char.ofNat 0x307] else [Text.lowerChar c] := by
      rw [Text.lower, Text.lowerAfter, if_neg hc]
      exact List.append_nil _
    rw [Text.lowerAfter, if_neg hc, ih hs, List.flatMap_cons, hself]

theorem foldedChars_eq_flatMap (hs : 'Σ' ∉ s) :
    foldedChars s = lowerSuperscripts false ((visible s).flatMap folded) := by
  have hvisible : 'Σ' ∉ visible s := fun h => hs (mem_visible.mp h).1
  have hlower : Text.lower (visible s) = (visible s).flatMap fun c => Text.lower [c] :=
    lowerAfter_of_not_mem hvisible []
  change lowerSuperscripts false ((Text.lower (visible s)).map foldSign) = _
  rw [hlower, List.map_flatMap]
  rfl

/-- What a character is folded to is the character, or kept and no part of a number. -/
theorem eq_or_settled_of_mem_folded (hd : d ∈ folded c) : d = c ∨ Settled d ∧ ¬ ExtendsNumber d := by
  have hkept {d : Char} (l : List Char)
      (hl : (l.all fun d => decide (Settled d ∧ ¬ (d.isDigit = true ∨ d = '.'))) = true)
      (hd : d ∈ l) : Settled d ∧ ¬ ExtendsNumber d := by
    have hkeeps := List.all_eq_true.mp hl d hd
    rwa [decide_eq_true_eq] at hkeeps
  by_cases hsigma : c = 'Σ'
  · subst hsigma
    exact .inr (hkept ['σ'] (by decide) hd)
  by_cases hdotted : c = 'İ'
  · subst hdotted
    exact .inr (hkept ['i', Char.ofNat 0x307] (by decide) hd)
  obtain rfl : d = foldSign (Text.lowerChar c) := by
    rw [folded, Text.lower, Text.lowerAfter, if_neg hsigma, if_neg hdotted] at hd
    exact List.mem_singleton.mp hd
  rcases lowerChar_eq_or c with hself | ⟨hsettled, hletter⟩
  · rw [hself]
    by_cases hsign : c ∈ typographicSigns
    · exact .inr (hkept ['-', '*', '/'] (by decide) (foldSign_of_mem hsign))
    · exact .inl (foldSign_of_not_mem hsign)
  · rw [hsettled.sign]
    refine .inr ⟨hsettled, ?_⟩
    rintro (hdigit | hpoint)
    · rw [Char.isDigit_iff_toNat] at hdigit
      have hhigh : (Text.lowerChar c).toNat ≤ 57 := hdigit.2
      omega
    · rw [hpoint] at hletter
      exact absurd hletter (by decide)

theorem folded_ne_nil (c : Char) : folded c ≠ [] := by
  simp only [folded, Text.lower, Text.lowerAfter, List.append_nil, ne_eq, List.map_eq_nil_iff]
  split
  · exact List.cons_ne_nil _ _
  · split <;> exact List.cons_ne_nil _ _

end Letters

section Superscripts

theorem isBlank_of_mem_superscriptDigits (hc : c ∈ superscriptDigits) : Text.isBlank c = false := by
  have hall : superscriptDigits.all (fun c => !Text.isBlank c) = true := by decide
  have hvisible := List.all_eq_true.mp hall c hc
  rwa [Bool.not_eq_true'] at hvisible

theorem plain_of_mem_folded (hc : c ∉ superscriptDigits) (hd : d ∈ folded c) : superscript? d = none := by
  rcases eq_or_settled_of_mem_folded hd with rfl | ⟨hsettled, -⟩
  · exact superscript?_of_not_mem hc
  · exact hsettled.plain

theorem folded_of_mem (hc : c ∈ superscriptDigits) : folded c = [c] := by
  have hall : superscriptDigits.all (fun c => folded c == [c]) = true := by decide
  exact eq_of_beq (List.all_eq_true.mp hall c hc)

/-- A text in which no run of superscripts goes on is written out by itself. -/
theorem lowerSuperscripts_append_of_getLast? (hs : ∀ c ∈ s.getLast?, superscript? c = none) (u : List Char) :
    lowerSuperscripts false (s ++ u) = lowerSuperscripts false s ++ lowerSuperscripts false u := by
  rcases List.eq_nil_or_concat s with rfl | ⟨s, c, rfl⟩
  · rfl
  · have hc : superscript? c = none := hs c (by simp)
    rw [List.concat_eq_append, List.append_assoc, List.singleton_append, lowerSuperscripts_append hc,
      lowerSuperscripts_append hc, List.append_assoc]
    rfl

theorem lowerSuperscripts_of_head? (hs : ∀ c ∈ s.head?, superscript? c = none) (inside : Bool) :
    lowerSuperscripts inside s = lowerSuperscripts false s := by
  cases s with
  | nil => rfl
  | cons c s =>
    have hc : superscript? c = none := hs c rfl
    rw [lowerSuperscripts, lowerSuperscripts, hc]

/-- Inside a run, superscripts are written as their digits. -/
theorem lowerSuperscripts_run (hw : ∀ c ∈ w, c ∈ superscriptDigits) (s : List Char) :
    lowerSuperscripts true (w ++ s) = w.filterMap superscript? ++ lowerSuperscripts true s := by
  induction w with
  | nil => rfl
  | cons c w ih =>
    obtain ⟨hc, hw⟩ := List.forall_mem_cons.mp hw
    obtain ⟨digit, -, hdigit⟩ := superscript?_of_mem hc
    rw [List.cons_append, lowerSuperscripts, hdigit, List.filterMap_cons_some hdigit]
    exact congrArg (digit :: ·) (ih hw)

/-- Two texts are folded apart if no run of superscripts goes on across their border. -/
theorem foldedChars_append_of_getLast? (hs : 'Σ' ∉ s) (hu : 'Σ' ∉ u)
    (hlast : ∀ c ∈ (visible s).getLast?, c ∉ superscriptDigits) :
    foldedChars (s ++ u) = foldedChars s ++ foldedChars u := by
  have hplain : ∀ d ∈ ((visible s).flatMap folded).getLast?, superscript? d = none := by
    intro d hd
    rcases List.eq_nil_or_concat (visible s) with hnil | ⟨v, c, hconcat⟩
    · rw [hnil] at hd
      cases hd
    · rw [List.concat_eq_append] at hconcat
      rw [hconcat, List.flatMap_append, List.flatMap_singleton,
        List.getLast?_append_of_ne_nil _ (folded_ne_nil c)] at hd
      have hc : c ∉ superscriptDigits := hlast c (by rw [hconcat, List.getLast?_concat]; rfl)
      exact plain_of_mem_folded hc (List.mem_of_getLast? hd)
  rw [foldedChars_eq_flatMap hs, foldedChars_eq_flatMap hu,
    foldedChars_eq_flatMap (fun h => (List.mem_append.mp h).elim hs hu), visible_append,
    List.flatMap_append, lowerSuperscripts_append_of_getLast? hplain]

/-- A run of superscripts becomes a caret and its digits, and the text behind it is folded by itself. -/
theorem foldedChars_run (hne : w ≠ []) (hw : ∀ c ∈ w, c ∈ superscriptDigits) (hs : 'Σ' ∉ s)
    (hfirst : ∀ c ∈ (visible s).head?, c ∉ superscriptDigits) :
    foldedChars (w ++ s) = '^' :: w.filterMap superscript? ++ foldedChars s := by
  have hvisible : visible w = w := by
    refine List.filter_eq_self.mpr fun c hc => ?_
    rw [isBlank_of_mem_superscriptDigits (hw c hc)]
    rfl
  have hsigma : 'Σ' ∉ w ++ s := by
    refine fun h => (List.mem_append.mp h).elim (fun h => ?_) hs
    exact absurd (hw _ h) (by decide)
  have hfolded : w.flatMap folded = w := by
    rw [List.flatMap_congr fun c hc => folded_of_mem (hw c hc), List.flatMap_singleton']
  have hplain : ∀ d ∈ ((visible s).flatMap folded).head?, superscript? d = none := by
    intro d hd
    cases hvis : visible s with
    | nil =>
      rw [hvis] at hd
      cases hd
    | cons c v =>
      rw [hvis, List.flatMap_cons, List.head?_append_of_ne_nil _ (folded_ne_nil c)] at hd
      have hc : c ∉ superscriptDigits := hfirst c (by rw [hvis]; rfl)
      exact plain_of_mem_folded hc (List.mem_of_head? hd)
  rw [foldedChars_eq_flatMap hsigma, foldedChars_eq_flatMap hs, visible_append, hvisible,
    List.flatMap_append, hfolded, ← lowerSuperscripts_of_head? hplain true]
  obtain ⟨c, w, rfl⟩ := List.exists_cons_of_ne_nil hne
  obtain ⟨hc, hw⟩ := List.forall_mem_cons.mp hw
  obtain ⟨digit, -, hdigit⟩ := superscript?_of_mem hc
  rw [List.cons_append, lowerSuperscripts, hdigit, List.filterMap_cons_some hdigit]
  exact congrArg (fun s => '^' :: digit :: s) (lowerSuperscripts_run hw _)

end Superscripts

section Numbers

/-- Whether a character goes on with a number in front of it, or is dropped. -/
def goesOn (c : Char) : Bool :=
  Text.isBlank c || c.isDigit || c == '.'

theorem extendsNumber_of_mem_visible_takeWhile (hc : c ∈ visible (s.takeWhile goesOn)) : ExtendsNumber c := by
  obtain ⟨hmem, hblank⟩ := mem_visible.mp hc
  simpa [goesOn, ExtendsNumber, hblank] using List.all_eq_true.mp List.all_takeWhile c hmem

theorem not_extendsNumber_of_mem_head?_dropWhile (hc : c ∈ (visible (s.dropWhile goesOn)).head?) :
    ¬ ExtendsNumber c := by
  cases hrest : s.dropWhile goesOn with
  | nil =>
    rw [hrest] at hc
    cases hc
  | cons d rest =>
    have hd : goesOn d = false := by
      have hhead := List.head?_dropWhile_not goesOn s
      rwa [hrest] at hhead
    obtain ⟨⟨hblank, hdigit⟩, hpoint⟩ : (Text.isBlank d = false ∧ d.isDigit = false) ∧ d ≠ '.' := by
      simpa [goesOn] using hd
    rw [hrest, visible, List.filter_cons_of_pos (by rw [hblank]; rfl)] at hc
    cases hc
    rintro (h | h)
    · rw [h] at hdigit
      cases hdigit
    · exact hpoint h

theorem settled_of_extendsNumber (hc : ExtendsNumber c) : Settled c := by
  rcases hc with hdigit | rfl
  · exact settled_of_mem_asciiDigits (mem_asciiDigits hdigit)
  · decide

/-- The digits and points with which a text begins are kept. -/
theorem foldedChars_takeWhile (hs : 'Σ' ∉ s) :
    foldedChars s = visible (s.takeWhile goesOn) ++ foldedChars (s.dropWhile goesOn) := by
  have hsettled : ∀ c ∈ visible (s.takeWhile goesOn), Settled c := fun c hc =>
    settled_of_extendsNumber (extendsNumber_of_mem_visible_takeWhile hc)
  have hfirst : 'Σ' ∉ s.takeWhile goesOn := fun h => hs ((List.takeWhile_prefix _).subset h)
  have hrest : 'Σ' ∉ s.dropWhile goesOn := fun h => hs ((List.dropWhile_suffix _).subset h)
  have happend := foldedChars_append_of_getLast? hfirst hrest fun c hc =>
    (hsettled c (List.mem_of_getLast? hc)).not_superscript
  rw [List.takeWhile_append_dropWhile, foldedChars_of_settled hsettled] at happend
  exact happend

/-- No number goes on in a text whose first visible character is no part of one. -/
theorem startsOutside_foldedChars (hs : 'Σ' ∉ s) (hfirst : ∀ c ∈ (visible s).head?, ¬ ExtendsNumber c) :
    StartsOutside ExtendsNumber (foldedChars s) := by
  rw [foldedChars_eq_flatMap hs]
  cases hvis : visible s with
  | nil =>
    intro c rest h
    cases h
  | cons c rest =>
    obtain ⟨d, more, hfolded⟩ := List.exists_cons_of_ne_nil (folded_ne_nil c)
    have hc : ¬ ExtendsNumber c := hfirst c (by rw [hvis]; rfl)
    have hd : ¬ ExtendsNumber d := by
      rcases eq_or_settled_of_mem_folded (hfolded ▸ List.mem_cons_self) with rfl | ⟨-, hd⟩
      · exact hc
      · exact hd
    rw [List.flatMap_cons, hfolded, List.cons_append, lowerSuperscripts]
    cases superscript? d with
    | none => exact startsOutside_cons hd
    | some digit => exact startsOutside_cons (by simp [ExtendsNumber])

end Numbers

section Powers

variable (hne : w ≠ []) (hw : ∀ c ∈ w, c ∈ superscriptDigits)

theorem isDigit_of_mem_filterMap (hc : c ∈ w.filterMap superscript?) : c.isDigit = true := by
  have hall : superscriptDigits.all (fun c => (superscript? c).all Char.isDigit) = true := by decide
  obtain ⟨d, -, hd⟩ := List.mem_filterMap.mp hc
  have hmem : d ∈ superscriptDigits := by
    by_contra hnot
    rw [superscript?_of_not_mem hnot] at hd
    cases hd
  have hdigit := List.all_eq_true.mp hall d hmem
  rwa [hd] at hdigit

include hne hw

theorem filterMap_superscript?_ne_nil : w.filterMap superscript? ≠ [] := by
  obtain ⟨c, w, rfl⟩ := List.exists_cons_of_ne_nil hne
  obtain ⟨digit, -, hdigit⟩ := superscript?_of_mem (hw c List.mem_cons_self)
  rw [List.filterMap_cons_some hdigit]
  exact List.cons_ne_nil _ _

/-- A run of superscripts in a text stands for a caret and its digits. -/
theorem foldedChars_superscript (hu : 'Σ' ∉ u) (hv : 'Σ' ∉ v)
    (hlast : ∀ c ∈ (visible u).getLast?, c ∉ superscriptDigits)
    (hfirst : ∀ c ∈ (visible v).head?, c ∉ superscriptDigits) :
    foldedChars (u ++ w ++ v) = foldedChars u ++ '^' :: (w.filterMap superscript? ++
      visible (v.takeWhile goesOn) ++ foldedChars (v.dropWhile goesOn)) := by
  have hrun : 'Σ' ∉ w ++ v := by
    refine fun h => (List.mem_append.mp h).elim (fun h => ?_) hv
    exact absurd (hw _ h) (by decide)
  rw [List.append_assoc, foldedChars_append_of_getLast? hu hrun hlast, foldedChars_run hne hw hv hfirst,
    foldedChars_takeWhile hv, List.cons_append, List.append_assoc]

omit hne hw

/-- The same with the digits, and with all that goes on with them, in parentheses. -/
theorem foldedChars_power (hu : 'Σ' ∉ u) (hlast : ∀ c ∈ (visible u).getLast?, c ∉ superscriptDigits) :
    foldedChars (u ++ '^' :: grouped (w.filterMap superscript? ++ v.takeWhile goesOn) ++ v.dropWhile goesOn) =
      foldedChars u ++ '^' :: (grouped (w.filterMap superscript? ++ visible (v.takeWhile goesOn)) ++
        foldedChars (v.dropWhile goesOn)) := by
  have hcaret : foldedChars (u ++ ['^']) = foldedChars u ++ ['^'] :=
    foldedChars_append_of_getLast? hu (by decide) hlast
  have hvisible : visible (w.filterMap superscript?) = w.filterMap superscript? :=
    List.filter_eq_self.mpr fun c hc => by
      rw [(settled_of_mem_asciiDigits (mem_asciiDigits (isDigit_of_mem_filterMap hc))).not_blank]
      rfl
  have hnumber : foldedChars (w.filterMap superscript? ++ v.takeWhile goesOn) =
      w.filterMap superscript? ++ visible (v.takeWhile goesOn) := by
    have hkept : visible (w.filterMap superscript? ++ v.takeWhile goesOn) =
        w.filterMap superscript? ++ visible (v.takeWhile goesOn) := by
      rw [visible_append, hvisible]
    rw [← hkept]
    refine foldedChars_of_settled fun c hc => settled_of_extendsNumber ?_
    change c ∈ visible _ at hc
    rw [hkept] at hc
    rcases List.mem_append.mp hc with hc | hc
    · exact .inl (isDigit_of_mem_filterMap hc)
    · exact extendsNumber_of_mem_visible_takeWhile hc
  have hsplit : u ++ '^' :: grouped (w.filterMap superscript? ++ v.takeWhile goesOn) ++ v.dropWhile goesOn =
      u ++ ['^'] ++ '(' :: (w.filterMap superscript? ++ v.takeWhile goesOn ++ ')' :: v.dropWhile goesOn) := by
    simp [grouped]
  rw [hsplit, foldedChars_append (.inl rfl), foldedChars_append (.inr rfl), hcaret, hnumber]
  simp [grouped]

end Powers

section Products

theorem insertProducts_cons_of_head? (hs : ∀ d ∈ s.head?, callsForProduct c d = false) :
    insertProducts (c :: s) = c :: insertProducts s := by
  cases s with
  | nil => rfl
  | cons d s => rw [insertProducts, hs d rfl, if_neg Bool.false_ne_true]

theorem callsForProduct_of_extendsNumber (hc : ExtendsNumber c) (hd : ExtendsNumber d) :
    callsForProduct c d = false := by
  rcases hc with hc | rfl
  · rcases hd with hd | rfl
    · exact callsForProduct_digits hc hd
    · exact callsForProduct_of_right (by decide) (by decide) (by decide) c
  · exact callsForProduct_of_left (by decide) (by decide) (by decide) d

/-- What stands behind a character once the product signs are put in. -/
def behind (c : Char) (s : List Char) : List Char :=
  (if s.head?.any (callsForProduct c) then ['*'] else []) ++ insertProducts s

theorem insertProducts_eq_behind (c : Char) (s : List Char) : insertProducts (c :: s) = c :: behind c s := by
  cases s with
  | nil => rfl
  | cons d s => exact insertProducts_cons_cons c d s

theorem startsOutside_behind (hs : StartsOutside ExtendsNumber s) (c : Char) :
    StartsOutside ExtendsNumber (behind c s) := by
  unfold behind
  split
  · exact startsOutside_cons (by simp [ExtendsNumber])
  · intro d rest h
    have hhead := head?_insertProducts s
    rw [List.nil_append] at h
    rw [h] at hhead
    obtain ⟨more, rfl⟩ := List.head?_eq_some_iff.mp hhead.symm
    exact hs d more rfl

/-- Digits and points gain no product signs but behind the last of them. -/
theorem insertProducts_number (hs : ∀ d ∈ s, ExtendsNumber d) (hc : ExtendsNumber c) (u : List Char) :
    insertProducts (s ++ c :: u) = s ++ c :: behind c u := by
  induction s with
  | nil => exact insertProducts_eq_behind c u
  | cons d s ih =>
    obtain ⟨hd, hs⟩ := List.forall_mem_cons.mp hs
    rw [List.cons_append, insertProducts_cons_of_head?, ih hs, List.cons_append]
    intro e he
    apply callsForProduct_of_extendsNumber hd
    cases s with
    | nil =>
      cases he
      exact hc
    | cons f s =>
      cases he
      exact hs _ List.mem_cons_self

/-- The same product signs are put behind a digit and behind a parenthesis, unless a digit follows. -/
theorem behind_digit (hc : c.isDigit = true) (hs : ∀ d ∈ s.head?, Text.isDecimal d = false) :
    behind c s = behind ')' s := by
  have hcalls : ∀ d ∈ s.head?, callsForProduct c d = callsForProduct ')' d := by
    intro d hd
    have hall : asciiDigits.all (fun c => Text.isDecimal c && c != ')' && c != 'x') = true := by decide
    have hdigit := List.all_eq_true.mp hall c (mem_asciiDigits hc)
    simp only [Bool.and_eq_true, bne_iff_ne, ne_eq] at hdigit
    obtain ⟨⟨hdecimal, hparenthesis⟩, hx⟩ := hdigit
    simp [callsForProduct, hdecimal, hparenthesis, hx, hs d hd]
  cases s with
  | nil => rfl
  | cons d s => rw [behind, behind, List.head?_cons, Option.any_some, Option.any_some, hcalls d rfl]

theorem mem_insertProducts_of_mem (hc : c ∈ s) : c ∈ insertProducts s := by
  induction s with
  | nil => exact hc
  | cons d s ih =>
    rw [insertProducts_eq_behind]
    rcases List.mem_cons.mp hc with rfl | hc
    · exact List.mem_cons_self
    · exact List.mem_cons_of_mem d (List.mem_append_right _ (ih hc))

end Products

section Sigma

theorem exists_mem_lowerAfter_of_sigma (hs : 'Σ' ∈ s) (before : List Char) :
    ∃ c ∈ ['σ', 'ς'], c ∈ Text.lowerAfter before s := by
  induction s generalizing before with
  | nil => cases hs
  | cons d s ih =>
    rw [Text.lowerAfter]
    rcases List.mem_cons.mp hs with rfl | hs
    · rw [if_pos rfl]
      split
      · exact ⟨'ς', by decide, List.mem_append_left _ List.mem_cons_self⟩
      · exact ⟨'σ', by decide, List.mem_append_left _ List.mem_cons_self⟩
    · obtain ⟨c, hc, hmem⟩ := ih hs (d :: before)
      exact ⟨c, hc, List.mem_append_right _ hmem⟩

theorem mem_lowerSuperscripts_of_mem (hc : superscript? c = none) (hs : c ∈ s) (inside : Bool) :
    c ∈ lowerSuperscripts inside s := by
  obtain ⟨before, behind, rfl⟩ := List.append_of_mem hs
  rw [lowerSuperscripts_append hc]
  exact List.mem_append_right _ List.mem_cons_self

/-- A capital sigma becomes one of the small ones. -/
theorem exists_mem_normalChars_of_sigma (hs : 'Σ' ∈ s) : ∃ c ∈ ['σ', 'ς'], c ∈ normalChars s := by
  have hall : ['σ', 'ς'].all (fun c => foldSign c == c && superscript? c == none) = true := by decide
  have hvisible : 'Σ' ∈ s.filter fun c => !Text.isBlank c := List.mem_filter.mpr ⟨hs, by decide⟩
  obtain ⟨c, hc, hlower⟩ := exists_mem_lowerAfter_of_sigma hvisible []
  have hkept := List.all_eq_true.mp hall c hc
  simp only [Bool.and_eq_true, beq_iff_eq] at hkept
  obtain ⟨hsign, hplain⟩ := hkept
  refine ⟨c, hc, mem_insertProducts_of_mem (mem_lowerSuperscripts_of_mem hplain ?_ false)⟩
  exact List.mem_map.mpr ⟨c, hlower, hsign⟩

end Sigma

end PolyPlot.Expression
