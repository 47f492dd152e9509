import PolyPlot.Expression.Normal

namespace PolyPlot.Expression

variable {c : Char} {s before : List Char}

/-- The digits, in ascending order. -/
def asciiDigits : List Char :=
  ['0', '1', '2', '3', '4', '5', '6', '7', '8', '9']

/-- A character that is not dropped and is its own lower case, wherever it stands. -/
structure Lowered (c : Char) : Prop where
  not_blank : Text.isBlank c = false
  lower : Text.lowerChar c = c
  ne_sigma : c ≠ 'Σ'
  ne_dotted : c ≠ 'İ'

/-- A character that every step of the normal form keeps. -/
structure Settled (c : Char) : Prop extends Lowered c where
  sign : foldSign c = c
  plain : superscript? c = none

instance : DecidablePred Settled := fun c =>
  decidable_of_iff (Text.isBlank c = false ∧ Text.lowerChar c = c ∧ c ≠ 'Σ' ∧ c ≠ 'İ' ∧
      foldSign c = c ∧ superscript? c = none)
    ⟨fun ⟨h₁, h₂, h₃, h₄, h₅, h₆⟩ => ⟨⟨h₁, h₂, h₃, h₄⟩, h₅, h₆⟩,
      fun ⟨⟨h₁, h₂, h₃, h₄⟩, h₅, h₆⟩ => ⟨h₁, h₂, h₃, h₄, h₅, h₆⟩⟩

section Signs

/-- The typographic signs that are written as signs of the grammar. -/
def typographicSigns : List Char :=
  ['−', '–', '×', '÷', '·', '∙', '⁄']

/-- The superscript digits. -/
def superscriptDigits : List Char :=
  ['⁰', '¹', '²', '³', '⁴', '⁵', '⁶', '⁷', '⁸', '⁹']

theorem foldSign_of_not_mem (hc : c ∉ typographicSigns) : foldSign c = c := by
  unfold foldSign
  split <;> simp_all [typographicSigns]

theorem foldSign_of_mem (hc : c ∈ typographicSigns) : foldSign c ∈ ['-', '*', '/'] := by
  have hall : typographicSigns.all (fun c => ['-', '*', '/'].contains (foldSign c)) = true := by decide
  exact List.contains_iff_mem.mp (List.all_eq_true.mp hall c hc)

theorem superscript?_of_not_mem (hc : c ∉ superscriptDigits) : superscript? c = none := by
  unfold superscript?
  split <;> simp_all [superscriptDigits]

theorem superscript?_of_mem (hc : c ∈ superscriptDigits) :
    ∃ digit ∈ asciiDigits, superscript? c = some digit := by
  have hall : superscriptDigits.all
      (fun c => asciiDigits.any fun digit => superscript? c == some digit) = true := by decide
  obtain ⟨digit, hdigit, heq⟩ := List.any_eq_true.mp (List.all_eq_true.mp hall c hc)
  exact ⟨digit, hdigit, eq_of_beq heq⟩

end Signs

section Lower

/-- A code point is its own lower case, or has one in a run of letters. -/
theorem lowerIn_eq_or (n : Nat) (runs : List Text.CaseRun) :
    Text.lowerIn n runs = n ∨ ∃ r ∈ runs, ∃ k ≤ r.last - r.first, k % r.step = 0 ∧
      Text.lowerIn n runs = r.target + k := by
  induction runs with
  | nil => exact .inl rfl
  | cons r runs ih =>
    rw [Text.lowerIn]
    split
    · exact .inl rfl
    · split
      · next hrun => exact .inr ⟨r, List.mem_cons_self, n - r.first, by omega, hrun.2, rfl⟩
      · refine ih.imp_right ?_
        rintro ⟨r', hr', hrest⟩
        exact ⟨r', List.mem_cons_of_mem _ hr', hrest⟩

theorem lowerIn_eq_self {n : Nat} {runs : List Text.CaseRun}
    (h : ∀ r ∈ runs, ¬ (r.first ≤ n ∧ n ≤ r.last ∧ (n - r.first) % r.step = 0)) :
    Text.lowerIn n runs = n := by
  induction runs with
  | nil => rfl
  | cons r runs ih =>
    have hr := h r List.mem_cons_self
    rw [Text.lowerIn]
    split
    · rfl
    · rw [if_neg fun hrun => hr ⟨by omega, hrun⟩]
      exact ih fun r' hr' => h r' (List.mem_cons_of_mem r hr')

/-- Whether the small letters of a run are no capital letters of another one: they are all before it, all
behind it, or between its letters. -/
def apart (r r' : Text.CaseRun) : Bool :=
  (r.target + (r.last - r.first)).blt r'.first || r'.last.blt r.target ||
    ((r.step == 2 || r.last == r.first) && r'.step == 2 && (r.target + r'.first) % 2 == 1)

theorem apart_caseRuns : (Text.caseRuns.all fun r => Text.caseRuns.all (apart r)) = true := by
  decide +kernel

/-- Code points of blanks, typographic signs, superscript digits, the dotted capital I and no characters. No
small letter is among them. -/
def unsettled : List (Nat × Nat) :=
  [(0, 0x60), (0x85, 0x85), (0xA0, 0xA0), (0xB2, 0xB3), (0xB7, 0xB7), (0xB9, 0xB9), (0xD7, 0xD7),
   (0xF7, 0xF7), (0x130, 0x130), (0x1680, 0x1680), (0x2000, 0x2044), (0x205F, 0x2079), (0x2212, 0x2219),
   (0x3000, 0x3000), (0xD800, 0xDFFF)]

theorem outside_unsettled : (Text.caseRuns.all fun r => (r.target + (r.last - r.first)).blt 0x110000 &&
    unsettled.all fun p => (r.target + (r.last - r.first)).blt p.1 || p.2.blt r.target) = true := by
  decide +kernel

/-- The signs that are folded are among those code points. -/
theorem exists_unsettled (hc : c ∈ 'İ' :: typographicSigns ++ superscriptDigits) :
    ∃ p ∈ unsettled, p.1 ≤ c.toNat ∧ c.toNat ≤ p.2 := by
  have hall : ('İ' :: typographicSigns ++ superscriptDigits).all
      (fun c => unsettled.any fun p => p.1 ≤ c.toNat && c.toNat ≤ p.2) = true := by decide
  obtain ⟨p, hp, hrange⟩ := List.any_eq_true.mp (List.all_eq_true.mp hall c hc)
  rw [Bool.and_eq_true, decide_eq_true_eq, decide_eq_true_eq] at hrange
  exact ⟨p, hp, hrange⟩

/-- No run leads on from where another one leads. -/
theorem lowerIn_target {r : Text.CaseRun} (hr : r ∈ Text.caseRuns) {k : Nat}
    (hk : k ≤ r.last - r.first) (hstep : k % r.step = 0) :
    Text.lowerIn (r.target + k) Text.caseRuns = r.target + k := by
  refine lowerIn_eq_self fun r' hr' => ?_
  have hapart := List.all_eq_true.mp (List.all_eq_true.mp apart_caseRuns r hr) r' hr'
  simp only [apart, Bool.or_eq_true, Bool.and_eq_true, Nat.blt_eq, beq_iff_eq] at hapart
  rintro ⟨hfirst, hlast, hstep'⟩
  rcases hapart with (hbefore | hbehind) | ⟨⟨hletters, htwo⟩, hodd⟩
  · omega
  · omega
  · rw [htwo] at hstep'
    have heven : k % 2 = 0 := by
      rcases hletters with htwo' | hone
      · rwa [htwo'] at hstep
      · omega
    omega

/-- A small letter that no step before or behind looks for is settled. -/
theorem settled_of_outside {c : Char} (houtside : ∀ p ∈ unsettled, c.toNat < p.1 ∨ p.2 < c.toNat)
    (hlower : Text.lowerChar c = c) : Settled c ∧ 0x60 < c.toNat := by
  have hsign : c ∉ 'İ' :: typographicSigns ++ superscriptDigits := by
    intro hc
    obtain ⟨p, hp, hlow, hhigh⟩ := exists_unsettled hc
    have hrange := houtside p hp
    omega
  simp only [List.cons_append, List.mem_cons, List.mem_append, not_or] at hsign
  have hletter : 0x60 < c.toNat := by
    have hrange := houtside (0, 0x60) (by decide)
    omega
  refine ⟨⟨⟨?_, hlower, ?_, hsign.1⟩, foldSign_of_not_mem hsign.2.1,
    superscript?_of_not_mem hsign.2.2⟩, hletter⟩
  · simp only [unsettled, List.forall_mem_cons] at houtside
    simp only [Text.isBlank, Bool.or_eq_false_iff, Bool.and_eq_false_iff, decide_eq_false_iff_not,
      beq_eq_false_iff_ne]
    omega
  · rintro rfl
    exact absurd hlower (by decide)

/-- A small letter is kept, and comes behind the digits. -/
theorem settled_of_target {r : Text.CaseRun} (hr : r ∈ Text.caseRuns) {k : Nat}
    (hk : k ≤ r.last - r.first) (hstep : k % r.step = 0) :
    Settled (Char.ofNat (r.target + k)) ∧ 0x60 < (Char.ofNat (r.target + k)).toNat := by
  have houtside := List.all_eq_true.mp outside_unsettled r hr
  rw [Bool.and_eq_true, Nat.blt_eq, List.all_eq_true] at houtside
  obtain ⟨hmost, houtside⟩ := houtside
  have hranges : ∀ p ∈ unsettled, r.target + k < p.1 ∨ p.2 < r.target + k := by
    intro p hp
    have hrange := houtside p hp
    rw [Bool.or_eq_true, Nat.blt_eq, Nat.blt_eq] at hrange
    omega
  have hvalue : (Char.ofNat (r.target + k)).toNat = r.target + k := by
    have hsurrogate := hranges (0xD800, 0xDFFF) (by decide)
    have hvalid : (r.target + k).isValidChar := by
      simp only [Nat.isValidChar]
      omega
    rw [Char.ofNat, dif_pos hvalid]
    rfl
  have hlower : Text.lowerChar (Char.ofNat (r.target + k)) = Char.ofNat (r.target + k) := by
    rw [Text.lowerChar, hvalue, lowerIn_target hr hk hstep]
  exact settled_of_outside (by rwa [hvalue]) hlower

theorem lowerChar_eq_or (c : Char) :
    Text.lowerChar c = c ∨ Settled (Text.lowerChar c) ∧ 0x60 < (Text.lowerChar c).toNat := by
  rcases lowerIn_eq_or c.toNat Text.caseRuns with h | ⟨r, hr, k, hk, hstep, h⟩
  · rw [Text.lowerChar, h, Char.ofNat_toNat]
    exact .inl rfl
  · rw [Text.lowerChar, h]
    exact .inr (settled_of_target hr hk hstep)

/-- The lower case of a character that is kept as a character for itself. -/
theorem lowered_lowerChar (hblank : Text.isBlank c = false) (hsigma : c ≠ 'Σ') (hdotted : c ≠ 'İ') :
    Lowered (Text.lowerChar c) := by
  rcases lowerChar_eq_or c with heq | ⟨hsettled, -⟩
  · rw [heq]
    exact ⟨hblank, heq, hsigma, hdotted⟩
  · exact hsettled.toLowered

/-- The lower case of a text without blanks is made of such characters. -/
theorem lowered_of_mem_lowerAfter (hs : ∀ c ∈ s, Text.isBlank c = false) :
    ∀ c ∈ Text.lowerAfter before s, Lowered c := by
  induction s generalizing before with
  | nil => simp [Text.lowerAfter]
  | cons d s ih =>
    have hrest : ∀ c ∈ Text.lowerAfter (d :: before) s, Lowered c :=
      ih fun c hc => hs c (List.mem_cons_of_mem d hc)
    rw [Text.lowerAfter]
    refine List.forall_mem_append.mpr ⟨?_, hrest⟩
    split
    · split <;> exact List.forall_mem_singleton.mpr ⟨by decide, by decide, by decide, by decide⟩
    · split
      · simp only [List.forall_mem_cons]
        exact ⟨⟨by decide, by decide, by decide, by decide⟩, ⟨by decide, by decide, by decide, by decide⟩,
          by simp⟩
      · next hsigma hdotted =>
        exact List.forall_mem_singleton.mpr (lowered_lowerChar (hs d List.mem_cons_self) hsigma hdotted)

/-- Such a text is its own lower case. -/
theorem lowerAfter_of_lowered (before : List Char) (hs : ∀ c ∈ s, Lowered c) :
    Text.lowerAfter before s = s := by
  induction s generalizing before with
  | nil => rfl
  | cons c s ih =>
    have hc := hs c List.mem_cons_self
    rw [Text.lowerAfter, if_neg hc.ne_sigma, if_neg hc.ne_dotted, hc.lower,
      ih _ fun d hd => hs d (List.mem_cons_of_mem _ hd)]
    rfl

end Lower

section Fold

theorem lowered_foldSign (hc : Lowered c) : Lowered (foldSign c) ∧ foldSign (foldSign c) = foldSign c := by
  by_cases hmem : c ∈ typographicSigns
  · have hall : ['-', '*', '/'].all (fun d => decide (Settled d)) = true := by decide
    have hsettled := of_decide_eq_true (List.all_eq_true.mp hall _ (foldSign_of_mem hmem))
    exact ⟨hsettled.toLowered, hsettled.sign⟩
  · rw [foldSign_of_not_mem hmem]
    exact ⟨hc, foldSign_of_not_mem hmem⟩

theorem settled_caret : Settled '^' := by
  decide

theorem settled_of_mem_asciiDigits (hc : c ∈ asciiDigits) : Settled c := by
  have hall : asciiDigits.all (fun c => decide (Settled c)) = true := by decide
  exact of_decide_eq_true (List.all_eq_true.mp hall c hc)

/-- Writing out the superscripts leaves nothing to be folded. -/
theorem settled_of_mem_lowerSuperscripts {inside : Bool} (hs : ∀ c ∈ s, Lowered c ∧ foldSign c = c) :
    ∀ c ∈ lowerSuperscripts inside s, Settled c := by
  induction s generalizing inside with
  | nil => simp [lowerSuperscripts]
  | cons d s ih =>
    have hrest (inside : Bool) : ∀ c ∈ lowerSuperscripts inside s, Settled c :=
      ih fun c hc => hs c (List.mem_cons_of_mem d hc)
    rw [lowerSuperscripts]
    by_cases hmem : d ∈ superscriptDigits
    · obtain ⟨digit, hdigit, heq⟩ := superscript?_of_mem hmem
      have hsettled := settled_of_mem_asciiDigits hdigit
      rw [heq]
      cases inside with
      | true => exact List.forall_mem_cons.mpr ⟨hsettled, hrest true⟩
      | false =>
        exact List.forall_mem_cons.mpr ⟨settled_caret, List.forall_mem_cons.mpr ⟨hsettled, hrest true⟩⟩
    · have hnone := superscript?_of_not_mem hmem
      obtain ⟨hlowered, hsign⟩ := hs d List.mem_cons_self
      rw [hnone]
      exact List.forall_mem_cons.mpr ⟨⟨hlowered, hsign, hnone⟩, hrest false⟩

theorem lowerSuperscripts_of_settled (inside : Bool) (hs : ∀ c ∈ s, Settled c) :
    lowerSuperscripts inside s = s := by
  induction s generalizing inside with
  | nil => rfl
  | cons c s ih =>
    simp only [lowerSuperscripts, (hs c List.mem_cons_self).plain,
      ih false fun d hd => hs d (List.mem_cons_of_mem _ hd)]

/-- The normal form but for its product signs. -/
def foldedChars (s : List Char) : List Char :=
  lowerSuperscripts false ((Text.lower (s.filter fun c => !Text.isBlank c)).map foldSign)

theorem normalChars_eq (s : List Char) : normalChars s = insertProducts (foldedChars s) :=
  rfl

/-- A text of characters that are kept, but for its blanks, only loses those. -/
theorem foldedChars_of_settled (hs : ∀ c ∈ s.filter (fun c => !Text.isBlank c), Settled c) :
    foldedChars s = s.filter fun c => !Text.isBlank c := by
  have hfold : (s.filter fun c => !Text.isBlank c).map foldSign = s.filter fun c => !Text.isBlank c := by
    rw [List.map_congr_left fun c hc => (hs c hc).sign, List.map_id'']
    exact fun _ => rfl
  rw [foldedChars, Text.lower, lowerAfter_of_lowered [] fun c hc => (hs c hc).toLowered, hfold,
    lowerSuperscripts_of_settled false hs]

end Fold

section Products

theorem mem_insertProducts (s : List Char) : ∀ c ∈ insertProducts s, c = '*' ∨ c ∈ s := by
  induction s using insertProducts.induct with
  | case1 a b rest hcall ih =>
    rw [insertProducts, if_pos hcall]
    intro c hc
    rcases List.mem_cons.mp hc with rfl | hc
    · exact .inr List.mem_cons_self
    · rcases List.mem_cons.mp hc with rfl | hc
      · exact .inl rfl
      · exact (ih c hc).imp_right (List.mem_cons_of_mem a)
  | case2 a b rest hcall ih =>
    rw [insertProducts, if_neg hcall]
    intro c hc
    rcases List.mem_cons.mp hc with rfl | hc
    · exact .inr List.mem_cons_self
    · exact (ih c hc).imp_right (List.mem_cons_of_mem a)
  | case3 s hs =>
    rw [insertProducts]
    · exact fun c hc => .inr hc
    · exact hs

/-- Before the product signs are put in, a text is made of characters that are kept. -/
theorem settled_of_mem_foldedChars (s : List Char) : ∀ c ∈ foldedChars s, Settled c := by
  apply settled_of_mem_lowerSuperscripts
  intro c hc
  obtain ⟨d, hd, rfl⟩ := List.mem_map.mp hc
  refine lowered_foldSign (lowered_of_mem_lowerAfter (fun c hc => ?_) d hd)
  have hblank := (List.mem_filter.mp hc).2
  rwa [Bool.not_eq_true'] at hblank

/-- A normal form is made of characters that are kept. -/
theorem settled_of_mem_normalChars (s : List Char) : ∀ c ∈ normalChars s, Settled c := by
  intro c hc
  rcases mem_insertProducts _ c hc with rfl | hc
  · decide
  · exact settled_of_mem_foldedChars s c hc

end Products

end PolyPlot.Expression
