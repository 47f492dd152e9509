import PolyPlot.Proofs.Printer.Normal

namespace PolyPlot.Expression

variable {s u : List Char} {c : Char}

/-- A parenthesis. It ends a word, and with it the neighbourhood in which the lower case of a letter is
decided. -/
def IsParenthesis (c : Char) : Prop :=
  c = '(' ∨ c = ')'

theorem meetsLetter_append (hc : IsParenthesis c) (s u : List Char) :
    Text.meetsLetter (s ++ c :: u) = Text.meetsLetter s := by
  induction s with
  | nil => rcases hc with rfl | rfl <;> rfl
  | cons d s ih => rw [List.cons_append, Text.meetsLetter, Text.meetsLetter, ih]

theorem lowerAfter_append_before (hc : IsParenthesis c) (before w s : List Char) :
    Text.lowerAfter (before ++ c :: w) s = Text.lowerAfter before s := by
  induction s generalizing before with
  | nil => rfl
  | cons d s ih =>
    rw [Text.lowerAfter, Text.lowerAfter, meetsLetter_append hc, ← List.cons_append, ih]

/-- The lower case of the texts on both sides of a parenthesis. -/
theorem lowerAfter_append (hc : IsParenthesis c) (before s u : List Char) :
    Text.lowerAfter before (s ++ c :: u) = Text.lowerAfter before s ++ c :: Text.lower u := by
  induction s generalizing before with
  | nil =>
    have hself : Text.lowerAfter before (c :: u) = c :: Text.lowerAfter (c :: before) u := by
      rcases hc with rfl | rfl <;> rfl
    have hbefore := lowerAfter_append_before hc [] before u
    rw [List.nil_append] at hbefore ⊢
    rw [hself, hbefore]
    rfl
  | cons d s ih =>
    rw [List.cons_append, Text.lowerAfter, Text.lowerAfter, meetsLetter_append hc, ih, List.append_assoc]

theorem lowerSuperscripts_append (hc : superscript? c = none) (inside : Bool) (s u : List Char) :
    lowerSuperscripts inside (s ++ c :: u) =
      lowerSuperscripts inside s ++ c :: lowerSuperscripts false u := by
  induction s generalizing inside with
  | nil => simp only [List.nil_append, lowerSuperscripts, hc]
  | cons d s ih =>
    rw [List.cons_append, lowerSuperscripts, lowerSuperscripts]
    cases superscript? d with
    | none =>
      dsimp only
      rw [ih]
      rfl
    | some digit =>
      dsimp only
      rw [ih]
      cases inside <;> rfl

/-- The folded texts on both sides of a parenthesis. -/
theorem foldedChars_append (hc : IsParenthesis c) (s u : List Char) :
    foldedChars (s ++ c :: u) = foldedChars s ++ c :: foldedChars u := by
  have hsteps : Text.isBlank c = false ∧ foldSign c = c ∧ superscript? c = none := by
    rcases hc with rfl | rfl <;> decide
  obtain ⟨hblank, hfold, hsuperscript⟩ := hsteps
  unfold foldedChars
  rw [List.filter_append, List.filter_cons_of_pos (by rw [hblank]; rfl), Text.lower,
    lowerAfter_append hc, List.map_append, List.map_cons, hfold, lowerSuperscripts_append hsuperscript]
  rfl

/-- The text in parentheses. -/
def grouped (s : List Char) : List Char :=
  '(' :: s ++ [')']

/-- A sign of the grammar other than a parenthesis. -/
def IsSign (c : Char) : Prop :=
  c ∈ ['+', '-', '*', '/', '^']

instance : DecidablePred IsSign :=
  fun c => inferInstanceAs (Decidable (c ∈ ['+', '-', '*', '/', '^']))

theorem IsSign.eq (hc : IsSign c) : c = '+' ∨ c = '-' ∨ c = '*' ∨ c = '/' ∨ c = '^' := by
  simpa [IsSign] using hc

/-- A text in parentheses and what follows it are folded apart. -/
theorem foldedChars_grouped_append (s u : List Char) :
    foldedChars (grouped s ++ u) = grouped (foldedChars s) ++ foldedChars u := by
  have hopen := foldedChars_append (.inl rfl) [] (s ++ ')' :: u)
  rw [List.nil_append] at hopen
  rw [grouped, List.append_assoc, List.cons_append, List.singleton_append, hopen,
    foldedChars_append (.inr rfl)]
  have hnil : foldedChars [] = [] := rfl
  simp [grouped, hnil]

theorem foldedChars_grouped (s : List Char) : foldedChars (grouped s) = grouped (foldedChars s) := by
  have hnil : foldedChars [] = [] := rfl
  have hfolded := foldedChars_grouped_append s []
  rwa [List.append_nil, hnil, List.append_nil] at hfolded

theorem foldedChars_sign_grouped (hc : IsSign c) (s : List Char) :
    foldedChars (c :: grouped s) = c :: grouped (foldedChars s) := by
  have hself : foldedChars [c] = [c] := by
    rcases hc.eq with rfl | rfl | rfl | rfl | rfl <;> rfl
  have hfolded := foldedChars_append (.inl rfl) [c] (s ++ [')'])
  rw [hself, foldedChars_append (.inr rfl)] at hfolded
  exact hfolded

theorem callsForProduct_sign_left (hc : IsSign c) (d : Char) : callsForProduct c d = false := by
  rcases hc.eq with rfl | rfl | rfl | rfl | rfl <;>
    exact callsForProduct_of_left (by decide) (by decide) (by decide) d

theorem callsForProduct_sign_right (hc : IsSign c) (d : Char) : callsForProduct d c = false := by
  rcases hc.eq with rfl | rfl | rfl | rfl | rfl <;>
    exact callsForProduct_of_right (by decide) (by decide) (by decide) d

theorem insertProducts_grouped_append (s u : List Char) :
    insertProducts (grouped s ++ u) = '(' :: insertProducts s ++ insertProducts (')' :: u) := by
  have hopen : ∀ d, callsForProduct '(' d = false :=
    callsForProduct_of_left (by decide) (by decide) (by decide)
  have hclose : ∀ d, callsForProduct d ')' = false :=
    callsForProduct_of_right (by decide) (by decide) (by decide)
  rw [grouped, List.append_assoc, List.cons_append, List.singleton_append, insertProducts_cons hopen,
    insertProducts_append_cons hclose]
  rfl

theorem insertProducts_grouped (s : List Char) : insertProducts (grouped s) = grouped (insertProducts s) := by
  have hproducts := insertProducts_grouped_append s []
  rwa [List.append_nil] at hproducts

/-- A sign in front of a text in parentheses keeps its place. -/
theorem normalChars_sign_grouped (hc : IsSign c) (s : List Char) :
    normalChars (c :: grouped s) = c :: grouped (normalChars s) := by
  rw [normalChars_eq, foldedChars_sign_grouped hc, insertProducts_cons (callsForProduct_sign_left hc),
    insertProducts_grouped, normalChars_eq]

/-- A sign between two texts in parentheses keeps its place, and no other sign is put beside it. -/
theorem normalChars_grouped_sign_grouped (hc : IsSign c) (s u : List Char) :
    normalChars (grouped s ++ c :: grouped u) =
      grouped (normalChars s) ++ c :: grouped (normalChars u) := by
  have hbehind (w : List Char) : insertProducts (')' :: c :: w) = ')' :: c :: insertProducts w := by
    rw [insertProducts, callsForProduct_sign_right hc, if_neg Bool.false_ne_true,
      insertProducts_cons (callsForProduct_sign_left hc)]
  rw [normalChars_eq, foldedChars_grouped_append, foldedChars_sign_grouped hc,
    insertProducts_grouped_append, hbehind, insertProducts_grouped]
  simp [grouped, normalChars_eq]

/-- Between two texts in parentheses a product sign is put. -/
theorem normalChars_grouped_grouped (s u : List Char) :
    normalChars (grouped s ++ grouped u) =
      grouped (normalChars s) ++ '*' :: grouped (normalChars u) := by
  have hbehind (w : List Char) :
      insertProducts (')' :: grouped w) = ')' :: '*' :: insertProducts (grouped w) := rfl
  rw [normalChars_eq, foldedChars_grouped_append, foldedChars_grouped, insertProducts_grouped_append,
    hbehind, insertProducts_grouped]
  simp [grouped, normalChars_eq]

end PolyPlot.Expression
