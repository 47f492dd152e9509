import PolyPlot.Coeffs.Printer
import PolyPlot.Proofs.Decimal.Numerals
import PolyPlot.Proofs.Grammar.Derivation
import PolyPlot.Proofs.Printer.Normal

namespace PolyPlot

open Expression Grammar

/-- A term of a printed polynomial. -/
structure PrintedTerm where
  negative : Bool
  /-- The numeral of the coefficient, left out where the coefficient is one. -/
  numeral? : Option Numeral
  power : ℕ

namespace PrintedTerm

variable {t : PrintedTerm} {n : Numeral} {k : ℕ}

/-- Only a power of `x` can stand without a numeral. -/
def WellFormed (t : PrintedTerm) : Prop :=
  match t.numeral? with
  | some n => n.WellFormed
  | none => 0 < t.power

/-- The magnitude of the coefficient. -/
def magnitude (t : PrintedTerm) : Float :=
  match t.numeral? with
  | some n => n.toDouble
  | none => 1

/-- The tree of a power of `x`. -/
def powerTree : ℕ → Tree Numeral
  | 1 => .x
  | k => .power .x (.literal ⟨Decimal.text k, []⟩)

/-- The tree of a term without its sign. -/
def bodyTree (t : PrintedTerm) : Tree Numeral :=
  match t.numeral? with
  | none => powerTree t.power
  | some n => if t.power = 0 then .literal n else .binary .multiply (.literal n) (powerTree t.power)

/-- The tree of a first term: its sign belongs to the numeral, or to the power if there is no numeral. -/
def firstTree (t : PrintedTerm) : Tree Numeral :=
  if t.negative then
    match t.numeral? with
    | none => .negate (powerTree t.power)
    | some n =>
      if t.power = 0 then .negate (.literal n)
      else .binary .multiply (.negate (.literal n)) (powerTree t.power)
  else t.bodyTree

/-- The operation that joins a further term to those before it. -/
def operator (t : PrintedTerm) : Operator :=
  if t.negative then .subtract else .add

/-- The tree of a tree with further terms behind it. -/
def chain (first : Tree Numeral) (rest : List PrintedTerm) : Tree Numeral :=
  rest.foldl (fun a t => .binary t.operator a t.bodyTree) first

/-- The text of a term without its sign. -/
def bodyText (t : PrintedTerm) : String :=
  match t.numeral? with
  | none => Coeffs.powerText t.power
  | some n => String.ofList n.text ++ Coeffs.powerText t.power

/-- The text of a first term. -/
def firstText (t : PrintedTerm) : String :=
  Coeffs.firstTerm t.negative t.numeral?.isNone t.power t.bodyText

/-- The text of a further term. -/
def nextText (t : PrintedTerm) : String :=
  (if t.negative then "- " else "+ ") ++ t.bodyText

/-- The text of a polynomial by its terms. -/
def textOf (first : PrintedTerm) (rest : List PrintedTerm) : String :=
  " ".intercalate (first.firstText :: rest.map nextText)

theorem toList_powerText_succ_succ (k : ℕ) :
    (Coeffs.powerText (k + 2)).toList = 'x' :: '^' :: Decimal.text (k + 2) := by
  simp [Coeffs.powerText]

theorem isPrinted_of_mem_numeral (hn : n.WellFormed) {c : Char} (hc : c ∈ n.text) : IsPrinted c := by
  obtain ⟨-, hwhole, hplaces⟩ := hn
  rw [Numeral.text, List.mem_append] at hc
  rcases hc with hc | hc
  · exact .of_isDigit (hwhole c hc)
  · split at hc
    · cases hc
    · rcases List.mem_cons.mp hc with rfl | hc
      · exact .inr (by decide)
      · exact .of_isDigit (hplaces c hc)

theorem isPrinted_of_mem_powerText {c : Char} (hc : c ∈ (Coeffs.powerText k).toList) : IsPrinted c := by
  match k with
  | 0 => cases hc
  | 1 =>
    obtain rfl : c = 'x' := by simpa [Coeffs.powerText] using hc
    exact .inr (by decide)
  | k + 2 =>
    rw [toList_powerText_succ_succ] at hc
    rcases List.mem_cons.mp hc with rfl | hc
    · exact .inr (by decide)
    · rcases List.mem_cons.mp hc with rfl | hc
      · exact .inr (by decide)
      · exact .of_isDigit (Decimal.isDigit_of_mem_text hc)

theorem isPrinted_of_mem_bodyText (ht : t.WellFormed) {c : Char} (hc : c ∈ t.bodyText.toList) :
    IsPrinted c := by
  unfold WellFormed at ht
  unfold bodyText at hc
  cases hnumeral : t.numeral? with
  | none =>
    rw [hnumeral] at hc
    exact isPrinted_of_mem_powerText hc
  | some n =>
    rw [hnumeral] at ht hc
    rw [String.toList_append, String.toList_ofList, List.mem_append] at hc
    exact hc.elim (isPrinted_of_mem_numeral ht) isPrinted_of_mem_powerText

theorem isPrinted_of_mem_firstText (ht : t.WellFormed) {c : Char} (hc : c ∈ t.firstText.toList) :
    IsPrinted c := by
  have hsign : IsPrinted '-' := .inr (by decide)
  have hopen : IsPrinted '(' := .inr (by decide)
  have hclose : IsPrinted ')' := .inr (by decide)
  unfold firstText Coeffs.firstTerm at hc
  split at hc
  · split at hc
    · simp only [String.toList_append, List.mem_append] at hc
      rcases hc with (hc | hc) | hc
      · rcases List.mem_cons.mp hc with rfl | hc
        · exact hsign
        · rwa [List.mem_singleton.mp hc]
      · exact isPrinted_of_mem_bodyText ht hc
      · rwa [List.mem_singleton.mp hc]
    · rw [String.toList_append, List.mem_append] at hc
      rcases hc with hc | hc
      · rwa [List.mem_singleton.mp hc]
      · exact isPrinted_of_mem_bodyText ht hc
  · exact isPrinted_of_mem_bodyText ht hc

theorem filter_of_isPrinted {s : List Char} (hs : ∀ c ∈ s, IsPrinted c) :
    s.filter (fun c => !Text.isBlank c) = s := by
  rw [List.filter_eq_self]
  intro c hc
  rw [(hs c hc).settled.not_blank]
  rfl

theorem filter_nextText (ht : t.WellFormed) :
    t.nextText.toList.filter (fun c => !Text.isBlank c) = t.operator.sign :: t.bodyText.toList := by
  have hbody := filter_of_isPrinted fun c hc => isPrinted_of_mem_bodyText ht (c := c) hc
  unfold nextText operator
  rw [String.toList_append, List.filter_append, hbody]
  split <;> rfl

theorem filter_intercalate (s : String) (texts : List String) :
    (" ".intercalate (s :: texts)).toList.filter (fun c => !Text.isBlank c) =
      s.toList.filter (fun c => !Text.isBlank c) ++
        texts.flatMap fun u => u.toList.filter fun c => !Text.isBlank c := by
  have hblank : " ".toList.filter (fun c => !Text.isBlank c) = [] := rfl
  induction texts generalizing s with
  | nil => rw [String.intercalate_singleton, List.flatMap_nil, List.append_nil]
  | cons u texts ih =>
    rw [String.intercalate_cons_cons, String.toList_append, String.toList_append, List.filter_append,
      List.filter_append, hblank, List.append_nil, ih, List.flatMap_cons]

/-- The characters of a printed polynomial without its blanks. -/
theorem filter_textOf {first : PrintedTerm} {rest : List PrintedTerm} (hfirst : first.WellFormed)
    (hrest : ∀ t ∈ rest, t.WellFormed) :
    (textOf first rest).toList.filter (fun c => !Text.isBlank c) =
      first.firstText.toList ++ rest.flatMap fun t => t.operator.sign :: t.bodyText.toList := by
  have hnext : (rest.map nextText).flatMap (fun u => u.toList.filter fun c => !Text.isBlank c) =
      rest.flatMap fun t => t.operator.sign :: t.bodyText.toList := by
    rw [List.flatMap_map]
    exact List.flatMap_congr fun t ht => filter_nextText (hrest t ht)
  rw [textOf, filter_intercalate, hnext,
    filter_of_isPrinted fun c hc => isPrinted_of_mem_firstText hfirst hc]

theorem callsForProduct_sign (t : PrintedTerm) (c : Char) : callsForProduct c t.operator.sign = false := by
  unfold operator
  split
  · exact callsForProduct_of_right (by decide) (by decide) (by decide) c
  · exact callsForProduct_of_right (by decide) (by decide) (by decide) c

/-- No product sign stands between terms. -/
theorem insertProducts_flatMap (s : List Char) (rest : List PrintedTerm) :
    insertProducts (s ++ rest.flatMap fun t => t.operator.sign :: t.bodyText.toList) =
      insertProducts s ++ rest.flatMap fun t => t.operator.sign :: insertProducts t.bodyText.toList := by
  induction rest generalizing s with
  | nil => simp
  | cons t rest ih =>
    have hleft : ∀ d, callsForProduct t.operator.sign d = false := by
      unfold operator
      split
      · exact callsForProduct_of_left (by decide) (by decide) (by decide)
      · exact callsForProduct_of_left (by decide) (by decide) (by decide)
    rw [List.flatMap_cons, List.cons_append, insertProducts_append_cons (callsForProduct_sign t),
      insertProducts_cons hleft, ih, List.flatMap_cons, List.cons_append]

/-- The normal form of a printed polynomial. -/
theorem normalChars_textOf {first : PrintedTerm} {rest : List PrintedTerm} (hfirst : first.WellFormed)
    (hrest : ∀ t ∈ rest, t.WellFormed) :
    normalChars (textOf first rest).toList = insertProducts first.firstText.toList ++
      rest.flatMap fun t => t.operator.sign :: insertProducts t.bodyText.toList := by
  rw [normalChars_of_isPrinted, filter_textOf hfirst hrest, insertProducts_flatMap]
  rw [filter_textOf hfirst hrest]
  intro c hc
  rcases List.mem_append.mp hc with hc | hc
  · exact isPrinted_of_mem_firstText hfirst hc
  · obtain ⟨t, ht, hc⟩ := List.mem_flatMap.mp hc
    rcases List.mem_cons.mp hc with rfl | hc
    · unfold operator
      split
      · exact .inr (by decide)
      · exact .inr (by decide)
    · exact isPrinted_of_mem_bodyText (hrest t ht) hc

theorem insertProducts_numeral (hn : n.WellFormed) : insertProducts n.text = n.text := by
  obtain ⟨-, hwhole, hplaces⟩ := hn
  unfold Numeral.text
  split
  · rw [List.append_nil, insertProducts_digits hwhole]
  · rw [insertProducts_append_cons (callsForProduct_of_right (by decide) (by decide) (by decide)),
      insertProducts_digits hwhole,
      insertProducts_cons (callsForProduct_of_left (by decide) (by decide) (by decide)),
      insertProducts_digits hplaces]

theorem insertProducts_powerText (k : ℕ) :
    insertProducts (Coeffs.powerText k).toList = (Coeffs.powerText k).toList := by
  match k with
  | 0 => rfl
  | 1 => rfl
  | k + 2 =>
    have hcaret : callsForProduct 'x' '^' = false := by decide
    rw [toList_powerText_succ_succ, insertProducts_cons_cons, hcaret,
      insertProducts_cons (callsForProduct_of_left (by decide) (by decide) (by decide)),
      insertProducts_digits fun c hc => Decimal.isDigit_of_mem_text hc]
    rfl

/-- A numeral ends with a digit, so it is a factor of what follows. -/
theorem exists_text_concat (hn : n.WellFormed) : ∃ s c, n.text = s ++ [c] ∧ c.isDigit = true := by
  obtain ⟨hne, hwhole, hplaces⟩ := hn
  unfold Numeral.text
  split
  · obtain ⟨s, c, hs, hc⟩ := Decimal.isDigit_getLast hwhole hne
    exact ⟨s, c, by rw [List.append_nil, hs], hc⟩
  · next hsome =>
    obtain ⟨s, c, hs, hc⟩ := Decimal.isDigit_getLast hplaces (by simpa using hsome)
    exact ⟨n.whole ++ '.' :: s, c, by rw [hs]; simp, hc⟩

theorem insertProducts_numeral_power (hn : n.WellFormed) (hk : 0 < k) :
    insertProducts (n.text ++ (Coeffs.powerText k).toList) =
      n.text ++ '*' :: (Coeffs.powerText k).toList := by
  obtain ⟨s, c, hs, hc⟩ := exists_text_concat hn
  have hx : ∃ u, (Coeffs.powerText k).toList = 'x' :: u := by
    match k, hk with
    | 1, _ => exact ⟨[], rfl⟩
    | k + 2, _ => exact ⟨_, toList_powerText_succ_succ k⟩
  obtain ⟨u, hu⟩ := hx
  have hpower := insertProducts_powerText k
  have hnumeral := insertProducts_numeral hn
  rw [hu] at hpower ⊢
  rw [hs] at hnumeral ⊢
  rw [List.append_assoc, List.singleton_append, insertProducts_append, hnumeral, hpower,
    callsForProduct_digit_x hc]
  simp

theorem syntax_power (hk : 0 < k) : Syntax .factor (Coeffs.powerText k).toList (powerTree k) := by
  match k, hk with
  | 1, _ => exact .primary .x
  | k + 2, _ =>
    have hn : Numeral.WellFormed ⟨Decimal.text (k + 2), []⟩ :=
      ⟨Decimal.text_ne_nil _, fun c hc => Decimal.isDigit_of_mem_text hc, by simp⟩
    have hnumber : Syntax .primary (Decimal.text (k + 2)) (.literal ⟨Decimal.text (k + 2), []⟩) := by
      have h : Syntax .primary (Numeral.text ⟨Decimal.text (k + 2), []⟩) _ := .number hn rfl
      rwa [Numeral.text, List.isEmpty_nil, if_pos rfl, List.append_nil] at h
    rw [toList_powerText_succ_succ]
    exact .power .x (.primary hnumber)

/-- The normal form of a term without its sign derives from the grammar. -/
theorem syntax_body (ht : t.WellFormed) : Syntax .term (insertProducts t.bodyText.toList) t.bodyTree := by
  unfold WellFormed at ht
  unfold bodyText bodyTree
  cases hnumeral : t.numeral? with
  | none =>
    rw [hnumeral] at ht
    dsimp only
    rw [insertProducts_powerText]
    exact .factor (syntax_power ht)
  | some n =>
    rw [hnumeral] at ht
    dsimp only at ht ⊢
    rw [String.toList_append, String.toList_ofList]
    rcases Nat.eq_zero_or_pos t.power with hzero | hpos
    · rw [if_pos hzero, hzero]
      have hnone : (Coeffs.powerText 0).toList = [] := rfl
      rw [hnone, List.append_nil, insertProducts_numeral ht]
      exact .factor (.primary (.number ht rfl))
    · rw [if_neg hpos.ne', insertProducts_numeral_power ht hpos]
      exact @Derives.product _ _ .multiply _ _ _ _ rfl (.factor (.primary (.number ht rfl))) (syntax_power hpos)

theorem insertProducts_minus (s : List Char) : insertProducts ('-' :: s) = '-' :: insertProducts s :=
  insertProducts_cons (callsForProduct_of_left (by decide) (by decide) (by decide)) s

theorem insertProducts_group (k : ℕ) :
    insertProducts ('(' :: (Coeffs.powerText k).toList ++ [')']) =
      '(' :: (Coeffs.powerText k).toList ++ [')'] := by
  rw [List.cons_append, insertProducts_cons (callsForProduct_of_left (by decide) (by decide) (by decide)),
    insertProducts_append_cons (callsForProduct_of_right (by decide) (by decide) (by decide)),
    insertProducts_powerText]
  rfl

/-- The normal form of a first term derives from the grammar: a sign before a power needs parentheses,
before a numeral it needs none. -/
theorem syntax_first (ht : t.WellFormed) :
    Syntax .term (insertProducts t.firstText.toList) t.firstTree := by
  have hbody := syntax_body ht
  unfold firstText firstTree Coeffs.firstTerm
  cases hnegative : t.negative with
  | false => exact hbody
  | true =>
    unfold WellFormed at ht
    rw [if_pos rfl, if_pos rfl]
    unfold bodyText
    cases hnumeral : t.numeral? with
    | none =>
      rw [hnumeral] at ht
      dsimp only
      by_cases hpower : 2 ≤ t.power
      · have hunit : ((none : Option Numeral).isNone && decide (2 ≤ t.power)) = true := by
          simpa using hpower
        have htext : ("-(" ++ Coeffs.powerText t.power ++ ")").toList =
            '-' :: ('(' :: (Coeffs.powerText t.power).toList ++ [')']) := by simp
        rw [if_pos hunit, htext, insertProducts_minus, insertProducts_group]
        exact .factor (.primary (.minus (.group (.term (.factor (syntax_power ht))))))
      · have hunit : ¬ ((none : Option Numeral).isNone && decide (2 ≤ t.power)) = true := by
          simpa using hpower
        have hone : t.power = 1 := by
          dsimp only at ht
          omega
        rw [if_neg hunit, hone]
        exact .factor (.primary (.minus .x))
    | some n =>
      rw [hnumeral] at ht
      have hunit : ¬ ((some n).isNone && decide (2 ≤ t.power)) = true := by simp
      have htext : ("-" ++ (String.ofList n.text ++ Coeffs.powerText t.power)).toList =
          '-' :: (n.text ++ (Coeffs.powerText t.power).toList) := by simp
      dsimp only at ht ⊢
      rw [if_neg hunit, htext, insertProducts_minus]
      rcases Nat.eq_zero_or_pos t.power with hzero | hpos
      · have hnone : (Coeffs.powerText 0).toList = [] := rfl
        rw [if_pos hzero, hzero, hnone, List.append_nil, insertProducts_numeral ht]
        exact .factor (.primary (.minus (.number ht rfl)))
      · rw [if_neg hpos.ne', insertProducts_numeral_power ht hpos, ← List.cons_append]
        exact @Derives.product _ _ .multiply _ _ _ _ rfl (.factor (.primary (.minus (.number ht rfl))))
          (syntax_power hpos)

theorem isProduct_operator (t : PrintedTerm) : t.operator.isProduct = false := by
  unfold operator
  split <;> rfl

/-- Further terms make a chain of sums and differences. -/
theorem syntax_chain {s : List Char} {a : Tree Numeral} {rest : List PrintedTerm}
    (ha : Syntax .expression s a)
    (hrest : ∀ t ∈ rest, t.WellFormed) :
    Syntax .expression (s ++ rest.flatMap fun t => t.operator.sign :: insertProducts t.bodyText.toList)
      (chain a rest) := by
  induction rest generalizing s a with
  | nil => simpa [chain] using ha
  | cons t rest ih =>
    have hsum : Syntax .expression (s ++ t.operator.sign :: insertProducts t.bodyText.toList)
        (.binary t.operator a t.bodyTree) :=
      .sum (isProduct_operator t) ha (syntax_body (hrest t List.mem_cons_self))
    have hchain := ih hsum fun u hu => hrest u (List.mem_cons_of_mem t hu)
    rw [List.append_assoc] at hchain
    exact hchain

/-- The normal form of a printed polynomial derives from the grammar. -/
theorem syntax_textOf {first : PrintedTerm} {rest : List PrintedTerm} (hfirst : first.WellFormed)
    (hrest : ∀ t ∈ rest, t.WellFormed) :
    Syntax .expression (normalChars (textOf first rest).toList) (chain first.firstTree rest) := by
  rw [normalChars_textOf hfirst hrest]
  exact syntax_chain (.term (syntax_first hfirst)) hrest

end PrintedTerm

end PolyPlot
