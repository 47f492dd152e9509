import Mathlib.Data.List.Chain
import PolyPlot.Proofs.Grammar.Soundness
import PolyPlot.Proofs.Normal.Grouping

namespace PolyPlot.Expression

variable {s : List Char} {a b : Char}

/-- Neighbours that are factors of a product. -/
def Meet (a b : Char) : Prop :=
  (Text.isDecimal a = true ∧ (b = '(' ∨ b = 'x')) ∨
    (a = ')' ∧ (b = '(' ∨ b = 'x' ∨ Text.isDecimal b = true)) ∨
    (a = 'x' ∧ (b = '(' ∨ Text.isDecimal b = true))

theorem callsForProduct_iff : callsForProduct a b = true ↔ Meet a b := by
  have hparenthesis : Text.isDecimal ')' = false := by decide
  have hx : Text.isDecimal 'x' = false := by decide
  unfold callsForProduct Meet
  split
  · next h => simp [h, hparenthesis, or_assoc]
  · next h =>
    split
    · next h' => simp [h', hx]
    · next h' => simp [h, h']

theorem head?_insertProducts (s : List Char) : (insertProducts s).head? = s.head? := by
  cases s with
  | nil => rfl
  | cons a s =>
    cases s with
    | nil => rfl
    | cons b s =>
      rw [insertProducts_cons_cons]
      rfl

/-- Where product signs have been put, no two factors meet. -/
theorem isChain_insertProducts (s : List Char) :
    (insertProducts s).IsChain fun a b => callsForProduct a b = false := by
  have hsign : IsSign '*' := by decide
  induction s with
  | nil => exact List.isChain_nil
  | cons a s ih =>
    cases s with
    | nil => exact List.isChain_singleton a
    | cons b s =>
      rw [insertProducts]
      split
      · refine List.isChain_cons_cons.mpr ⟨callsForProduct_sign_right hsign a, List.isChain_cons.mpr ⟨?_, ih⟩⟩
        exact fun c _ => callsForProduct_sign_left hsign c
      · next hcall =>
        refine List.isChain_cons.mpr ⟨fun c hc => ?_, ih⟩
        rw [head?_insertProducts] at hc
        cases hc
        exact Bool.eq_false_iff.mpr hcall

/-- Nothing is put between characters that call for nothing. -/
theorem insertProducts_eq_self (hs : s.IsChain fun a b => callsForProduct a b = false) :
    insertProducts s = s := by
  induction s with
  | nil => rfl
  | cons a s ih =>
    cases s with
    | nil => rfl
    | cons b s =>
      obtain ⟨hcall, hrest⟩ := List.isChain_cons_cons.mp hs
      rw [insertProducts, hcall, if_neg Bool.false_ne_true, ih hrest]

/-- A text of kept characters in which no factors meet is its own normal form. -/
theorem normalChars_eq_self (hs : ∀ c ∈ s, Settled c) (hproducts : insertProducts s = s) :
    normalChars s = s := by
  have hfilter : s.filter (fun c => !Text.isBlank c) = s := by
    refine List.filter_eq_self.mpr fun c hc => ?_
    rw [(hs c hc).not_blank]
    rfl
  rw [normalChars_eq, foldedChars_of_settled (by rwa [hfilter]), hfilter, hproducts]

section Grammar

open PolyPlot.Grammar (Derives Symbol)

variable {α : Type} {value? : Numeral → Option α} {symbol : Symbol} {t : Tree α}

theorem isSign_sign (op : Operator) : IsSign op.sign := by
  cases op <;> decide

/-- A sign between two texts keeps them apart. -/
theorem insertProducts_append_sign {c : Char} (hc : IsSign c) (s u : List Char) :
    insertProducts (s ++ c :: u) = insertProducts s ++ c :: insertProducts u := by
  rw [insertProducts_append_cons (callsForProduct_sign_right hc),
    insertProducts_cons (callsForProduct_sign_left hc)]

theorem insertProducts_text {n : Numeral} (hn : n.WellFormed) : insertProducts n.text = n.text := by
  obtain ⟨-, hwhole, hplaces⟩ := hn
  have hleft : ∀ d, callsForProduct '.' d = false :=
    callsForProduct_of_left (by decide) (by decide) (by decide)
  have hright : ∀ d, callsForProduct d '.' = false :=
    callsForProduct_of_right (by decide) (by decide) (by decide)
  rw [Numeral.text]
  split
  · rw [List.append_nil, insertProducts_digits hwhole]
  · rw [insertProducts_append_cons hright, insertProducts_cons hleft, insertProducts_digits hwhole,
      insertProducts_digits hplaces]

/-- In a text of the grammar no factors meet: a sign or a parenthesis is between any two. -/
theorem insertProducts_of_derives (h : Derives value? symbol s t) : insertProducts s = s := by
  induction h with
  | sum hop _ _ ihs ihu | product hop _ _ ihs ihu =>
    rw [insertProducts_append_sign (isSign_sign _), ihs, ihu]
  | power _ _ ihs ihu => rw [insertProducts_append_sign (by decide), ihs, ihu]
  | group _ ih => exact (insertProducts_grouped _).trans (congrArg grouped ih)
  | minus _ ih | plus _ ih => rw [insertProducts_cons (callsForProduct_sign_left (by decide)), ih]
  | term _ ih | factor _ ih | primary _ ih => exact ih
  | x => rfl
  | number hn _ => exact insertProducts_text hn

theorem settled_of_derives (h : Derives value? symbol s t) : ∀ c ∈ s, Settled c := by
  have hsigns : Grammar.signs.all (fun c => decide (Settled c)) = true := by decide
  exact h.forall_mem (fun c hc => settled_of_mem_asciiDigits (mem_asciiDigits hc))
    fun c hc => of_decide_eq_true (List.all_eq_true.mp hsigns c hc)

end Grammar

theorem Settled.not_typographic {c : Char} (hc : Settled c) : c ∉ typographicSigns := by
  intro hmem
  have hall : typographicSigns.all (fun c => foldSign c != c) = true := by decide
  have hne := List.all_eq_true.mp hall c hmem
  rw [bne_iff_ne] at hne
  exact hne hc.sign

theorem Settled.not_superscript {c : Char} (hc : Settled c) : c ∉ superscriptDigits := by
  intro hmem
  obtain ⟨digit, -, hdigit⟩ := superscript?_of_mem hmem
  rw [hc.plain] at hdigit
  cases hdigit

theorem toList_normalize (text : String) : (normalize text).toList = normalChars text.toList :=
  String.toList_ofList

theorem normalize_eq_self {text : String} (h : normalChars text.toList = text.toList) :
    normalize text = text := by
  rw [normalize, h, String.ofList_toList]

/-- The normal form of every text is free of blanks, typographic signs, superscript digits and factors
that meet, and is its own normal form; and a text that can be read is its own normal form already. -/
theorem normalize_fixed (text : String) :
    (∀ c ∈ (normalize text).toList,
      Text.isBlank c = false ∧ c ∉ typographicSigns ∧ c ∉ superscriptDigits) ∧
    ((normalize text).toList.IsChain fun a b => ¬ Meet a b) ∧
    normalize (normalize text) = normalize text ∧
    ∀ limit t, Tree.read limit text = .ok t → normalize text = text := by
  have hsettled := settled_of_mem_normalChars text.toList
  have hchain := isChain_insertProducts (foldedChars text.toList)
  rw [← normalChars_eq] at hchain
  rw [toList_normalize]
  refine ⟨fun c hc => ?_, ?_, ?_, fun limit t hread => ?_⟩
  · exact ⟨(hsettled c hc).not_blank, (hsettled c hc).not_typographic, (hsettled c hc).not_superscript⟩
  · exact hchain.imp fun a b hcall => mt callsForProduct_iff.mpr (Bool.eq_false_iff.mp hcall)
  · apply normalize_eq_self
    rw [toList_normalize]
    exact normalChars_eq_self hsettled (insertProducts_eq_self hchain)
  · have hderives := Grammar.derives_of_tree hread
    exact normalize_eq_self (normalChars_eq_self (settled_of_derives hderives)
      (insertProducts_of_derives hderives))

/-- A product with its sign is read and kept; the same without the sign is brought to it. -/
theorem normalize_fixed_product :
    (∃ t, Tree.read none "(x+1)*x" = .ok t) ∧ normalize "(x+1)*x" = "(x+1)*x" ∧
      normalize "(X + 1)x" = "(x+1)*x" := by
  obtain ⟨t, hread⟩ : ∃ t, Tree.read none "(x+1)*x" = .ok t := by
    have hok : (Tree.read none "(x+1)*x").isOk = true := by decide +kernel
    cases hread : Tree.read none "(x+1)*x" with
    | ok t => exact ⟨t, rfl⟩
    | error e =>
      rw [hread] at hok
      cases hok
  exact ⟨⟨t, hread⟩, (normalize_fixed "(x+1)*x").2.2.2 none t hread, by decide +kernel⟩

end PolyPlot.Expression
