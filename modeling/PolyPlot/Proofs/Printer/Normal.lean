import PolyPlot.Expression.Reading
import PolyPlot.Proofs.Normal.Settled

namespace PolyPlot.Expression

variable {a b s : List Char} {c d : Char}

/-- A character of printed polynomials other than a blank. -/
def IsPrinted (c : Char) : Prop :=
  c ∈ asciiDigits ∨ c ∈ ['x', '^', '+', '-', '(', ')', '.']

theorem mem_asciiDigits (hc : c.isDigit = true) : c ∈ asciiDigits := by
  rw [Char.isDigit_iff_toNat] at hc
  have hlow : 48 ≤ c.toNat := hc.1
  have hhigh : c.toNat ≤ 57 := hc.2
  have hcases : c.toNat = 48 ∨ c.toNat = 49 ∨ c.toNat = 50 ∨ c.toNat = 51 ∨ c.toNat = 52 ∨ c.toNat = 53 ∨
      c.toNat = 54 ∨ c.toNat = 55 ∨ c.toNat = 56 ∨ c.toNat = 57 := by omega
  rw [← Char.ofNat_toNat c]
  rcases hcases with h | h | h | h | h | h | h | h | h | h <;> rw [h] <;> decide

theorem IsPrinted.of_isDigit (hc : c.isDigit = true) : IsPrinted c :=
  .inl (mem_asciiDigits hc)

theorem IsPrinted.settled (hc : IsPrinted c) : Settled c := by
  have hall : (asciiDigits ++ ['x', '^', '+', '-', '(', ')', '.']).all (fun c => decide (Settled c)) =
      true := by decide
  exact of_decide_eq_true (List.all_eq_true.mp hall c (List.mem_append.mpr hc))

/-- A printed text only loses its blanks and gains product signs. -/
theorem normalChars_of_isPrinted (hs : ∀ c ∈ s.filter (fun c => !Text.isBlank c), IsPrinted c) :
    normalChars s = insertProducts (s.filter fun c => !Text.isBlank c) := by
  rw [normalChars_eq, foldedChars_of_settled fun c hc => (hs c hc).settled]

section Products

theorem insertProducts_cons_cons (c d : Char) (s : List Char) :
    insertProducts (c :: d :: s) =
      c :: (if callsForProduct c d then ['*'] else []) ++ insertProducts (d :: s) := by
  rw [insertProducts]
  split <;> rfl

/-- Two pieces of a text are brought to normal form apart from the product sign between them. -/
theorem insertProducts_append (a b : List Char) (c d : Char) :
    insertProducts (a ++ c :: d :: b) =
      insertProducts (a ++ [c]) ++ (if callsForProduct c d then ['*'] else []) ++
        insertProducts (d :: b) := by
  induction a with
  | nil => exact insertProducts_cons_cons c d b
  | cons x a ih =>
    cases a with
    | nil =>
      simp only [List.cons_append, List.nil_append] at ih ⊢
      rw [insertProducts_cons_cons, ih, insertProducts_cons_cons x c]
      simp only [List.cons_append, List.append_assoc]
    | cons y a =>
      simp only [List.cons_append] at ih ⊢
      rw [insertProducts_cons_cons, ih, insertProducts_cons_cons x y]
      simp only [List.cons_append, List.append_assoc]

/-- A character that no product sign follows. -/
theorem insertProducts_cons (hc : ∀ d, callsForProduct c d = false) (b : List Char) :
    insertProducts (c :: b) = c :: insertProducts b := by
  cases b with
  | nil => rfl
  | cons d b => rw [insertProducts, hc d, if_neg Bool.false_ne_true]

/-- A character that no product sign precedes. -/
theorem insertProducts_append_cons (hd : ∀ c, callsForProduct c d = false) (a b : List Char) :
    insertProducts (a ++ d :: b) = insertProducts a ++ insertProducts (d :: b) := by
  rcases List.eq_nil_or_concat a with rfl | ⟨a, c, rfl⟩
  · rfl
  · rw [List.concat_eq_append, List.append_assoc, List.singleton_append, insertProducts_append, hd c]
    simp

theorem callsForProduct_of_left (hc : Text.isDecimal c = false) (hparenthesis : c ≠ ')')
    (hx : c ≠ 'x') (d : Char) :
    callsForProduct c d = false := by
  rw [callsForProduct, if_neg hparenthesis, if_neg hx, hc, Bool.false_and]

theorem callsForProduct_of_right (hd : Text.isDecimal d = false) (hparenthesis : d ≠ '(')
    (hx : d ≠ 'x') (c : Char) :
    callsForProduct c d = false := by
  unfold callsForProduct
  split
  · simp [hd, hparenthesis, hx]
  · split <;> simp [hd, hparenthesis, hx]

theorem callsForProduct_digits (hc : c.isDigit = true) (hd : d.isDigit = true) :
    callsForProduct c d = false := by
  have hall : asciiDigits.all (fun c => asciiDigits.all fun d => !callsForProduct c d) = true := by decide
  have hnone := List.all_eq_true.mp (List.all_eq_true.mp hall c (mem_asciiDigits hc)) d (mem_asciiDigits hd)
  rwa [Bool.not_eq_true'] at hnone

theorem callsForProduct_digit_x (hc : c.isDigit = true) : callsForProduct c 'x' = true := by
  have hall : asciiDigits.all (fun c => callsForProduct c 'x') = true := by decide
  exact List.all_eq_true.mp hall c (mem_asciiDigits hc)

theorem insertProducts_digits (hs : ∀ c ∈ s, c.isDigit = true) : insertProducts s = s := by
  induction s with
  | nil => rfl
  | cons c s ih =>
    cases s with
    | nil => rfl
    | cons d s =>
      rw [insertProducts, callsForProduct_digits (hs c (by simp)) (hs d (by simp)),
        if_neg Bool.false_ne_true, ih fun e he => hs e (List.mem_cons_of_mem _ he)]

end Products

end PolyPlot.Expression
