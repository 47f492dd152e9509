import PolyPlot.Proofs.Evaluation.Compilation
import PolyPlot.Proofs.Evaluation.Refusal
import PolyPlot.Proofs.Normal.Idempotence

namespace PolyPlot.Expression

variable {limits : Limits Float} {a b text : String} {p q : Coeffs Float}

/-- The vector of the tree of a text, before it is screened and before its numbers are checked. -/
def evaluateText (limits : Limits Float) (text : String) : Except Failure (Coeffs Float) :=
  (Tree.read none (normalize text)).mapError .refused >>= Tree.evaluate limits

/-- A text with a vector stands for a tree with that vector. -/
theorem exists_derives_of_evaluateText (h : evaluateText limits text = .ok p) :
    ∃ t, Grammar.Derives Numeral.finite? .expression (normalChars text.toList) t ∧
      Tree.Evaluates limits t p := by
  obtain ⟨t, hread, hevaluate⟩ := bind_eq_ok_iff.mp h
  have hderives := Grammar.derives_of_tree (mapError_eq_ok_iff.mp hread)
  rw [normalize, String.toList_ofList] at hderives
  exact ⟨t, hderives, Tree.evaluate_eq_ok_iff.mp hevaluate⟩

/-- A text whose normal form stands for a tree has the vector of that tree. -/
theorem evaluateText_of_derives {s : List Char} {t : Tree Float} (hs : normalChars text.toList = s)
    (ht : Grammar.Derives Numeral.finite? .expression s t) :
    evaluateText limits text = t.evaluate limits := by
  have hread : Tree.read none (normalize text) = .ok t := by
    rw [Tree.read, normalize, String.toList_ofList, hs]
    exact Grammar.tree_of_derives ht
  rw [evaluateText, hread]
  rfl

/-- Two texts in parentheses with a sign between them, or none. -/
def joined (a sign b : String) : String :=
  "(" ++ a ++ ")" ++ sign ++ "(" ++ b ++ ")"

theorem toList_joined (a sign b : String) :
    (joined a sign b).toList = grouped a.toList ++ (sign.toList ++ grouped b.toList) := by
  simp [joined, grouped]

theorem normalChars_joined (a b : String) {c : Char} {sign : String} (hc : IsSign c)
    (hsign : sign.toList = [c]) :
    normalChars (joined a sign b).toList =
      grouped (normalChars a.toList) ++ c :: grouped (normalChars b.toList) := by
  rw [toList_joined, hsign]
  exact normalChars_grouped_sign_grouped hc _ _

section Derivations

variable {s u : List Char} {t t' : Tree Float}

theorem derives_binary (op : Operator) (ht : Grammar.Derives Numeral.finite? .expression s t)
    (ht' : Grammar.Derives Numeral.finite? .expression u t') :
    Grammar.Derives Numeral.finite? .expression (grouped s ++ op.sign :: grouped u) (.binary op t t') := by
  cases hop : op.isProduct with
  | false => exact .sum hop (.term (.factor (.primary (.group ht)))) (.factor (.primary (.group ht')))
  | true => exact .term (.product hop (.factor (.primary (.group ht))) (.primary (.group ht')))

theorem derives_power (ht : Grammar.Derives Numeral.finite? .expression s t)
    (ht' : Grammar.Derives Numeral.finite? .expression u t') :
    Grammar.Derives Numeral.finite? .expression (grouped s ++ '^' :: grouped u) (.power t t') :=
  .term (.factor (.power (.group ht) (.primary (.group ht'))))

theorem derives_negate (ht : Grammar.Derives Numeral.finite? .expression s t) :
    Grammar.Derives Numeral.finite? .expression ('-' :: grouped s) (.negate t) :=
  .term (.factor (.primary (.minus (.group ht))))

end Derivations

/-- Two texts joined by the sign of an operator are evaluated by that operator. -/
theorem evaluateText_operator {op : Operator} {sign : String} (hsign : sign.toList = [op.sign])
    (ha : evaluateText limits a = .ok p) (hb : evaluateText limits b = .ok q) :
    evaluateText limits (joined a sign b) = Tree.combine limits op p q := by
  obtain ⟨t, ht, hp⟩ := exists_derives_of_evaluateText ha
  obtain ⟨t', ht', hq⟩ := exists_derives_of_evaluateText hb
  have hnormal := normalChars_joined a b (isSign_sign op) hsign
  rw [evaluateText_of_derives hnormal (derives_binary op ht ht'), Tree.evaluate_binary hp hq]

/-- Two texts side by side are multiplied. -/
theorem evaluateText_adjacent (ha : evaluateText limits a = .ok p) (hb : evaluateText limits b = .ok q) :
    evaluateText limits (joined a "" b) = .ok (p.multiply q) := by
  obtain ⟨t, ht, hp⟩ := exists_derives_of_evaluateText ha
  obtain ⟨t', ht', hq⟩ := exists_derives_of_evaluateText hb
  have hnormal : normalChars (joined a "" b).toList =
      grouped (normalChars a.toList) ++ '*' :: grouped (normalChars b.toList) := by
    rw [toList_joined]
    exact normalChars_grouped_grouped _ _
  rw [evaluateText_of_derives hnormal (derives_binary .multiply ht ht'), Tree.evaluate_binary hp hq]
  rfl

theorem evaluateText_power (ha : evaluateText limits a = .ok p) (hb : evaluateText limits b = .ok q) :
    evaluateText limits (joined a "^" b) = Tree.exponent q >>= Tree.raise limits p := by
  obtain ⟨t, ht, hp⟩ := exists_derives_of_evaluateText ha
  obtain ⟨t', ht', hq⟩ := exists_derives_of_evaluateText hb
  have hpower : IsSign '^' := by decide
  have hnormal : normalChars (joined a "^" b).toList = _ := normalChars_joined a b hpower rfl
  rw [evaluateText_of_derives hnormal (derives_power ht ht'), Tree.evaluate_power hp hq]

theorem evaluateText_negate (ha : evaluateText limits a = .ok p) :
    evaluateText limits ("-(" ++ a ++ ")") = .ok p.negate := by
  obtain ⟨t, ht, hp⟩ := exists_derives_of_evaluateText ha
  have hnormal : normalChars ("-(" ++ a ++ ")").toList = '-' :: grouped (normalChars a.toList) := by
    have hchars : ("-(" ++ a ++ ")").toList = '-' :: grouped a.toList := by simp [grouped]
    rw [hchars, normalChars_sign_grouped (by decide)]
  rw [evaluateText_of_derives hnormal (derives_negate ht)]
  exact Tree.evaluate_eq_ok_iff.mpr (.negate hp)

/-- The vectors of two texts decide what becomes of the texts that join them in parentheses. Sums,
differences, products and negatives have the vector of the operation. A quotient is refused exactly if
the divisor has more than one entry, or one within the tolerance of zero; a power exactly if the
exponent has more than one entry or one that is not finite, or if that entry, rounded by adding a half
and taking the whole part, is out of range. -/
theorem evaluateText_joined (hε : 0 < limits.epsilon) (ha : evaluateText limits a = .ok p)
    (hb : evaluateText limits b = .ok q) :
    evaluateText limits (joined a "+" b) = .ok (p.add q) ∧
    evaluateText limits (joined a "-" b) = .ok (p.subtract q) ∧
    evaluateText limits (joined a "*" b) = .ok (p.multiply q) ∧
    evaluateText limits (joined a "" b) = .ok (p.multiply q) ∧
    evaluateText limits ("-(" ++ a ++ ")") = .ok p.negate ∧
    ∃ d rest, q = d :: rest ∧
      (evaluateText limits (joined a "/" b) =
        if rest ≠ [] then .error (.refused .nonConstantDivisor)
        else if d.abs < limits.epsilon then .error (.refused .zeroDivisor)
        else .ok (p.map (· / d))) ∧
      (evaluateText limits (joined a "^" b) =
        if rest ≠ [] then .error (.refused .nonConstantExponent)
        else if d.isFinite = false then .error (.refused .exponentNotFinite)
        else
          let n := ⌊Double.value (d + Scalar.half)⌋
          if n < 0 ∨ limits.maxExponent < n then (Error.exponentOutOfRange n limits.maxExponent).refuse
          else .ok (p.power n.toNat)) := by
  obtain ⟨t, -, hq⟩ := exists_derives_of_evaluateText hb
  obtain ⟨d, rest, rfl⟩ := List.exists_cons_of_ne_nil hq.ne_nil
  have hadd : "+".toList = [Operator.add.sign] := rfl
  have hsubtract : "-".toList = [Operator.subtract.sign] := rfl
  have hmultiply : "*".toList = [Operator.multiply.sign] := rfl
  have hdivide : "/".toList = [Operator.divide.sign] := rfl
  refine ⟨evaluateText_operator hadd ha hb, evaluateText_operator hsubtract ha hb,
    evaluateText_operator hmultiply ha hb, evaluateText_adjacent ha hb, evaluateText_negate ha, d, rest,
    rfl, ?_, ?_⟩
  · rw [evaluateText_operator hdivide ha hb]
    exact Tree.quotient_cons hε
  · rw [evaluateText_power ha hb, Tree.exponent_cons]
    by_cases hrest : rest ≠ []
    · rw [if_pos hrest, if_pos hrest]
      rfl
    · rw [if_neg hrest, if_neg hrest]
      cases hd : d.isFinite with
      | false => rfl
      | true => rfl

/-- Two texts with typographic signs and a superscript, and their quotient and power. -/
theorem evaluateText_joined_typographic :
    0 < ({} : Options).limits.epsilon ∧ evaluateText ({} : Options).limits "X² − 1" = .ok [-1, 0, 1] ∧
      evaluateText ({} : Options).limits "0.5·4" = .ok [2] ∧
      evaluateText ({} : Options).limits (joined "X² − 1" "/" "0.5·4") = .ok [-0.5, 0, 0.5] ∧
      evaluateText ({} : Options).limits (joined "X² − 1" "^" "0.5·4") = .ok [1, 0, -2, 0, 1] := by
  have hε : 0 < ({} : Options).limits.epsilon := by decide
  have ha : evaluateText ({} : Options).limits "X² − 1" = .ok [-1, 0, 1] := by decide +kernel
  have hb : evaluateText ({} : Options).limits "0.5·4" = .ok [2] := by decide +kernel
  obtain ⟨-, -, -, -, -, d, rest, hq, hquotient, hpower⟩ := evaluateText_joined hε ha hb
  cases hq
  exact ⟨hε, ha, hb, hquotient.trans (by decide +kernel), hpower.trans (by decide +kernel)⟩

end PolyPlot.Expression
