import Mathlib.Tactic.SplitIfs
import PolyPlot.Proofs.Grammar.Derivation

namespace PolyPlot

/-- The number that ends here unless it goes on: where it began, and its digits. -/
def Expectation.numeral? {α : Type} : Expectation α → Option (Nat × Numeral)
  | .whole start digits => some (start, ⟨digits.reverse, []⟩)
  | .fraction start digits places => some (start, ⟨digits.reverse, places.reverse⟩)
  | .operand | .point _ _ | .operator _ => none

namespace Grammar

open Expression (Error)

variable {α : Type} {value? : Numeral → Option α}

/-- The frames of a stack spell a text behind which an operand of a symbol is due. -/
inductive Awaits (value? : Numeral → Option α) : List (Frame α) → List Char → Symbol → Prop
  | start : Awaits value? [] [] .expression
  | group {stack : List (Frame α)} {w : List Char} (h : Awaits value? stack w .primary) :
      Awaits value? (.group :: stack) (w ++ ['(']) .expression
  | sum {op : Operator} {stack : List (Frame α)} {w s : List Char} {a : Tree α}
      (hop : op.isProduct = false) (h : Awaits value? stack w .expression)
      (left : Derives value? .expression s a) :
      Awaits value? (.operand op a :: stack) (w ++ s ++ [op.sign]) .term
  | product {op : Operator} {stack : List (Frame α)} {w s : List Char} {a : Tree α}
      (hop : op.isProduct = true) (h : Awaits value? stack w .term)
      (left : Derives value? .term s a) :
      Awaits value? (.operand op a :: stack) (w ++ s ++ [op.sign]) .factor
  | base {stack : List (Frame α)} {w s : List Char} {b : Tree α}
      (h : Awaits value? stack w .factor) (left : Derives value? .primary s b) :
      Awaits value? (.base b :: stack) (w ++ s ++ ['^']) .factor
  | minus {stack : List (Frame α)} {w : List Char} (h : Awaits value? stack w .primary) :
      Awaits value? (.sign true :: stack) (w ++ ['-']) .primary
  | plus {stack : List (Frame α)} {w : List Char} (h : Awaits value? stack w .primary) :
      Awaits value? (.sign false :: stack) (w ++ ['+']) .primary
  | term {stack : List (Frame α)} {w : List Char} (h : Awaits value? stack w .expression) :
      Awaits value? stack w .term
  | factor {stack : List (Frame α)} {w : List Char} (h : Awaits value? stack w .term) :
      Awaits value? stack w .factor
  | primary {stack : List (Frame α)} {w : List Char} (h : Awaits value? stack w .factor) :
      Awaits value? stack w .primary

/-- A text splits into what a stack spells, which awaits a symbol, and an operand that derives from a
symbol. -/
def Splits (value? : Numeral → Option α) (due symbol : Symbol) (w : List Char)
    (stack : List (Frame α)) (t : Tree α) : Prop :=
  ∃ before s, w = before ++ s ∧ Awaits value? stack before due ∧ Derives value? symbol s t

theorem splits_applySigns {stack : List (Frame α)} {before s : List Char} {t : Tree α}
    (hstack : Awaits value? stack before .primary) (ht : Derives value? .primary s t) :
    Splits value? .factor .primary (before ++ s) (Frame.applySigns stack t).1
      (Frame.applySigns stack t).2 := by
  induction stack generalizing before s t with
  | nil =>
    cases hstack with
    | primary h => exact ⟨before, s, rfl, h, ht⟩
  | cons frame stack ih =>
    cases hstack with
    | primary h =>
      cases frame with
      | sign negative =>
        -- a stack with a sign on top awaits nothing but a primary
        cases h with | factor h => cases h with | term h => cases h
      | base b => exact ⟨before, s, rfl, h, ht⟩
      | operand op left => exact ⟨before, s, rfl, h, ht⟩
      | group => exact ⟨before, s, rfl, h, ht⟩
    | minus h => simpa [Frame.applySigns] using ih h (.minus ht)
    | plus h => simpa [Frame.applySigns] using ih h (.plus ht)

theorem splits_closePowers {stack : List (Frame α)} {before s : List Char} {t : Tree α}
    (hstack : Awaits value? stack before .factor) (ht : Derives value? .factor s t) :
    Splits value? .factor .factor (before ++ s) (Frame.closePowers stack t).1
        (Frame.closePowers stack t).2 ∧
      ∀ b below, (Frame.closePowers stack t).1 ≠ .base b :: below := by
  induction stack generalizing before s t with
  | nil => exact ⟨⟨before, s, rfl, hstack, ht⟩, by simp [Frame.closePowers]⟩
  | cons frame stack ih =>
    cases frame with
    | base b =>
      cases hstack with
      | base h left =>
        have hpower := ih h (.power left ht)
        simpa only [Frame.closePowers, List.append_assoc, List.cons_append, List.nil_append] using hpower
      | factor h => cases h with | term h => cases h
    | sign negative => exact ⟨⟨before, s, rfl, hstack, ht⟩, by simp [Frame.closePowers]⟩
    | operand op left => exact ⟨⟨before, s, rfl, hstack, ht⟩, by simp [Frame.closePowers]⟩
    | group => exact ⟨⟨before, s, rfl, hstack, ht⟩, by simp [Frame.closePowers]⟩

theorem splits_closeFactor {stack : List (Frame α)} {before s : List Char} {t : Tree α}
    (hstack : Awaits value? stack before .factor) (ht : Derives value? .factor s t) :
    Splits value? .term .term (before ++ s) (Frame.closeFactor stack t).1
      (Frame.closeFactor stack t).2 := by
  obtain ⟨⟨w, u, heq, hclosed, hu⟩, hbase⟩ := splits_closePowers hstack ht
  unfold Frame.closeFactor
  generalize Frame.closePowers stack t = closed at hclosed hu hbase
  obtain ⟨stack', t'⟩ := closed
  cases hclosed with
  | product hop h left =>
    rename_i op below w' s' a
    refine ⟨w', s' ++ op.sign :: u, ?_, ?_, ?_⟩
    · rw [heq]
      simp
    · simpa only [hop, if_true] using h
    · simpa only [hop, if_true] using Derives.product hop left hu
  | base h left => exact absurd rfl (hbase _ _)
  | factor h =>
    refine ⟨w, u, heq, ?_⟩
    cases h with
    | sum hop h left =>
      simp only [hop, Bool.false_eq_true, if_false]
      exact ⟨.sum hop h left, .factor hu⟩
    | term h =>
      cases h with
      | start => exact ⟨.term .start, .factor hu⟩
      | group h => exact ⟨.term (.group h), .factor hu⟩

theorem splits_closeTerm {stack : List (Frame α)} {before s : List Char} {t : Tree α}
    (hstack : Awaits value? stack before .factor) (ht : Derives value? .factor s t) :
    Splits value? .expression .expression (before ++ s) (Frame.closeTerm stack t).1
      (Frame.closeTerm stack t).2 := by
  obtain ⟨w, u, heq, hclosed, hu⟩ := splits_closeFactor hstack ht
  unfold Frame.closeTerm
  generalize Frame.closeFactor stack t = closed at hclosed hu
  obtain ⟨stack', t'⟩ := closed
  cases hclosed with
  | sum hop h left =>
    rename_i op below w' s' a
    refine ⟨w', s' ++ op.sign :: u, ?_, h, .sum hop left hu⟩
    rw [heq]
    simp
  | term h =>
    refine ⟨w, u, heq, ?_⟩
    cases h with
    | start => exact ⟨.start, .term hu⟩
    | group h => exact ⟨.group h, .term hu⟩

/-- What a reading knows of the text `w` before it. -/
def Reads (value? : Numeral → Option α) (w : List Char) (r : Reading α) : Prop :=
  r.position = w.length ∧
    match r.expects with
    | .operand => Awaits value? r.stack w .primary
    | .whole start digits =>
      ∃ before, w = before ++ digits.reverse ∧ start = before.length ∧
        Awaits value? r.stack before .primary ∧ digits ≠ [] ∧ ∀ c ∈ digits, c.isDigit
    | .point start digits =>
      ∃ before, w = before ++ digits.reverse ++ ['.'] ∧ start = before.length ∧
        Awaits value? r.stack before .primary ∧ digits ≠ [] ∧ ∀ c ∈ digits, c.isDigit
    | .fraction start digits places =>
      ∃ before, w = before ++ digits.reverse ++ '.' :: places.reverse ∧ start = before.length ∧
        Awaits value? r.stack before .primary ∧ (digits ≠ [] ∧ ∀ c ∈ digits, c.isDigit) ∧
        places ≠ [] ∧ ∀ c ∈ places, c.isDigit
    | .operator t => Splits value? .factor .primary w r.stack t

private theorem length_snoc {w : List Char} {c : Char} : w.length + 1 = (w ++ [c]).length := by simp

theorem reads_start : Reads value? [] (.start : Reading α) :=
  ⟨rfl, .primary (.factor (.term .start))⟩

theorem reads_complete {stack : List (Frame α)} {before s : List Char} {t : Tree α} {position : Nat}
    (hposition : position = before.length + s.length)
    (hstack : Awaits value? stack before .primary) (ht : Derives value? .primary s t) :
    Reads value? (before ++ s) (.complete position stack t) :=
  ⟨by simpa [Reading.complete] using hposition, splits_applySigns hstack ht⟩

theorem reads_readOperand {w : List Char} {stack : List (Frame α)} {c : Char} {r : Reading α}
    (hstack : Awaits value? stack w .primary)
    (hread : Reading.readOperand w.length stack c = .ok r) : Reads value? (w ++ [c]) r := by
  unfold Reading.readOperand at hread
  split_ifs at hread with hgroup hminus hplus hx hdigit
  · cases hread
    exact ⟨by simp, hgroup ▸ .primary (.factor (.term (.group hstack)))⟩
  · cases hread
    exact ⟨by simp, hminus ▸ .minus hstack⟩
  · cases hread
    exact ⟨by simp, hplus ▸ .plus hstack⟩
  · cases hread
    exact hx ▸ reads_complete (by simp) hstack .x
  · cases hread
    exact ⟨by simp, w, by simp, rfl, hstack, by simp, by simpa using hdigit⟩

/-- An operator that is read behind a complete operand waits with it for the right operand. The
parenthesis that a complete expression closes makes it a primary. -/
theorem reads_readOperator {w : List Char} {stack : List (Frame α)} {t : Tree α} {c : Char}
    {r : Reading α} (hsplit : Splits value? .factor .primary w stack t)
    (hread : Reading.readOperator w.length stack t c = .ok r) : Reads value? (w ++ [c]) r := by
  obtain ⟨before, s, rfl, hstack, ht⟩ := hsplit
  have hfactor := splits_closeFactor hstack (.primary ht)
  have hterm := splits_closeTerm hstack (.primary ht)
  have hproduct {op : Operator} (hop : op.isProduct = true) (hsign : c = op.sign) :
      Reads value? (before ++ s ++ [c]) ⟨(before ++ s).length + 1,
        .operand op (Frame.closeFactor stack t).2 :: (Frame.closeFactor stack t).1, .operand⟩ := by
    obtain ⟨w, u, heq, hw, hu⟩ := hfactor
    refine ⟨length_snoc, .primary ?_⟩
    rw [heq, hsign]
    exact .product hop hw hu
  have hsum {op : Operator} (hop : op.isProduct = false) (hsign : c = op.sign) :
      Reads value? (before ++ s ++ [c]) ⟨(before ++ s).length + 1,
        .operand op (Frame.closeTerm stack t).2 :: (Frame.closeTerm stack t).1, .operand⟩ := by
    obtain ⟨w, u, heq, hw, hu⟩ := hterm
    refine ⟨length_snoc, .primary (.factor ?_)⟩
    rw [heq, hsign]
    exact .sum hop hw hu
  unfold Reading.readOperator at hread
  split_ifs at hread with hpower hmultiply hdivide hadd hsubtract hclose
  · cases hread
    refine ⟨length_snoc, .primary ?_⟩
    rw [hpower]
    exact .base hstack ht
  · cases hread
    exact hproduct rfl hmultiply
  · cases hread
    exact hproduct rfl hdivide
  · cases hread
    exact hsum rfl hadd
  · cases hread
    exact hsum rfl hsubtract
  · obtain ⟨w, u, heq, hw, hu⟩ := hterm
    generalize Frame.closeTerm stack t = closed at hw hu hread
    obtain ⟨stack', t'⟩ := closed
    cases hw with
    | start => cases hread
    | group h =>
      rename_i outer w
      cases hread
      rw [heq, hclose]
      have hlength : (w ++ ['('] ++ u).length + 1 = w.length + ('(' :: u ++ [')']).length := by
        simp
        omega
      simpa using reads_complete hlength h (.group hu)
  · dsimp only at hread
    split at hread <;> cases hread

/-- Where a number may end, the text is what the stack spells with that number behind it. -/
theorem Reads.numeral {w : List Char} {position start : Nat} {stack : List (Frame α)}
    {expects : Expectation α} {n : Numeral} (hr : Reads value? w ⟨position, stack, expects⟩)
    (hn : expects.numeral? = some (start, n)) :
    ∃ before, w = before ++ n.text ∧ start = before.length ∧ Awaits value? stack before .primary ∧
      n.WellFormed := by
  obtain ⟨-, hr⟩ := hr
  cases expects with
  | operand | point | operator => cases hn
  | whole start digits =>
    cases hn
    obtain ⟨before, rfl, rfl, hstack, hne, hdigits⟩ := hr
    exact ⟨before, by simp [Numeral.text], rfl, hstack, by simpa using hne, by simpa using hdigits,
      by simp⟩
  | fraction start digits places =>
    cases hn
    obtain ⟨before, rfl, rfl, hstack, ⟨hne, hdigits⟩, hpne, hplaces⟩ := hr
    exact ⟨before, by simp [Numeral.text, hpne], rfl, hstack, by simpa using hne, by simpa using hdigits,
      by simpa using hplaces⟩

theorem splits_afterNumber {w : List Char} {position start : Nat} {stack : List (Frame α)}
    {expects : Expectation α} {n : Numeral} {β : Type}
    {next : List (Frame α) → Tree α → Except Error β} {b : β}
    (hr : Reads value? w ⟨position, stack, expects⟩) (hn : expects.numeral? = some (start, n))
    (hread : Reading.afterNumber value? next stack start n = .ok b) :
    ∃ stack' t, Splits value? .factor .primary w stack' t ∧ next stack' t = .ok b := by
  obtain ⟨before, rfl, -, hstack, hwf⟩ := hr.numeral hn
  unfold Reading.afterNumber Reading.number at hread
  cases hv : value? n with
  | none =>
    rw [hv] at hread
    cases hread
  | some v =>
    rw [hv] at hread
    exact ⟨_, _, splits_applySigns hstack (.number hwf hv), hread⟩

theorem reads_step {w : List Char} {r r' : Reading α} {c : Char} (hr : Reads value? w r)
    (hstep : r.step value? c = .ok r') : Reads value? (w ++ [c]) r' := by
  obtain ⟨position, stack, expects⟩ := r
  obtain rfl : position = w.length := hr.1
  cases expects with
  | operand => exact reads_readOperand hr.2 hstep
  | operator t => exact reads_readOperator hr.2 hstep
  | whole start digits =>
    simp only [Reading.step] at hstep
    split_ifs at hstep with hdigit hpoint
    · cases hstep
      obtain ⟨-, before, rfl, rfl, hstack, hne, hdigits⟩ := hr
      refine ⟨length_snoc, before, by simp, rfl, hstack, by simp, ?_⟩
      simpa [hdigit] using hdigits
    · cases hstep
      obtain ⟨-, before, rfl, rfl, hstack, hne, hdigits⟩ := hr
      exact ⟨length_snoc, before, by simp [hpoint], rfl, hstack, hne, hdigits⟩
    · obtain ⟨stack', t, hsplit, hnext⟩ := splits_afterNumber hr rfl hstep
      exact reads_readOperator hsplit hnext
  | point start digits =>
    obtain ⟨-, before, rfl, rfl, hstack, hne, hdigits⟩ := hr
    simp only [Reading.step] at hstep
    split_ifs at hstep with hdigit
    cases hstep
    exact ⟨length_snoc, before, by simp, rfl, hstack, ⟨hne, hdigits⟩, by simp, by simpa using hdigit⟩
  | fraction start digits places =>
    simp only [Reading.step] at hstep
    split_ifs at hstep with hdigit
    · cases hstep
      obtain ⟨-, before, rfl, rfl, hstack, ⟨hne, hdigits⟩, hpne, hplaces⟩ := hr
      refine ⟨length_snoc, before, by simp, rfl, hstack, ⟨hne, hdigits⟩, by simp, ?_⟩
      simpa [hdigit] using hplaces
    · obtain ⟨stack', t, hsplit, hnext⟩ := splits_afterNumber hr rfl hstep
      exact reads_readOperator hsplit hnext

theorem reads_run {limit : Option Nat} {w s : List Char} {r r' : Reading α} (hr : Reads value? w r)
    (hrun : r.run value? limit s = .ok r') : Reads value? (w ++ s) r' := by
  induction s generalizing w r with
  | nil =>
    cases hrun
    simpa using hr
  | cons c s ih =>
    simp only [Reading.run] at hrun
    cases hstep : r.step value? c with
    | error e =>
      rw [hstep] at hrun
      cases hrun
    | ok next =>
      rw [hstep] at hrun
      dsimp only at hrun
      split_ifs at hrun
      simpa using ih (reads_step hr hstep) hrun

theorem derives_close {w : List Char} {stack : List (Frame α)} {position : Nat} {t t' : Tree α}
    (hsplit : Splits value? .factor .primary w stack t)
    (hclose : Reading.close position stack t = .ok t') : Derives value? .expression w t' := by
  obtain ⟨before, s, rfl, hstack, ht⟩ := hsplit
  obtain ⟨w, u, heq, hw, hu⟩ := splits_closeTerm hstack (.primary ht)
  unfold Reading.close at hclose
  generalize Frame.closeTerm stack t = closed at hw hu hclose
  obtain ⟨stack', t''⟩ := closed
  cases hw with
  | start =>
    cases hclose
    simpa [heq] using hu
  | group h => cases hclose

theorem derives_finish {w : List Char} {r : Reading α} {t : Tree α} (hr : Reads value? w r)
    (hfinish : r.finish value? = .ok t) : Derives value? .expression w t := by
  obtain ⟨position, stack, expects⟩ := r
  cases expects with
  | operand => cases hfinish
  | point start digits => cases hfinish
  | operator t => exact derives_close hr.2 hfinish
  | whole start digits | fraction start digits places =>
    obtain ⟨stack', t, hsplit, hnext⟩ := splits_afterNumber hr rfl hfinish
    exact derives_close hsplit hnext

/-- A text that is read as a tree, whatever the limit on its nesting, derives from the grammar and
stands for that tree. -/
theorem derives_of_tree {limit : Option Nat} {s : List Char} {t : Tree α}
    (hread : Reading.tree value? limit s = .ok t) : Derives value? .expression s t := by
  unfold Reading.tree at hread
  cases hrun : Reading.run value? limit .start s with
  | error e =>
    rw [hrun] at hread
    cases hread
  | ok r =>
    rw [hrun] at hread
    exact derives_finish (by simpa using reads_run reads_start hrun) hread

end Grammar

end PolyPlot
