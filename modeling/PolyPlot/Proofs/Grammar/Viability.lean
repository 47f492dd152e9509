import PolyPlot.Proofs.Grammar.Completeness

namespace PolyPlot.Grammar

open Expression (Error)

variable {α : Type} {value? : Numeral → Option α} {symbol due : Symbol} {stack : List (Frame α)}
  {w s : List Char} {t : Tree α} {r r' : Reading α} {c : Char} {e : Error}

/-- A text with which a text of the grammar begins. -/
def Viable (value? : Numeral → Option α) (w : List Char) : Prop :=
  ∃ rest t, Derives value? .expression (w ++ rest) t

/-- A text that waits for an operand of a symbol can be closed behind any such operand. -/
def Closable (value? : Numeral → Option α) (symbol : Symbol) (w : List Char) : Prop :=
  ∃ closing, ∀ s t, Derives value? symbol s t → ∃ t', Derives value? .expression (w ++ s ++ closing) t'

/-- An operand with a context around it is an operand of the symbol that was due before. -/
theorem Closable.of_context (h : Closable value? due w) (before after : List Char)
    (hcontext : ∀ s t, Derives value? symbol s t →
      ∃ t', Derives value? due (before ++ s ++ after) t') : Closable value? symbol (w ++ before) := by
  obtain ⟨closing, hclosing⟩ := h
  refine ⟨after ++ closing, fun s t ht => ?_⟩
  obtain ⟨t', ht'⟩ := hcontext s t ht
  obtain ⟨t'', ht''⟩ := hclosing _ t' ht'
  exact ⟨t'', by simpa using ht''⟩

theorem Closable.of_rule (h : Closable value? due w)
    (hrule : ∀ s t, Derives value? symbol s t → Derives value? due s t) :
    Closable value? symbol w := by
  simpa using h.of_context [] [] fun s t ht => ⟨t, by simpa using hrule s t ht⟩

/-- What a stack waits for can be closed. Each open parenthesis needs one that closes it, all other
frames need nothing. -/
theorem Awaits.closable (h : Awaits value? stack w symbol) : Closable value? symbol w := by
  induction h with
  | start => exact ⟨[], fun s t ht => ⟨t, by simpa using ht⟩⟩
  | group _ ih => exact ih.of_context ['('] [')'] fun s t ht => ⟨t, .group ht⟩
  | sum hop _ left ih =>
    rw [List.append_assoc]
    exact ih.of_context _ [] fun s t ht => ⟨_, by simpa using Derives.sum hop left ht⟩
  | product hop _ left ih =>
    rw [List.append_assoc]
    exact ih.of_context _ [] fun s t ht => ⟨_, by simpa using Derives.product hop left ht⟩
  | base _ left ih =>
    rw [List.append_assoc]
    exact ih.of_context _ [] fun s t ht => ⟨_, by simpa using Derives.power left ht⟩
  | minus _ ih => exact ih.of_context ['-'] [] fun s t ht => ⟨_, by simpa using Derives.minus ht⟩
  | plus _ ih => exact ih.of_context ['+'] [] fun s t ht => ⟨_, by simpa using Derives.plus ht⟩
  | term _ ih => exact ih.of_rule fun _ _ => .term
  | factor _ ih => exact ih.of_rule fun _ _ => .factor
  | primary _ ih => exact ih.of_rule fun _ _ => .primary

/-- Where a primary is due, `x` can stand. -/
theorem Awaits.viable (h : Awaits value? stack w .primary) : Viable value? w := by
  obtain ⟨closing, hclosing⟩ := h.closable
  obtain ⟨t, ht⟩ := hclosing _ _ .x
  exact ⟨_, t, by rwa [List.append_assoc] at ht⟩

/-- Behind a complete operand nothing more is needed than what closes the stack. -/
theorem Splits.viable (h : Splits value? .factor .primary w stack t) : Viable value? w := by
  obtain ⟨before, s, rfl, hstack, ht⟩ := h
  obtain ⟨closing, hclosing⟩ := hstack.closable
  obtain ⟨t', ht'⟩ := hclosing s t (.primary ht)
  exact ⟨closing, t', ht'⟩

/-- The refusals that blame the character at their position, if there is one. -/
def BlamesCharacter : Error → Prop
  | .unexpectedCharacter _ _ | .missingParenthesis _ => True
  | _ => False

/-- A refusal behind a text has its position in the text, where the text before it is viable. It blames
no character but the next one. -/
def RefusedBehind (value? : Numeral → Option α) (w : List Char) (e : Error) : Prop :=
  ∃ p, e.position? = some p ∧ p ≤ w.length ∧ Viable value? (w.take p) ∧
    (BlamesCharacter e → p = w.length)

theorem refusedBehind_of_viable (hw : Viable value? w) (he : e.position? = some w.length) :
    RefusedBehind value? w e :=
  ⟨w.length, he, le_rfl, by rwa [List.take_length], fun _ => rfl⟩

/-- A refusal that goes back to where a number begins. -/
theorem refusedBehind_of_number (hw : Viable value? w) (he : e.position? = some w.length)
    (hblame : ¬ BlamesCharacter e) : RefusedBehind value? (w ++ s) e :=
  ⟨w.length, he, by simp, by rwa [List.take_left], fun h => absurd h hblame⟩

theorem refused_readOperand (hstack : Awaits value? stack w .primary)
    (h : Reading.readOperand w.length stack c = .error e) : RefusedBehind value? w e := by
  unfold Reading.readOperand at h
  split_ifs at h
  cases h
  exact refusedBehind_of_viable hstack.viable rfl

theorem refused_readOperator (hsplit : Splits value? .factor .primary w stack t)
    (h : Reading.readOperator w.length stack t c = .error e) : RefusedBehind value? w e := by
  refine refusedBehind_of_viable hsplit.viable ?_
  unfold Reading.readOperator at h
  split_ifs at h
  · split at h
    · cases h
    · cases h
      rfl
  · split at h
    · cases h
      rfl
    · cases h
      rfl

theorem refused_close (hsplit : Splits value? .factor .primary w stack t)
    (h : Reading.close w.length stack t = .error e) : RefusedBehind value? w e := by
  refine refusedBehind_of_viable hsplit.viable ?_
  unfold Reading.close at h
  split at h
  · cases h
  · cases h
    rfl

/-- A number without a value is refused where it begins; behind one with a value the text goes on. -/
theorem refused_afterNumber {β : Type} {next : List (Frame α) → Tree α → Except Error β}
    {n : Numeral} {position start : Nat} {expects : Expectation α}
    (hr : Reads value? w ⟨position, stack, expects⟩) (hn : expects.numeral? = some (start, n))
    (hnext : ∀ stack' t, Splits value? .factor .primary w stack' t →
      next stack' t = .error e → RefusedBehind value? w e)
    (h : Reading.afterNumber value? next stack start n = .error e) : RefusedBehind value? w e := by
  obtain ⟨before, rfl, rfl, hstack, hwf⟩ := hr.numeral hn
  unfold Reading.afterNumber Reading.number at h
  cases hv : value? n with
  | none =>
    rw [hv] at h
    cases h
    exact refusedBehind_of_number hstack.viable rfl not_false
  | some v =>
    rw [hv] at h
    exact hnext _ _ (splits_applySigns hstack (.number hwf hv)) h

theorem refused_step (hr : Reads value? w r) (h : r.step value? c = .error e) :
    RefusedBehind value? w e := by
  obtain ⟨position, stack, expects⟩ := r
  obtain rfl : position = w.length := hr.1
  cases expects with
  | operand => exact refused_readOperand hr.2 h
  | operator t => exact refused_readOperator hr.2 h
  | point start digits =>
    obtain ⟨-, before, rfl, rfl, hstack, -, -⟩ := hr
    simp only [Reading.step] at h
    split_ifs at h
    cases h
    rw [List.append_assoc]
    exact refusedBehind_of_number hstack.viable rfl not_false
  | whole start digits | fraction start digits places =>
    simp only [Reading.step] at h
    split_ifs at h
    exact refused_afterNumber hr rfl (fun _ _ hsplit hnext => refused_readOperator hsplit hnext) h

theorem refused_finish (hr : Reads value? w r) (h : r.finish value? = .error e) :
    RefusedBehind value? w e := by
  obtain ⟨position, stack, expects⟩ := r
  obtain rfl : position = w.length := hr.1
  cases expects with
  | operand =>
    cases h
    exact refusedBehind_of_viable hr.2.viable rfl
  | operator t => exact refused_close hr.2 h
  | point start digits =>
    obtain ⟨-, before, rfl, rfl, hstack, -, -⟩ := hr
    cases h
    rw [List.append_assoc]
    exact refusedBehind_of_number hstack.viable rfl not_false
  | whole start digits | fraction start digits places =>
    exact refused_afterNumber hr rfl (fun _ _ hsplit hnext => refused_close hsplit hnext) h

/-- A text that is refused before its end is refused at one of its characters. -/
theorem exists_step_of_run (h : r.run value? none s = .error e) :
    ∃ w c rest r', s = w ++ c :: rest ∧ r.run value? none w = .ok r' ∧ r'.step value? c = .error e := by
  induction s generalizing r with
  | nil => cases h
  | cons c s ih =>
    rw [Reading.run] at h
    cases hstep : r.step value? c with
    | error e' =>
      rw [hstep] at h
      cases h
      exact ⟨[], c, s, r, rfl, rfl, hstep⟩
    | ok next =>
      rw [hstep] at h
      obtain ⟨w, d, rest, r', rfl, hrun, hrefused⟩ := ih h
      refine ⟨c :: w, d, rest, r', rfl, ?_, hrefused⟩
      rw [Reading.run, hstep]
      exact hrun

theorem result_of_run (h : r.run value? none w = .ok r') (s : List Char) :
    r.result value? (w ++ s) = r'.result value? s := by
  induction w generalizing r with
  | nil =>
    cases h
    rfl
  | cons c w ih =>
    rw [Reading.run] at h
    rw [List.cons_append, Reading.result_cons]
    cases hstep : r.step value? c with
    | error e =>
      rw [hstep] at h
      cases h
    | ok next =>
      rw [hstep] at h
      exact ih h

/-- The reader goes from left to right, so a character that is refused behind a text is refused
whatever follows it. -/
theorem not_viable_of_step (hrun : Reading.run value? none .start w = .ok r)
    (hstep : r.step value? c = .error e) : ¬ Viable value? (w ++ [c]) := by
  rintro ⟨rest, t, ht⟩
  have hread : Reading.result value? .start (w ++ [c] ++ rest) = .ok t := tree_of_derives ht
  rw [List.append_assoc, result_of_run hrun, List.singleton_append, Reading.result_cons, hstep] at hread
  cases hread

/-- A refusal has a position in the text. What stands before it is viable, and no longer so with the
character that is blamed. -/
theorem refused_tree (h : Reading.tree value? none s = .error e) :
    ∃ p, e.position? = some p ∧ p ≤ s.length ∧ Viable value? (s.take p) ∧
      (BlamesCharacter e → p < s.length → ¬ Viable value? (s.take (p + 1))) := by
  unfold Reading.tree at h
  cases hrun : Reading.run value? none .start s with
  | error e' =>
    rw [hrun] at h
    cases h
    obtain ⟨w, c, rest, r, rfl, hrun, hstep⟩ := exists_step_of_run hrun
    have hreads : Reads value? w r := by simpa using reads_run reads_start hrun
    obtain ⟨p, he, hp, hviable, hblame⟩ := refused_step hreads hstep
    refine ⟨p, he, by simp; omega, by rwa [List.take_append_of_le_length hp], fun hb _ => ?_⟩
    have hend : (w ++ [c] ++ rest).take (w.length + 1) = w ++ [c] := List.take_left' (by simp)
    rw [List.append_cons, hblame hb, hend]
    exact not_viable_of_step hrun hstep
  | ok r =>
    rw [hrun] at h
    have hreads : Reads value? s r := by simpa using reads_run reads_start hrun
    obtain ⟨p, he, hp, hviable, hblame⟩ := refused_finish hreads h
    exact ⟨p, he, hp, hviable, fun hb hlt => absurd (hblame hb) hlt.ne⟩

/-- Some text that is read begins so. -/
def BeginsReadable (w : List Char) : Prop :=
  ∃ rest t, Tree.read none (String.ofList (w ++ rest)) = .ok t

theorem viable_iff : Viable Numeral.finite? w ↔ BeginsReadable w := by
  refine exists_congr fun rest => exists_congr fun t => ?_
  rw [Tree.read, String.toList_ofList]
  exact ⟨tree_of_derives, derives_of_tree⟩

/-- Without a limit on its nesting, a text is refused at a position such that what stands before it is
the beginning of a text that is read. A character that is blamed is the first one that cannot be
repaired by what follows: no text that is read begins with the text up to it. -/
theorem beginsReadable_of_refused {text : String} (h : Tree.read none text = .error e) :
    ∃ p, e.position? = some p ∧ p ≤ text.length ∧ BeginsReadable (text.toList.take p) ∧
      (BlamesCharacter e → p < text.length → ¬ BeginsReadable (text.toList.take (p + 1))) := by
  obtain ⟨p, he, hp, hviable, hblame⟩ := refused_tree h
  rw [viable_iff] at hviable hblame
  rw [String.length_toList] at hp hblame
  exact ⟨p, he, hp, hviable, hblame⟩

/-- A letter behind an operand inside two pairs of parentheses. -/
theorem beginsReadable_of_missing_parenthesis :
    Tree.read none "2^((x-1.5y)*x)" = .error (.missingParenthesis 9) ∧
      BeginsReadable "2^((x-1.5".toList ∧ ¬ BeginsReadable "2^((x-1.5y".toList := by
  have h : Tree.read none "2^((x-1.5y)*x)" = .error (.missingParenthesis 9) := rfl
  obtain ⟨p, he, -, hbegins, hblame⟩ := beginsReadable_of_refused h
  obtain rfl : 9 = p := Option.some.inj he
  exact ⟨h, hbegins, hblame trivial (by decide)⟩

end PolyPlot.Grammar
