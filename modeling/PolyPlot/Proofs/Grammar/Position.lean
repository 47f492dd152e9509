import PolyPlot.Proofs.Grammar.Viability

namespace PolyPlot

variable {α : Type} {value? : Numeral → Option α}

/-- What is expected, whatever the position at which a number began. -/
def Expectation.unplaced : Expectation α → Expectation α
  | .operand => .operand
  | .whole _ digits => .whole 0 digits
  | .point _ digits => .point 0 digits
  | .fraction _ digits places => .fraction 0 digits places
  | .operator t => .operator t

namespace Reading

open Expression (Error)

variable {r r' : Reading α} {position position' start start' : Nat} {stack : List (Frame α)} {t : Tree α}
  {c : Char} {s rest : List Char} {n : Numeral}

/-- How far a text has been read, whatever its position. -/
def unplaced (r : Reading α) : Reading α :=
  ⟨0, r.stack, r.expects.unplaced⟩

/-- Two answers with the same reading up to positions, or two refusals. -/
def Alike (a b : Except Error (Reading α)) : Prop :=
  a.toOption.map unplaced = b.toOption.map unplaced

theorem alike_readOperand (position position' : Nat) (stack : List (Frame α)) (c : Char) :
    Alike (readOperand position stack c) (readOperand position' stack c) := by
  unfold readOperand
  split_ifs <;> rfl

theorem alike_readOperator (position position' : Nat) (stack : List (Frame α)) (t : Tree α) (c : Char) :
    Alike (readOperator position stack t c) (readOperator position' stack t c) := by
  unfold readOperator
  split_ifs
  · rfl
  · rfl
  · rfl
  · rfl
  · rfl
  · split <;> rfl
  · split <;> rfl

theorem afterNumber_of_none {β : Type} {next : List (Frame α) → Tree α → Except Error β}
    (hv : value? n = none) : afterNumber value? next stack start n =
      .error (.numberNotFinite (String.ofList n.text) start) := by
  simp [afterNumber, number, hv, bind, Except.bind]

/-- What is seen of an answer behind a number, if all refusals look the same. -/
theorem afterNumber_congr {β γ : Type} (view : Except Error β → Option γ)
    {next next' : List (Frame α) → Tree α → Except Error β} (herror : ∀ e, view (.error e) = none)
    (hnext : ∀ stack t, view (next stack t) = view (next' stack t)) (start start' : Nat) :
    view (afterNumber value? next stack start n) = view (afterNumber value? next' stack start' n) := by
  cases hv : value? n with
  | none => rw [afterNumber_of_none hv, afterNumber_of_none hv, herror, herror]
  | some v => rw [afterNumber_of_value hv, afterNumber_of_value hv, hnext]

theorem alike_step (value? : Numeral → Option α) (r : Reading α) (c : Char) :
    Alike (r.step value? c) (r.unplaced.step value? c) := by
  obtain ⟨position, stack, expects⟩ := r
  cases expects with
  | operand => exact alike_readOperand position 0 stack c
  | operator t => exact alike_readOperator position 0 stack t c
  | whole start digits =>
    simp only [step, unplaced, Expectation.unplaced]
    split_ifs
    · rfl
    · rfl
    · exact afterNumber_congr (fun a => a.toOption.map unplaced) (fun e => rfl)
        (fun stack t => alike_readOperator position 0 stack t c) start 0
  | point start digits =>
    simp only [step, unplaced, Expectation.unplaced]
    split_ifs
    · rfl
    · rfl
  | fraction start digits places =>
    simp only [step, unplaced, Expectation.unplaced]
    split_ifs
    · rfl
    · exact afterNumber_congr (fun a => a.toOption.map unplaced) (fun e => rfl)
        (fun stack t => alike_readOperator position 0 stack t c) start 0

theorem toOption_close (position position' : Nat) (stack : List (Frame α)) (t : Tree α) :
    (close position stack t).toOption = (close position' stack t).toOption := by
  unfold close
  split <;> rfl

theorem toOption_finish (r : Reading α) :
    (r.finish value?).toOption = (r.unplaced.finish value?).toOption := by
  obtain ⟨position, stack, expects⟩ := r
  cases expects with
  | operand => rfl
  | operator t => exact toOption_close position 0 stack t
  | point start digits => rfl
  | whole start digits | fraction start digits places =>
    exact afterNumber_congr Except.toOption (fun e => rfl) (toOption_close position 0) start 0

/-- The tree that is read does not depend on positions, and neither does whether there is one. -/
theorem toOption_result_unplaced (r : Reading α) (s : List Char) :
    (r.result value? s).toOption = (r.unplaced.result value? s).toOption := by
  induction s generalizing r with
  | nil => exact toOption_finish r
  | cons c s ih =>
    have hstep := alike_step value? r c
    unfold Alike at hstep
    rw [result_cons, result_cons]
    cases hr : r.step value? c with
    | error e =>
      cases hr' : r.unplaced.step value? c with
      | error e' => rfl
      | ok next' =>
        rw [hr, hr'] at hstep
        cases hstep
    | ok next =>
      cases hr' : r.unplaced.step value? c with
      | error e' =>
        rw [hr, hr'] at hstep
        cases hstep
      | ok next' =>
        rw [hr, hr'] at hstep
        have heq : next.unplaced = next'.unplaced := Option.some.inj hstep
        have hnext := ih next
        rw [heq, ← ih next'] at hnext
        exact hnext

theorem toOption_result_complete (position position' : Nat) (stack : List (Frame α)) (t : Tree α)
    (s : List Char) : ((complete position stack t).result value? s).toOption =
      ((complete position' stack t).result value? s).toOption := by
  rw [toOption_result_unplaced, toOption_result_unplaced (complete position' stack t)]
  rfl

section Numbers

open Grammar (Derives absorbs_group)

/-- A number in parentheses is read on like the number, unless the next character extends it. -/
theorem toOption_result_grouped {v : α} (hn : n.WellFormed) (hv : value? n = some v)
    (hrest : StartsOutside ExtendsNumber rest) (position : Nat) (stack : List (Frame α)) :
    (result value? ⟨position, stack, .operand⟩ (n.text ++ rest)).toOption =
      (result value? ⟨position, stack, .operand⟩ ('(' :: n.text ++ ')' :: rest)).toOption := by
  have hderives : Derives value? .expression n.text (.literal v) :=
    .term (.factor (.primary (.number hn hv)))
  have hgroup := absorbs_group hderives.absorbs position stack rest trivial hrest
  rw [List.append_assoc, List.singleton_append] at hgroup
  rw [result_number hn hv hrest, hgroup]
  exact toOption_result_complete _ _ _ _ _

/-- A number without a value that ends here is refused. -/
theorem result_of_numeral_of_none {expects : Expectation α} (hn : expects.numeral? = some (start, n))
    (hv : value? n = none) (hrest : StartsOutside ExtendsNumber rest) :
    (result value? ⟨position, stack, expects⟩ rest).toOption = none := by
  rw [result_ends hn fun c s hs => step_of_numeral hn (hrest c s hs), number, hv]
  rfl

/-- A point without a digit behind it is refused. -/
theorem result_point_of_startsOutside {digits : List Char} (hs : StartsOutside (·.isDigit = true) s) :
    (result value? ⟨position, stack, .point start digits⟩ s).toOption = none := by
  cases s with
  | nil => rfl
  | cons c s =>
    have hc : ¬ c.isDigit = true := hs c s rfl
    simp [result_cons, step, hc, Except.bind, Except.toOption]

/-- A second point is refused. -/
theorem result_second_point {digits places : List Char} :
    (result value? ⟨position, stack, .fraction start digits places⟩ ('.' :: s)).toOption = none := by
  have hoperator (stack : List (Frame α)) (t : Tree α) :
      (readOperator position stack t '.').toOption = none := by
    unfold readOperator
    split_ifs with h₁ h₂ h₃ h₄ h₅ h₆
    · cases h₁
    · cases h₂
    · cases h₃
    · cases h₄
    · cases h₅
    · cases h₆
    · split <;> rfl
  have hnumber : (afterNumber value? (readOperator position · · '.') stack start
      ⟨digits.reverse, places.reverse⟩).toOption = none := by
    cases hv : value? ⟨digits.reverse, places.reverse⟩ with
    | none =>
      rw [afterNumber_of_none hv]
      rfl
    | some v => rw [afterNumber_of_value hv, hoperator]
  have hstep : step value? ⟨position, stack, .fraction start digits places⟩ '.' =
      afterNumber value? (readOperator position · · '.') stack start ⟨digits.reverse, places.reverse⟩ :=
    rfl
  rw [result_cons, hstep]
  cases h : afterNumber value? (readOperator position · · '.') stack start
      ⟨digits.reverse, places.reverse⟩ with
  | error e => rfl
  | ok next =>
    rw [h] at hnumber
    cases hnumber

/-- The digits at the beginning of a text. -/
theorem exists_digits (s : List Char) :
    ∃ digits rest, s = digits ++ rest ∧ (∀ c ∈ digits, c.isDigit = true) ∧
      StartsOutside (·.isDigit = true) rest :=
  ⟨_, _, List.takeWhile_append_dropWhile.symm, isDigit_of_mem_takeWhile, startsOutside_dropWhile s⟩

/-- Digits and points that begin with a digit are a number with a value, or they are refused wherever they
stand, if nothing behind them extends them. -/
theorem number_or_refused {digits points : List Char} (hne : digits ≠ [])
    (hdigits : ∀ c ∈ digits, c.isDigit = true) (hpoints : ∀ c ∈ points, ExtendsNumber c)
    (houtside : StartsOutside (·.isDigit = true) points) :
    (∃ n v, n.WellFormed ∧ n.text = digits ++ points ∧ value? n = some v) ∨
      ∀ position stack rest, StartsOutside ExtendsNumber rest →
        (result value? ⟨position, stack, .operand⟩ (digits ++ points ++ rest)).toOption = none := by
  have hpoint {c : Char} (hc : ExtendsNumber c) (hnot : ¬ c.isDigit = true) : c = '.' :=
    hc.resolve_left hnot
  cases points with
  | nil =>
    cases hv : value? ⟨digits, []⟩ with
    | some v => exact .inl ⟨⟨digits, []⟩, v, ⟨hne, hdigits, by simp⟩, rfl, hv⟩
    | none =>
      refine .inr fun position stack rest hrest => ?_
      rw [List.append_nil, result_digits hne hdigits]
      exact result_of_numeral_of_none rfl (by rwa [List.reverse_reverse]) hrest
  | cons c points =>
    obtain rfl := hpoint (hpoints c List.mem_cons_self) (houtside c points rfl)
    obtain ⟨places, more, rfl, hplaces, hmore⟩ := exists_digits points
    cases places with
    | nil =>
      refine .inr fun position stack rest hrest => ?_
      have hend : StartsOutside (·.isDigit = true) (more ++ rest) := by
        cases more with
        | nil => exact hrest.mono fun _ hc => .inl hc
        | cons d more => exact startsOutside_cons (hmore d more rfl)
      rw [List.append_assoc, result_digits hne hdigits, List.nil_append, List.cons_append, result_cons]
      exact result_point_of_startsOutside hend
    | cons d places =>
      have hread (position : Nat) (stack : List (Frame α)) (rest : List Char) :
          result value? ⟨position, stack, .operand⟩ (digits ++ '.' :: (d :: places ++ more) ++ rest) =
            result value? ⟨position + digits.length + 1 + (d :: places).length, stack,
              .fraction position digits.reverse (d :: places).reverse⟩ (more ++ rest) := by
        rw [List.append_assoc, result_digits hne hdigits, List.cons_append, List.append_assoc,
          result_places (List.cons_ne_nil d places) hplaces]
      cases more with
      | nil =>
        cases hv : value? ⟨digits, d :: places⟩ with
        | some v =>
          refine .inl ⟨⟨digits, d :: places⟩, v, ⟨hne, hdigits, hplaces⟩, ?_, hv⟩
          rw [List.append_nil]
          rfl
        | none =>
          refine .inr fun position stack rest hrest => ?_
          rw [hread]
          exact result_of_numeral_of_none rfl (by rwa [List.reverse_reverse, List.reverse_reverse]) hrest
      | cons e more =>
        refine .inr fun position stack rest _ => ?_
        have he := hpoint (hpoints e (by simp)) (hmore e more rfl)
        rw [hread, he]
        exact result_second_point

/-- A number ends with a digit. -/
theorem isDigit_of_text_eq (hn : n.WellFormed) {digits : List Char} (htext : n.text = digits ++ [c]) :
    c.isDigit = true := by
  obtain ⟨hne, hwhole, hplaces⟩ := hn
  have hlast : c ∈ n.text.getLast? := by
    rw [htext, List.getLast?_concat]
    rfl
  rw [Numeral.text] at hlast
  split at hlast
  · rw [List.append_nil] at hlast
    exact hwhole c (List.mem_of_getLast? hlast)
  · next hempty =>
    obtain ⟨d, places, hcons⟩ := List.exists_cons_of_ne_nil (mt List.isEmpty_iff.mpr hempty)
    have hplace : c ∈ n.places.getLast? := by
      simpa [hcons] using hlast
    exact hplaces c (List.mem_of_getLast? hplace)

/-- Digits and what extends them may be put in parentheses, if nothing behind them extends them any
further, and behind a digit the same stands as behind the parenthesis. -/
theorem toOption_result_parenthesized {digits more rest' : List Char} (hne : digits ≠ [])
    (hdigits : ∀ c ∈ digits, c.isDigit = true) (hmore : ∀ c ∈ more, ExtendsNumber c)
    (hrest : StartsOutside ExtendsNumber rest)
    (hsame : (∀ c ∈ (digits ++ more).getLast?, c.isDigit = true) → rest = rest') (position : Nat)
    (stack : List (Frame α)) :
    (result value? ⟨position, stack, .operand⟩ (digits ++ more ++ rest)).toOption =
      (result value? ⟨position, stack, .operand⟩ ('(' :: (digits ++ more) ++ ')' :: rest')).toOption := by
  obtain ⟨more, points, rfl, hmore', houtside⟩ := exists_digits more
  have hpoints : ∀ c ∈ points, ExtendsNumber c := fun c hc => hmore c (List.mem_append_right _ hc)
  have hdigits' : ∀ c ∈ digits ++ more, c.isDigit = true := List.forall_mem_append.mpr ⟨hdigits, hmore'⟩
  rw [← List.append_assoc digits] at hsame ⊢
  rcases number_or_refused (List.append_ne_nil_of_left_ne_nil hne more) hdigits' hpoints
    houtside with ⟨n, v, hn, htext, hv⟩ | hrefused
  · have hlast : ∀ c ∈ (digits ++ more ++ points).getLast?, c.isDigit = true := by
      intro c hc
      obtain ⟨before, hbefore⟩ := List.getLast?_eq_some_iff.mp hc
      exact isDigit_of_text_eq hn (htext.trans hbefore)
    rw [← hsame hlast, ← htext]
    exact toOption_result_grouped hn hv hrest position stack
  · have hclosed : StartsOutside ExtendsNumber (')' :: rest') := startsOutside_cons (by simp [ExtendsNumber])
    have hopen : step value? ⟨position, stack, .operand⟩ '(' =
        .ok ⟨position + 1, .group :: stack, .operand⟩ := rfl
    rw [hrefused position stack rest hrest, List.cons_append, result_cons, hopen]
    exact (hrefused (position + 1) (.group :: stack) _ hclosed).symm

end Numbers

section Powers

/-- Behind a caret an operand is expected. -/
theorem expects_of_step_power (h : r.step value? '^' = .ok r') : r'.expects = .operand := by
  obtain ⟨position, stack, expects⟩ := r
  have hnumber {start : Nat} {n : Numeral}
      (h : afterNumber value? (readOperator position · · '^') stack start n = .ok r') :
      r'.expects = .operand := by
    cases hv : value? n with
    | none =>
      rw [afterNumber_of_none hv] at h
      cases h
    | some v =>
      rw [afterNumber_of_value hv] at h
      cases h
      rfl
  cases expects with
  | operand => cases h
  | operator t =>
    cases h
    rfl
  | point start digits => cases h
  | whole start digits | fraction start digits places => exact hnumber h

/-- Texts that are read alike behind everything are read alike behind a text. -/
theorem toOption_result_congr {u u' : List Char}
    (h : ∀ r : Reading α, (r.result value? u).toOption = (r.result value? u').toOption) (r : Reading α)
    (s : List Char) : (r.result value? (s ++ u)).toOption = (r.result value? (s ++ u')).toOption := by
  induction s generalizing r with
  | nil => exact h r
  | cons c s ih =>
    rw [List.cons_append, List.cons_append, result_cons, result_cons]
    cases r.step value? c with
    | error e => rfl
    | ok next => exact ih next

/-- Texts that are read alike as operands are read alike as exponents. -/
theorem toOption_tree_power_congr {u u' : List Char} (s : List Char)
    (h : ∀ position stack, (result value? ⟨position, stack, .operand⟩ u).toOption =
      (result value? ⟨position, stack, .operand⟩ u').toOption) :
    (tree value? none (s ++ '^' :: u)).toOption = (tree value? none (s ++ '^' :: u')).toOption := by
  refine toOption_result_congr (fun r => ?_) start s
  rw [result_cons, result_cons]
  cases hstep : r.step value? '^' with
  | error e => rfl
  | ok next =>
    obtain ⟨position, stack, expects⟩ := next
    cases expects_of_step_power hstep
    exact h position stack

end Powers

/-- A text with a character that is not of the grammar is refused. -/
theorem toOption_tree_of_mem {limit : Option Nat} (hdigit : ¬ c.isDigit = true) (hsign : c ∉ Grammar.signs)
    (hc : c ∈ s) : (tree value? limit s).toOption = none := by
  cases htree : tree value? limit s with
  | error e => rfl
  | ok t =>
    have hmem : ∀ c ∈ s, c.isDigit = true ∨ c ∈ Grammar.signs :=
      (Grammar.derives_of_tree htree).forall_mem (fun c hc => .inl hc) fun c hc => .inr hc
    exact absurd (hmem c hc) (not_or.mpr ⟨hdigit, hsign⟩)

end Reading

end PolyPlot
