import Mathlib.Data.Set.Subsingleton
import PolyPlot.Proofs.Decimal.Reading
import PolyPlot.Proofs.Grammar.Soundness

namespace PolyPlot

namespace Reading

open Expression (Error)

variable {α : Type} {value? : Numeral → Option α}

/-- The tree of a text that begins with what has been read and goes on with `s`. -/
def result (value? : Numeral → Option α) (r : Reading α) (s : List Char) : Except Error (Tree α) :=
  (r.run value? none s).bind (finish value?)

theorem result_nil (r : Reading α) : r.result value? [] = r.finish value? :=
  rfl

theorem result_cons (r : Reading α) (c : Char) (s : List Char) :
    r.result value? (c :: s) = (r.step value? c).bind (·.result value? s) := by
  unfold result
  rw [run]
  cases r.step value? c with
  | error e => rfl
  | ok next => rfl

/-- A text does not begin with a character of a class. -/
def StartsOutside (inClass : Char → Prop) (s : List Char) : Prop :=
  ∀ c rest, s = c :: rest → ¬ inClass c

/-- The characters that would extend a number. -/
def ExtendsNumber (c : Char) : Prop :=
  c.isDigit ∨ c = '.'

/-- The characters that would extend a factor or the number at its end. -/
def ExtendsFactor (c : Char) : Prop :=
  ExtendsNumber c ∨ c = '^'

/-- The characters that would extend a term or the factor at its end. -/
def ExtendsTerm (c : Char) : Prop :=
  ExtendsFactor c ∨ c = '*' ∨ c = '/'

theorem StartsOutside.mono {P Q : Char → Prop} {s : List Char} (h : StartsOutside Q s)
    (hPQ : ∀ c, P c → Q c) : StartsOutside P s :=
  fun c rest hs hP => h c rest hs (hPQ c hP)

theorem startsOutside_cons {P : Char → Prop} {c : Char} {s : List Char} (hc : ¬ P c) :
    StartsOutside P (c :: s) := by
  intro d rest h
  cases h
  exact hc

theorem startsOutside_dropWhile (s : List Char) :
    StartsOutside (·.isDigit = true) (s.dropWhile Char.isDigit) := by
  intro c rest hrest
  have hhead := List.head?_dropWhile_not Char.isDigit s
  rw [hrest] at hhead
  simpa using hhead

theorem isDigit_of_mem_takeWhile {s : List Char} : ∀ c ∈ s.takeWhile Char.isDigit, c.isDigit = true :=
  List.all_eq_true.mp List.all_takeWhile

/-- Two complete operands that close to the same factor are read on alike, unless a power follows. -/
theorem result_congr_closeFactor {position : Nat} {stack stack' : List (Frame α)} {t t' : Tree α}
    {s : List Char} (hclose : Frame.closeFactor stack t = Frame.closeFactor stack' t')
    (hs : StartsOutside (· = '^') s) :
    result value? ⟨position, stack, .operator t⟩ s = result value? ⟨position, stack', .operator t'⟩ s := by
  have hterm : Frame.closeTerm stack t = Frame.closeTerm stack' t' := by
    simp only [Frame.closeTerm, hclose]
  cases s with
  | nil => simp only [result_nil, finish, close, hterm]
  | cons c rest =>
    have hc : ¬ c = '^' := hs c rest rfl
    simp only [result_cons, step, readOperator, hc, if_false, hclose, hterm]

/-- Two complete operands that close to the same term are read on alike, unless a power or a product
follows. -/
theorem result_congr_closeTerm {position : Nat} {stack stack' : List (Frame α)} {t t' : Tree α}
    {s : List Char} (hclose : Frame.closeTerm stack t = Frame.closeTerm stack' t')
    (hs : StartsOutside (fun c => c = '^' ∨ c = '*' ∨ c = '/') s) :
    result value? ⟨position, stack, .operator t⟩ s = result value? ⟨position, stack', .operator t'⟩ s := by
  cases s with
  | nil => simp only [result_nil, finish, close, hclose]
  | cons c rest =>
    have hc : ¬ (c = '^' ∨ c = '*' ∨ c = '/') := hs c rest rfl
    simp only [not_or] at hc
    simp only [result_cons, step, readOperator, hc, if_false, hclose]

/-- A part of a number whose digits are read one by one is read to its end. -/
theorem result_part {stack : List (Frame α)} (expects : List Char → Expectation α)
    (hstep : ∀ position digits c, c.isDigit = true → step value? ⟨position, stack, expects digits⟩ c =
      .ok ⟨position + 1, stack, expects (c :: digits)⟩)
    {position : Nat} {digits s rest : List Char} (hs : ∀ c ∈ s, c.isDigit) :
    result value? ⟨position, stack, expects digits⟩ (s ++ rest) =
      result value? ⟨position + s.length, stack, expects (s.reverse ++ digits)⟩ rest := by
  induction s generalizing position digits with
  | nil => rfl
  | cons c s ih =>
    obtain ⟨hc, hs⟩ := List.forall_mem_cons.mp hs
    rw [List.cons_append, result_cons, hstep position digits c hc, Except.bind, ih hs]
    simp [Nat.add_assoc, Nat.add_comm 1]

/-- The digits before the point are read to their end. -/
theorem result_whole {position start : Nat} {stack : List (Frame α)} {digits s rest : List Char}
    (hs : ∀ c ∈ s, c.isDigit) :
    result value? ⟨position, stack, .whole start digits⟩ (s ++ rest) =
      result value? ⟨position + s.length, stack, .whole start (s.reverse ++ digits)⟩ rest :=
  result_part (.whole start) (fun _ _ _ hc => by simp [step, hc]) hs

/-- The digits behind the point are read to their end. -/
theorem result_fraction {position start : Nat} {stack : List (Frame α)}
    {digits places s rest : List Char} (hs : ∀ c ∈ s, c.isDigit) :
    result value? ⟨position, stack, .fraction start digits places⟩ (s ++ rest) =
      result value? ⟨position + s.length, stack, .fraction start digits (s.reverse ++ places)⟩ rest :=
  result_part (.fraction start digits) (fun _ _ _ hc => by simp [step, hc]) hs

theorem afterNumber_of_value {β : Type} {next : List (Frame α) → Tree α → Except Error β}
    {stack : List (Frame α)} {start : Nat} {n : Numeral} {v : α} (hv : value? n = some v) :
    afterNumber value? next stack start n =
      next (Frame.applySigns stack (.literal v)).1 (Frame.applySigns stack (.literal v)).2 := by
  simp [afterNumber, number, hv, bind, Except.bind]

section EndOfNumber

variable {position start : Nat} {stack : List (Frame α)} {expects : Expectation α} {n : Numeral}

theorem step_of_numeral {c : Char} (hn : expects.numeral? = some (start, n)) (hc : ¬ ExtendsNumber c) :
    step value? ⟨position, stack, expects⟩ c =
      afterNumber value? (readOperator position · · c) stack start n := by
  simp only [ExtendsNumber, not_or] at hc
  cases expects with
  | operand | point | operator => cases hn
  | whole | fraction =>
    cases hn
    simp [step, hc]

theorem finish_of_numeral (hn : expects.numeral? = some (start, n)) :
    finish value? ⟨position, stack, expects⟩ = afterNumber value? (close position) stack start n := by
  cases expects with
  | operand | point | operator => cases hn
  | whole | fraction =>
    cases hn
    rfl

/-- A number that ends here is read on like its literal, if it has one. -/
theorem result_ends {rest : List Char} (hn : expects.numeral? = some (start, n))
    (hrest : ∀ c s, rest = c :: s → step value? ⟨position, stack, expects⟩ c =
      afterNumber value? (readOperator position · · c) stack start n) :
    result value? ⟨position, stack, expects⟩ rest =
      (number value? start n).bind fun t => result value? (complete position stack t) rest := by
  cases rest with
  | nil =>
    rw [result_nil, finish_of_numeral hn, afterNumber]
    cases number value? start n <;> rfl
  | cons c s =>
    rw [result_cons, hrest c s rfl, afterNumber]
    simp only [result_cons]
    cases number value? start n <;> rfl

/-- A number that ends here is read on like its value. -/
theorem result_of_numeral {v : α} {rest : List Char} (hn : expects.numeral? = some (start, n))
    (hv : value? n = some v) (hrest : StartsOutside ExtendsNumber rest) :
    result value? ⟨position, stack, expects⟩ rest =
      result value? (complete position stack (.literal v)) rest := by
  rw [result_ends hn fun c s hs => step_of_numeral hn (hrest c s hs), number, hv]
  rfl

end EndOfNumber

theorem result_firstDigit {position : Nat} {stack : List (Frame α)} {c : Char} {s : List Char}
    (hc : c.isDigit = true) : result value? ⟨position, stack, .operand⟩ (c :: s) =
      result value? ⟨position + 1, stack, .whole position [c]⟩ s := by
  have hsigns : c ≠ '(' ∧ c ≠ '-' ∧ c ≠ '+' ∧ c ≠ 'x' := by
    refine ⟨?_, ?_, ?_, ?_⟩ <;> rintro rfl <;> simp at hc
  simp [result_cons, step, readOperand, hsigns, hc, Except.bind]

/-- The digits of a number are read to the end of its whole part. -/
theorem result_digits {digits : List Char} (hne : digits ≠ []) (hdigits : ∀ c ∈ digits, c.isDigit = true)
    (position : Nat) (stack : List (Frame α)) (rest : List Char) :
    result value? ⟨position, stack, .operand⟩ (digits ++ rest) =
      result value? ⟨position + digits.length, stack, .whole position digits.reverse⟩ rest := by
  obtain ⟨c, digits, rfl⟩ := List.exists_cons_of_ne_nil hne
  obtain ⟨hc, hdigits⟩ := List.forall_mem_cons.mp hdigits
  rw [List.cons_append, result_firstDigit hc, result_whole hdigits, List.reverse_cons, List.length_cons,
    Nat.add_assoc, Nat.add_comm 1]

/-- The point and the digits behind it are read to their end. -/
theorem result_places {position start : Nat} {stack : List (Frame α)} {digits places rest : List Char}
    (hne : places ≠ []) (hplaces : ∀ c ∈ places, c.isDigit = true) :
    result value? ⟨position, stack, .whole start digits⟩ ('.' :: (places ++ rest)) =
      result value? ⟨position + 1 + places.length, stack, .fraction start digits places.reverse⟩ rest := by
  obtain ⟨c, places, rfl⟩ := List.exists_cons_of_ne_nil hne
  obtain ⟨hc, hplaces⟩ := List.forall_mem_cons.mp hplaces
  have hposition : position + 1 + (c :: places).length = position + 2 + places.length := by
    rw [List.length_cons]
    omega
  have hpoint : result value? ⟨position, stack, .whole start digits⟩ ('.' :: c :: (places ++ rest)) =
      result value? ⟨position + 2, stack, .fraction start digits [c]⟩ (places ++ rest) := by
    simp [result_cons, step, hc, Except.bind]
  rw [List.cons_append, hpoint, result_fraction hplaces, hposition, List.reverse_cons]

/-- A number with a value is read on like that value, unless the next character extends it. -/
theorem result_number {n : Numeral} {v : α} {position : Nat} {stack : List (Frame α)}
    {rest : List Char} (hn : n.WellFormed) (hv : value? n = some v)
    (hrest : StartsOutside ExtendsNumber rest) :
    result value? ⟨position, stack, .operand⟩ (n.text ++ rest) =
      result value? (complete (position + n.text.length) stack (.literal v)) rest := by
  obtain ⟨whole, places⟩ := n
  obtain ⟨hne, hwhole, hplaces⟩ := hn
  by_cases hnone : places = []
  · subst hnone
    have htext : Numeral.text ⟨whole, []⟩ = whole := by simp [Numeral.text]
    have hend : value? ⟨whole.reverse.reverse, []⟩ = some v := by rwa [List.reverse_reverse]
    rw [htext, result_digits hne hwhole, result_of_numeral rfl hend hrest]
  · have htext : Numeral.text ⟨whole, places⟩ = whole ++ '.' :: places := by simp [Numeral.text, hnone]
    have hlength : position + (whole ++ '.' :: places).length = position + whole.length + 1 + places.length := by
      simp
      omega
    have hend : value? ⟨whole.reverse.reverse, places.reverse.reverse⟩ = some v := by
      rwa [List.reverse_reverse, List.reverse_reverse]
    rw [htext, hlength, List.append_assoc, result_digits hne hwhole, List.cons_append,
      result_places hnone hplaces, result_of_numeral rfl hend hrest]

end Reading

namespace Grammar

open Reading
open Expression (Error)

variable {α : Type} {value? : Numeral → Option α}

/-- A stack on which nothing has to be closed before an operand of a symbol begins. -/
def Opens : Symbol → List (Frame α) → Prop
  | .primary, _ => True
  | .factor, stack => ∀ t, Frame.applySigns stack t = (stack, t)
  | .term, stack => (∀ t, Frame.applySigns stack t = (stack, t)) ∧
      ∀ t, Frame.closeFactor stack t = (stack, t)
  | .expression, stack => ((∀ t, Frame.applySigns stack t = (stack, t)) ∧
      ∀ t, Frame.closeFactor stack t = (stack, t)) ∧ ∀ t, Frame.closeTerm stack t = (stack, t)

/-- A character that would extend the operand of a symbol. A sum and a product do not extend
themselves, since they associate to the left. -/
def Extends : Symbol → Char → Prop
  | .primary => ExtendsNumber
  | .factor | .term => ExtendsFactor
  | .expression => ExtendsTerm

/-- Behind the text of an operand the reader goes on as behind that one operand. -/
def Absorbs (value? : Numeral → Option α) (symbol : Symbol) (s : List Char) (t : Tree α) : Prop :=
  ∀ position stack rest, Opens symbol stack → StartsOutside (Extends symbol) rest →
    result value? ⟨position, stack, .operand⟩ (s ++ rest) =
      result value? (complete (position + s.length) stack t) rest

theorem Opens.factor {symbol : Symbol} {stack : List (Frame α)} (h : Opens symbol stack)
    (hsymbol : symbol ≠ .primary) : Opens .factor stack := by
  cases symbol with
  | primary => exact absurd rfl hsymbol
  | factor => exact h
  | term => exact h.1
  | expression => exact h.1.1

theorem complete_of_opens {position : Nat} {stack : List (Frame α)} {t : Tree α}
    (h : Opens .factor stack) : complete position stack t = ⟨position, stack, .operator t⟩ := by
  simp only [complete, h t]

theorem opens_group (stack : List (Frame α)) : Opens .expression (.group :: stack) :=
  ⟨⟨fun _ => rfl, fun _ => rfl⟩, fun _ => rfl⟩

theorem opens_start : Opens .expression ([] : List (Frame α)) :=
  ⟨⟨fun _ => rfl, fun _ => rfl⟩, fun _ => rfl⟩

theorem opens_base (b : Tree α) (stack : List (Frame α)) : Opens .factor (.base b :: stack) :=
  fun _ => rfl

theorem opens_product (op : Operator) (a : Tree α) (stack : List (Frame α)) :
    Opens .factor (.operand op a :: stack) :=
  fun _ => rfl

theorem closeFactor_sum {op : Operator} (hop : op.isProduct = false) (a t : Tree α)
    (stack : List (Frame α)) :
    Frame.closeFactor (.operand op a :: stack) t = (.operand op a :: stack, t) := by
  simp [Frame.closeFactor, Frame.closePowers, hop]

theorem closeFactor_product {op : Operator} (hop : op.isProduct = true) (a t : Tree α)
    (stack : List (Frame α)) :
    Frame.closeFactor (.operand op a :: stack) t = (stack, .binary op a t) := by
  simp [Frame.closeFactor, Frame.closePowers, hop]

theorem opens_sum {op : Operator} (hop : op.isProduct = false) (a : Tree α)
    (stack : List (Frame α)) : Opens .term (.operand op a :: stack) :=
  ⟨fun _ => rfl, fun t => closeFactor_sum hop a t stack⟩

theorem startsOutside_power_of_factor {s : List Char} (h : StartsOutside ExtendsFactor s) :
    StartsOutside (· = '^') s :=
  h.mono fun _ hc => .inr hc

theorem startsOutside_product_of_term {s : List Char} (h : StartsOutside ExtendsTerm s) :
    StartsOutside (fun c => c = '^' ∨ c = '*' ∨ c = '/') s :=
  h.mono fun _ hc => hc.elim (fun hc => .inl (.inr hc)) .inr

theorem step_sum {op : Operator} {position : Nat} {stack : List (Frame α)} (hop : op.isProduct = false)
    (hopen : Opens .expression stack) (a : Tree α) :
    step value? ⟨position, stack, .operator a⟩ op.sign =
      .ok ⟨position + 1, .operand op a :: stack, .operand⟩ := by
  cases op <;> simp_all [step, readOperator, Operator.sign, Operator.isProduct, hopen.2 a]

theorem step_product {op : Operator} {position : Nat} {stack : List (Frame α)} (hop : op.isProduct = true)
    (hopen : Opens .term stack) (a : Tree α) :
    step value? ⟨position, stack, .operator a⟩ op.sign =
      .ok ⟨position + 1, .operand op a :: stack, .operand⟩ := by
  cases op <;> simp_all [step, readOperator, Operator.sign, Operator.isProduct, hopen.2 a]

/-- A base with its exponent is read on like their power, unless a power follows. -/
theorem result_power {position : Nat} {stack : List (Frame α)} {b e : Tree α} {rest : List Char}
    (hopen : Opens .factor stack) (hrest : StartsOutside (· = '^') rest) :
    result value? ⟨position, .base b :: stack, .operator e⟩ rest =
      result value? (complete position stack (.power b e)) rest := by
  rw [complete_of_opens hopen]
  exact result_congr_closeFactor rfl hrest

/-- Two factors are read on like their product, unless a power follows. -/
theorem result_product {op : Operator} {position : Nat} {stack : List (Frame α)} {a b : Tree α}
    {rest : List Char} (hop : op.isProduct = true) (hopen : Opens .term stack)
    (hrest : StartsOutside (· = '^') rest) :
    result value? ⟨position, .operand op a :: stack, .operator b⟩ rest =
      result value? (complete position stack (.binary op a b)) rest := by
  rw [complete_of_opens hopen.1]
  apply result_congr_closeFactor _ hrest
  rw [closeFactor_product hop, hopen.2]

/-- Two terms are read on like their sum, unless a power or a product follows. -/
theorem result_sum {op : Operator} {position : Nat} {stack : List (Frame α)} {a b : Tree α}
    {rest : List Char} (hop : op.isProduct = false) (hopen : Opens .expression stack)
    (hrest : StartsOutside (fun c => c = '^' ∨ c = '*' ∨ c = '/') rest) :
    result value? ⟨position, .operand op a :: stack, .operator b⟩ rest =
      result value? (complete position stack (.binary op a b)) rest := by
  rw [complete_of_opens hopen.1.1]
  apply result_congr_closeTerm _ hrest
  rw [hopen.2]
  simp only [Frame.closeTerm, closeFactor_sum hop]

/-- A left operand is read, then the character behind which it waits in a frame, then a right operand. -/
theorem result_waiting {left right : Symbol} {s u rest : List Char} {a b : Tree α} {c : Char}
    {frame : Frame α} {stack : List (Frame α)} (hs : Absorbs value? left s a)
    (hu : Absorbs value? right u b) (hleft : Opens left stack) (hstack : Opens .factor stack)
    (hright : Opens right (frame :: stack)) (hframe : Opens .factor (frame :: stack))
    (hc : ¬ Extends left c) (hrest : StartsOutside (Extends right) rest)
    (hstep : ∀ position, step value? ⟨position, stack, .operator a⟩ c =
      .ok ⟨position + 1, frame :: stack, .operand⟩) (position : Nat) :
    result value? ⟨position, stack, .operand⟩ (s ++ c :: u ++ rest) =
      result value? ⟨position + (s ++ c :: u).length, frame :: stack, .operator b⟩ rest := by
  have hposition : position + (s ++ c :: u).length = position + s.length + 1 + u.length := by
    simp
    omega
  rw [List.append_assoc, List.cons_append, hs _ _ _ hleft (startsOutside_cons hc),
    complete_of_opens hstack, result_cons, hstep, Except.bind, hu _ _ _ hright hrest,
    complete_of_opens hframe, hposition]

theorem absorbs_power {s u : List Char} {b e : Tree α} (hs : Absorbs value? .primary s b)
    (hu : Absorbs value? .factor u e) : Absorbs value? .factor (s ++ '^' :: u) (.power b e) := by
  intro position stack rest hopen hrest
  have hbase := opens_base b stack
  have hsign : ¬ ExtendsNumber '^' := by simp [ExtendsNumber]
  rw [result_waiting hs hu trivial hopen hbase hbase hsign hrest (fun _ => rfl)]
  exact result_power hopen (startsOutside_power_of_factor hrest)

theorem absorbs_product {op : Operator} {s u : List Char} {a b : Tree α} (hop : op.isProduct = true)
    (hs : Absorbs value? .term s a) (hu : Absorbs value? .factor u b) :
    Absorbs value? .term (s ++ op.sign :: u) (.binary op a b) := by
  intro position stack rest hopen hrest
  have hproduct := opens_product op a stack
  have hsign : ¬ ExtendsFactor op.sign := by
    cases op <;> simp [ExtendsFactor, ExtendsNumber, Operator.sign]
  rw [result_waiting hs hu hopen hopen.1 hproduct hproduct hsign hrest fun _ => step_product hop hopen a]
  exact result_product hop hopen (startsOutside_power_of_factor hrest)

theorem absorbs_sum {op : Operator} {s u : List Char} {a b : Tree α} (hop : op.isProduct = false)
    (hs : Absorbs value? .expression s a) (hu : Absorbs value? .term u b) :
    Absorbs value? .expression (s ++ op.sign :: u) (.binary op a b) := by
  intro position stack rest hopen hrest
  have hsum := opens_sum hop a stack
  have hsign : ¬ ExtendsTerm op.sign := by
    cases op <;> simp_all [ExtendsTerm, ExtendsFactor, ExtendsNumber, Operator.sign, Operator.isProduct]
  have hfactor : StartsOutside ExtendsFactor rest := StartsOutside.mono hrest fun _ hc => .inl hc
  rw [result_waiting hs hu hopen hopen.1.1 hsum hsum.1 hsign hfactor fun _ => step_sum hop hopen a]
  exact result_sum hop hopen (startsOutside_product_of_term hrest)

theorem absorbs_group {s : List Char} {t : Tree α} (hs : Absorbs value? .expression s t) :
    Absorbs value? .primary ('(' :: s ++ [')']) t := by
  intro position stack rest _ _
  have hclose : step value? ⟨position + 1 + s.length, .group :: stack, .operator t⟩ ')' =
      .ok (complete (position + 1 + s.length + 1) stack t) := by
    simp [step, readOperator, (opens_group stack).2 t]
  have hposition : position + ('(' :: s ++ [')']).length = position + 1 + s.length + 1 := by
    simp
    omega
  have hclosed : StartsOutside (Extends .expression) (')' :: rest) :=
    startsOutside_cons (by simp [Extends, ExtendsTerm, ExtendsFactor, ExtendsNumber])
  rw [hposition, List.append_assoc, List.cons_append, result_cons]
  simp only [step, readOperand, if_true, Except.bind, List.cons_append, List.nil_append]
  rw [hs _ _ _ (opens_group stack) hclosed, complete_of_opens (opens_group stack).1.1, result_cons,
    hclose]
  rfl

/-- Every derivation is read back: the induction follows its rules, and what the reader keeps on the
stack below the operand stays arbitrary. -/
theorem Derives.absorbs {symbol : Symbol} {s : List Char} {t : Tree α}
    (h : Derives value? symbol s t) : Absorbs value? symbol s t := by
  induction h with
  | sum hop _ _ iha ihb => exact absorbs_sum hop iha ihb
  | product hop _ _ iha ihb => exact absorbs_product hop iha ihb
  | power _ _ ihb ihe => exact absorbs_power ihb ihe
  | group _ ih => exact absorbs_group ih
  | term _ ih =>
    intro position stack rest hopen hrest
    exact ih position stack rest hopen.1 (StartsOutside.mono hrest fun _ hc => .inl hc)
  | factor _ ih =>
    intro position stack rest hopen hrest
    exact ih position stack rest hopen.1 hrest
  | primary _ ih =>
    intro position stack rest _ hrest
    exact ih position stack rest trivial (StartsOutside.mono hrest fun _ hc => .inl hc)
  | minus _ ih =>
    intro position stack rest _ hrest
    have hinner := ih (position + 1) (.sign true :: stack) rest trivial hrest
    rw [List.cons_append, result_cons]
    simpa [step, readOperand, Except.bind, complete, Frame.applySigns, Nat.add_assoc,
      Nat.add_comm 1] using hinner
  | plus _ ih =>
    intro position stack rest _ hrest
    have hinner := ih (position + 1) (.sign false :: stack) rest trivial hrest
    rw [List.cons_append, result_cons]
    simpa [step, readOperand, Except.bind, complete, Frame.applySigns, Nat.add_assoc,
      Nat.add_comm 1] using hinner
  | x =>
    intro position stack rest _ _
    rw [List.cons_append, result_cons]
    simp [step, readOperand, Except.bind]
  | number hn hv =>
    intro position stack rest _ hrest
    exact result_number hn hv hrest

theorem tree_of_derives {s : List Char} {t : Tree α} (h : Derives value? .expression s t) :
    Reading.tree value? none s = .ok t := by
  have hread := h.absorbs 0 [] [] opens_start (by intro c rest hrest; cases hrest)
  rw [List.append_nil] at hread
  exact hread

/-- The grammar is unambiguous: the reader has one answer. -/
theorem Derives.unique {s : List Char} {t t' : Tree α} (h : Derives value? .expression s t)
    (h' : Derives value? .expression s t') : t = t' := by
  have hread := tree_of_derives h
  rw [tree_of_derives h'] at hread
  cases hread
  rfl

/-- A text is read as the tree of its derivation, if all numbers in it are finite. -/
theorem read_eq_ok_iff {text : String} {t : Tree Float} :
    Tree.read none text = .ok t ↔ ∃ d, Syntax .expression text.toList d ∧
      d.AllLiterals (fun n => n.toDouble.isFinite) ∧ t = d.map Numeral.toDouble := by
  have hvalue (n : Numeral) (v : Float) :
      n.finite? = some v ↔ n.toDouble.isFinite = true ∧ v = n.toDouble := by
    by_cases h : n.toDouble.isFinite = true
    · simp only [Numeral.finite?, h, if_true, Option.some.injEq, true_and]
      exact eq_comm
    · simp [Numeral.finite?, h]
  constructor
  · intro h
    exact (derives_of_tree h).exists_syntaxTree hvalue
  · rintro ⟨d, hd, hfinite, rfl⟩
    exact tree_of_derives (Derives.of_syntaxTree hvalue hd hfinite)

/-- Without a limit on its nesting a text is read as a tree exactly if it derives from the grammar and the
doubles nearest to all numbers in it are finite. It has no more than one derivation, and the tree that is read
is the one of that derivation, with those doubles in the place of the numbers. -/
theorem read_eq_ok_iff_syntaxTree (text : String) :
    (∀ t, Tree.read none text = .ok t ↔ ∃ d, Syntax .expression text.toList d ∧
        d.AllLiterals (fun n => (Double.ofRat n.rational).isFinite) ∧
        t = d.map fun n => Double.ofRat n.rational) ∧
      {d | Syntax .expression text.toList d}.Subsingleton := by
  refine ⟨fun t => ?_, fun _ h _ h' => h.unique h'⟩
  simp only [← Decimal.toDouble_eq_ofRat]
  exact read_eq_ok_iff

end Grammar

end PolyPlot
