import PolyPlot.Expression.Reading

namespace PolyPlot

/-- The sign of an operator in a text. -/
def Operator.sign : Operator → Char
  | add => '+'
  | subtract => '-'
  | multiply => '*'
  | divide => '/'

/-- A number has digits before its point, and nothing but digits on either side. -/
def Numeral.WellFormed (n : Numeral) : Prop :=
  n.whole ≠ [] ∧ (∀ c ∈ n.whole, c.isDigit) ∧ ∀ c ∈ n.places, c.isDigit

namespace Tree

variable {α : Type}

/-- Whether every literal of a tree has a property. -/
def AllLiterals (P : α → Prop) : Tree α → Prop
  | literal v => P v
  | x => True
  | negate t => t.AllLiterals P
  | binary _ a b | power a b => a.AllLiterals P ∧ b.AllLiterals P

end Tree

namespace Grammar

/-- The rules of the grammar, the loosest binding first. -/
inductive Symbol where
  | expression
  | term
  | factor
  | primary
  deriving DecidableEq

variable {α : Type}

/-- A text derives from a symbol of the grammar and stands for a tree, whose literals are the values
that `value?` gives to the numbers in the text. -/
inductive Derives (value? : Numeral → Option α) : Symbol → List Char → Tree α → Prop
  | sum {op : Operator} {s u : List Char} {a b : Tree α} (hop : op.isProduct = false)
      (left : Derives value? .expression s a) (right : Derives value? .term u b) :
      Derives value? .expression (s ++ op.sign :: u) (.binary op a b)
  | term {s : List Char} {t : Tree α} (h : Derives value? .term s t) : Derives value? .expression s t
  | product {op : Operator} {s u : List Char} {a b : Tree α} (hop : op.isProduct = true)
      (left : Derives value? .term s a) (right : Derives value? .factor u b) :
      Derives value? .term (s ++ op.sign :: u) (.binary op a b)
  | factor {s : List Char} {t : Tree α} (h : Derives value? .factor s t) : Derives value? .term s t
  | power {s u : List Char} {b e : Tree α} (left : Derives value? .primary s b)
      (right : Derives value? .factor u e) : Derives value? .factor (s ++ '^' :: u) (.power b e)
  | primary {s : List Char} {t : Tree α} (h : Derives value? .primary s t) :
      Derives value? .factor s t
  | group {s : List Char} {t : Tree α} (h : Derives value? .expression s t) :
      Derives value? .primary ('(' :: s ++ [')']) t
  | minus {s : List Char} {t : Tree α} (h : Derives value? .primary s t) :
      Derives value? .primary ('-' :: s) (.negate t)
  | plus {s : List Char} {t : Tree α} (h : Derives value? .primary s t) :
      Derives value? .primary ('+' :: s) t
  | x : Derives value? .primary ['x'] .x
  | number {n : Numeral} {v : α} (hn : n.WellFormed) (hv : value? n = some v) :
      Derives value? .primary n.text (.literal v)

/-- The syntax tree of a text: its literals are the numbers as they are written, whatever their
values. -/
abbrev Syntax : Symbol → List Char → Tree Numeral → Prop :=
  Derives some

theorem Derives.ne_nil {value? : Numeral → Option α} {symbol : Symbol} {s : List Char} {t : Tree α}
    (h : Derives value? symbol s t) : s ≠ [] := by
  induction h with
  | sum | product | power => simp
  | group | minus | plus | x => exact List.cons_ne_nil _ _
  | term _ ih | factor _ ih | primary _ ih => exact ih
  | number hn _ =>
    unfold Numeral.text
    exact List.append_ne_nil_of_left_ne_nil hn.1 _

/-- The characters of the grammar other than digits. -/
def signs : List Char :=
  ['(', ')', '+', '-', '*', '/', '^', 'x', '.']

theorem sign_mem_signs (op : Operator) : op.sign ∈ signs := by
  cases op <;> decide

/-- A text of the grammar has none but the characters of the grammar. -/
theorem Derives.forall_mem {value? : Numeral → Option α} {P : Char → Prop}
    (hdigit : ∀ c, c.isDigit = true → P c) (hsign : ∀ c ∈ signs, P c) {symbol : Symbol} {s : List Char}
    {t : Tree α} (h : Derives value? symbol s t) : ∀ c ∈ s, P c := by
  induction h with
  | @sum op _ _ _ _ _ _ _ ihs ihu | @product op _ _ _ _ _ _ _ ihs ihu =>
    simp only [List.forall_mem_append, List.forall_mem_cons]
    exact ⟨ihs, hsign _ (sign_mem_signs op), ihu⟩
  | power _ _ ihs ihu =>
    simp only [List.forall_mem_append, List.forall_mem_cons]
    exact ⟨ihs, hsign '^' (by decide), ihu⟩
  | group _ ih =>
    simp only [List.forall_mem_append, List.forall_mem_cons, List.cons_append]
    exact ⟨hsign '(' (by decide), ih, hsign ')' (by decide), by simp⟩
  | minus _ ih => exact List.forall_mem_cons.mpr ⟨hsign '-' (by decide), ih⟩
  | plus _ ih => exact List.forall_mem_cons.mpr ⟨hsign '+' (by decide), ih⟩
  | term _ ih | factor _ ih | primary _ ih => exact ih
  | x => exact List.forall_mem_cons.mpr ⟨hsign 'x' (by decide), by simp⟩
  | @number n v hn hv =>
    obtain ⟨-, hwhole, hplaces⟩ := hn
    refine List.forall_mem_append.mpr ⟨fun c hc => hdigit c (hwhole c hc), ?_⟩
    split
    · simp
    · exact List.forall_mem_cons.mpr ⟨hsign '.' (by decide), fun c hc => hdigit c (hplaces c hc)⟩

/-- A text that stands for a tree has a syntax tree, and the literals of the one are the values of
those of the other. -/
theorem Derives.exists_syntaxTree {value? : Numeral → Option α} {value : Numeral → α}
    {HasValue : Numeral → Prop} (hvalue : ∀ n v, value? n = some v ↔ HasValue n ∧ v = value n)
    {symbol : Symbol} {s : List Char} {t : Tree α} (h : Derives value? symbol s t) :
    ∃ d, Syntax symbol s d ∧ d.AllLiterals HasValue ∧ t = d.map value := by
  induction h with
  | sum hop _ _ iha ihb =>
    obtain ⟨a, ha, hva, rfl⟩ := iha
    obtain ⟨b, hb, hvb, rfl⟩ := ihb
    exact ⟨_, .sum hop ha hb, ⟨hva, hvb⟩, rfl⟩
  | product hop _ _ iha ihb =>
    obtain ⟨a, ha, hva, rfl⟩ := iha
    obtain ⟨b, hb, hvb, rfl⟩ := ihb
    exact ⟨_, .product hop ha hb, ⟨hva, hvb⟩, rfl⟩
  | power _ _ ihb ihe =>
    obtain ⟨b, hb, hvb, rfl⟩ := ihb
    obtain ⟨e, he, hve, rfl⟩ := ihe
    exact ⟨_, .power hb he, ⟨hvb, hve⟩, rfl⟩
  | term _ ih =>
    obtain ⟨d, hd, hvd, rfl⟩ := ih
    exact ⟨d, .term hd, hvd, rfl⟩
  | factor _ ih =>
    obtain ⟨d, hd, hvd, rfl⟩ := ih
    exact ⟨d, .factor hd, hvd, rfl⟩
  | primary _ ih =>
    obtain ⟨d, hd, hvd, rfl⟩ := ih
    exact ⟨d, .primary hd, hvd, rfl⟩
  | group _ ih =>
    obtain ⟨d, hd, hvd, rfl⟩ := ih
    exact ⟨d, .group hd, hvd, rfl⟩
  | minus _ ih =>
    obtain ⟨d, hd, hvd, rfl⟩ := ih
    exact ⟨d.negate, .minus hd, hvd, rfl⟩
  | plus _ ih =>
    obtain ⟨d, hd, hvd, rfl⟩ := ih
    exact ⟨d, .plus hd, hvd, rfl⟩
  | x => exact ⟨.x, .x, trivial, rfl⟩
  | number hn hv =>
    obtain ⟨hn', rfl⟩ := (hvalue _ _).mp hv
    exact ⟨.literal _, .number hn rfl, hn', rfl⟩

theorem Derives.of_syntaxTree {value? : Numeral → Option α} {value : Numeral → α}
    {HasValue : Numeral → Prop} (hvalue : ∀ n v, value? n = some v ↔ HasValue n ∧ v = value n)
    {symbol : Symbol} {s : List Char} {d : Tree Numeral} (h : Syntax symbol s d)
    (hd : d.AllLiterals HasValue) : Derives value? symbol s (d.map value) := by
  induction h with
  | sum hop _ _ iha ihb => exact .sum hop (iha hd.1) (ihb hd.2)
  | product hop _ _ iha ihb => exact .product hop (iha hd.1) (ihb hd.2)
  | power _ _ ihb ihe => exact .power (ihb hd.1) (ihe hd.2)
  | term _ ih => exact .term (ih hd)
  | factor _ ih => exact .factor (ih hd)
  | primary _ ih => exact .primary (ih hd)
  | group _ ih => exact .group (ih hd)
  | minus _ ih => exact .minus (ih hd)
  | plus _ ih => exact .plus (ih hd)
  | x => exact .x
  | number hn hv =>
    cases hv
    exact .number hn ((hvalue _ _).mpr ⟨hd, rfl⟩)

end Grammar

end PolyPlot
