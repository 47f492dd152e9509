import PolyPlot.Proofs.Grammar.Position
import PolyPlot.Proofs.Grammar.Refusal

namespace PolyPlot

namespace Descent

open Expression (Error)

variable {α : Type}

/-- What a function of the descent returns: its tree, and the text behind it with its position. The text is
shorter than a bound, on which the functions that call the one recur. -/
structure Parsed (α : Type) (bound : ℕ) where
  tree : Tree α
  position : ℕ
  rest : List Char
  shorter : rest.length < bound

theorem Parsed.length_lt {bound : ℕ} {p : Parsed α bound} {c : Char} {s : List Char} (h : p.rest = c :: s) :
    s.length < p.rest.length := by
  rw [h]
  exact Nat.lt_succ_self _

theorem length_dropWhile_lt {s : List Char} (h : s.takeWhile Char.isDigit ≠ []) :
    (s.dropWhile Char.isDigit).length < s.length := by
  have hlength := congrArg List.length (List.takeWhile_append_dropWhile (p := Char.isDigit) (l := s))
  have hpos := List.length_pos_iff.mpr h
  rw [List.length_append] at hlength
  omega

/-- The signs of the sums. -/
def additive? (c : Char) : Option Operator :=
  if c = '+' then some .add else if c = '-' then some .subtract else none

/-- The signs of the products. -/
def multiplicative? (c : Char) : Option Operator :=
  if c = '*' then some .multiply else if c = '/' then some .divide else none

section Functions

variable (value? : Numeral → Option α)

/-- Reads `digit+ ('.' digit+)?`. -/
def number (position : ℕ) (s : List Char) : Except Error (Parsed α s.length) :=
  let whole := s.takeWhile Char.isDigit
  if hwhole : whole = [] then
    match s with
    | [] => .error (.unexpectedEnd position)
    | c :: _ => .error (.unexpectedCharacter c position)
  else
    have hshorter : (s.dropWhile Char.isDigit).length < s.length := length_dropWhile_lt hwhole
    match hbehind : s.dropWhile Char.isDigit with
    | '.' :: s' =>
      let places := s'.takeWhile Char.isDigit
      if places = [] then .error (.malformedNumber position)
      else do
        let t ← Reading.number value? position ⟨whole, places⟩
        return ⟨t, position + whole.length + 1 + places.length, s'.dropWhile Char.isDigit,
          (List.dropWhile_suffix _).length_le.trans_lt ((Nat.lt_succ_self _).trans (by rwa [hbehind] at hshorter))⟩
    | behind => do
      let t ← Reading.number value? position ⟨whole, []⟩
      return ⟨t, position + whole.length, behind, hbehind ▸ hshorter⟩

mutual

/-- Reads `term (('+' | '-') term)*`. -/
def expression (position : ℕ) (s : List Char) : Except Error (Parsed α s.length) := do
  let left ← term position s
  sums left
termination_by (s.length, 4)
decreasing_by
  · exact .right _ (by decide)
  · exact .left _ _ left.shorter

/-- The loop of `expression` over the terms behind the first ones. -/
def sums {bound : ℕ} (left : Parsed α bound) : Except Error (Parsed α bound) :=
  match hrest : left.rest with
  | [] => .ok left
  | c :: s =>
    match additive? c with
    | none => .ok left
    | some op => do
      let right ← term (left.position + 1) s
      sums ⟨.binary op left.tree right.tree, right.position, right.rest,
        right.shorter.trans ((Parsed.length_lt hrest).trans left.shorter)⟩
termination_by (left.rest.length, 4)
decreasing_by
  · exact .left _ _ (Parsed.length_lt hrest)
  · exact .left _ _ (right.shorter.trans (Parsed.length_lt hrest))

/-- Reads `factor (('*' | '/') factor)*`. -/
def term (position : ℕ) (s : List Char) : Except Error (Parsed α s.length) := do
  let left ← factor position s
  products left
termination_by (s.length, 3)
decreasing_by
  · exact .right _ (by decide)
  · exact .left _ _ left.shorter

/-- The loop of `term` over the factors behind the first ones. -/
def products {bound : ℕ} (left : Parsed α bound) : Except Error (Parsed α bound) :=
  match hrest : left.rest with
  | [] => .ok left
  | c :: s =>
    match multiplicative? c with
    | none => .ok left
    | some op => do
      let right ← factor (left.position + 1) s
      products ⟨.binary op left.tree right.tree, right.position, right.rest,
        right.shorter.trans ((Parsed.length_lt hrest).trans left.shorter)⟩
termination_by (left.rest.length, 3)
decreasing_by
  · exact .left _ _ (Parsed.length_lt hrest)
  · exact .left _ _ (right.shorter.trans (Parsed.length_lt hrest))

/-- Reads `primary ('^' factor)?`. -/
def factor (position : ℕ) (s : List Char) : Except Error (Parsed α s.length) := do
  let base ← primary position s
  match hrest : base.rest with
  | '^' :: s' =>
    let exponent ← factor (base.position + 1) s'
    return ⟨.power base.tree exponent.tree, exponent.position, exponent.rest,
      exponent.shorter.trans ((Parsed.length_lt hrest).trans base.shorter)⟩
  | _ => return base
termination_by (s.length, 2)
decreasing_by
  · exact .right _ (by decide)
  · exact .left _ _ ((Parsed.length_lt hrest).trans base.shorter)

/-- Reads `'(' expression ')' | '-' primary | '+' primary | 'x' | number`. -/
def primary (position : ℕ) (s : List Char) : Except Error (Parsed α s.length) :=
  match s with
  | '(' :: s => do
    let inner ← expression (position + 1) s
    match hrest : inner.rest with
    | ')' :: s' =>
      return ⟨inner.tree, inner.position + 1, s',
        ((Parsed.length_lt hrest).trans inner.shorter).trans (Nat.lt_succ_self _)⟩
    | _ => .error (.missingParenthesis inner.position)
  | '-' :: s => do
    let t ← primary (position + 1) s
    return ⟨.negate t.tree, t.position, t.rest, Nat.lt_succ_of_lt t.shorter⟩
  | '+' :: s => do
    let t ← primary (position + 1) s
    return ⟨t.tree, t.position, t.rest, Nat.lt_succ_of_lt t.shorter⟩
  | 'x' :: s => return ⟨.x, position + 1, s, Nat.lt_succ_self _⟩
  | s => number value? position s
termination_by (s.length, 1)

end

/-- The tree of a whole text. -/
def parse (s : List Char) : Except Error (Tree α) := do
  let parsed ← expression value? 0 s
  match parsed.rest with
  | [] => return parsed.tree
  | c :: _ => .error (.unexpectedCharacter c parsed.position)

end Functions

section Agreement

open Reading Grammar

variable {value? : Numeral → Option α} {position : ℕ} {s : List Char} {stack : List (Frame α)}

/-- Goes on behind what a function of the descent returns as behind one operand. -/
def goOn (value? : Numeral → Option α) (stack : List (Frame α)) {bound : ℕ}
    (outcome : Except Error (Parsed α bound)) : Except Error (Tree α) :=
  outcome >>= fun p => result value? (complete p.position stack p.tree) p.rest

/-- What no operand begins with is refused as no number. -/
theorem result_of_takeWhile_eq_nil (hs : StartsOutside (· ∈ ['(', '-', '+', 'x']) s)
    (hdigits : s.takeWhile Char.isDigit = []) :
    result value? ⟨position, stack, .operand⟩ s = .error (match s with
      | [] => .unexpectedEnd position
      | c :: _ => .unexpectedCharacter c position) := by
  cases s with
  | nil => rfl
  | cons c s =>
    have hc : ¬ c.isDigit = true := by
      intro hc
      rw [List.takeWhile_cons_of_pos hc] at hdigits
      cases hdigits
    have hsigns := hs c s rfl
    simp only [List.mem_cons, List.not_mem_nil, or_false, not_or] at hsigns
    rw [result_cons]
    simp [step, readOperand, hsigns, hc, Except.bind]

/-- A point without a digit behind it is refused with the number before it. -/
theorem result_point_of_takeWhile_eq_nil {start : ℕ} {digits : List Char}
    (hplaces : s.takeWhile Char.isDigit = []) :
    result value? ⟨position, stack, .whole start digits⟩ ('.' :: s) = .error (.malformedNumber start) := by
  rw [result_cons]
  cases s with
  | nil => rfl
  | cons c s =>
    have hc : ¬ c.isDigit = true := by
      intro hc
      rw [List.takeWhile_cons_of_pos hc] at hplaces
      cases hplaces
    have hpoint : step value? ⟨position, stack, .whole start digits⟩ '.' =
        .ok ⟨position + 1, stack, .point start digits⟩ := rfl
    rw [hpoint]
    change result value? ⟨position + 1, stack, .point start digits⟩ (c :: s) = _
    rw [result_cons]
    simp [step, hc, Except.bind]

theorem result_number (hs : StartsOutside (· ∈ ['(', '-', '+', 'x']) s) :
    result value? ⟨position, stack, .operand⟩ s = goOn value? stack (number value? position s) := by
  unfold number
  dsimp only
  split
  · next hwhole =>
    rw [result_of_takeWhile_eq_nil hs hwhole]
    cases s <;> rfl
  · next hwhole =>
    have hread : result value? ⟨position, stack, .operand⟩ s =
        result value? ⟨position + (s.takeWhile Char.isDigit).length, stack,
          .whole position (s.takeWhile Char.isDigit).reverse⟩ (s.dropWhile Char.isDigit) := by
      rw [← result_digits hwhole isDigit_of_mem_takeWhile, List.takeWhile_append_dropWhile]
    split
    · next s' hbehind =>
      rw [hbehind] at hread
      refine hread.trans ?_
      split
      · next hplaces =>
        rw [result_point_of_takeWhile_eq_nil hplaces]
        rfl
      · next hplaces =>
        have hpoint := @result_places α value? (position + (s.takeWhile Char.isDigit).length) position stack
          (s.takeWhile Char.isDigit).reverse _ (s'.dropWhile Char.isDigit) hplaces isDigit_of_mem_takeWhile
        rw [List.takeWhile_append_dropWhile] at hpoint
        rw [hpoint, result_ends rfl, List.reverse_reverse, List.reverse_reverse]
        · cases Reading.number value? position _ <;> rfl
        · intro c rest hrest
          simp [step, startsOutside_dropWhile s' c rest hrest]
    · next hpoint =>
      rw [hread]
      have houtside : StartsOutside ExtendsNumber (s.dropWhile Char.isDigit) := by
        intro c rest hrest hc
        rcases hc with hdigit | rfl
        · exact startsOutside_dropWhile s c rest hrest hdigit
        · exact hpoint rest hrest
      rw [result_ends rfl fun c rest hrest => step_of_numeral rfl (houtside c rest hrest), List.reverse_reverse]
      cases Reading.number value? position ⟨s.takeWhile Char.isDigit, []⟩ <;> rfl

/-- The characters that would extend a term. -/
def ExtendsProduct (c : Char) : Prop :=
  c = '^' ∨ c = '*' ∨ c = '/'

/-- The characters that would extend an expression. -/
def ExtendsSum (c : Char) : Prop :=
  ExtendsProduct c ∨ c = '+' ∨ c = '-'

theorem multiplicative?_eq_none_iff {c : Char} : multiplicative? c = none ↔ ¬ (c = '*' ∨ c = '/') := by
  unfold multiplicative?
  split_ifs <;> simp_all

theorem multiplicative?_eq_some_iff {c : Char} {op : Operator} :
    multiplicative? c = some op ↔ op.isProduct = true ∧ c = op.sign := by
  unfold multiplicative?
  cases op <;> split_ifs <;> simp_all [Operator.isProduct, Operator.sign]

theorem additive?_eq_none_iff {c : Char} : additive? c = none ↔ ¬ (c = '+' ∨ c = '-') := by
  unfold additive?
  split_ifs <;> simp_all

theorem additive?_eq_some_iff {c : Char} {op : Operator} :
    additive? c = some op ↔ op.isProduct = false ∧ c = op.sign := by
  unfold additive?
  cases op <;> split_ifs <;> simp_all [Operator.isProduct, Operator.sign]

theorem outside_factor (position : ℕ) (s : List Char) {p : Parsed α s.length}
    (h : factor value? position s = .ok p) : StartsOutside (· = '^') p.rest := by
  rw [factor] at h
  obtain ⟨base, -, h⟩ := bind_eq_ok_iff.mp h
  split at h
  · next s' hrest =>
    obtain ⟨exponent, hexponent, h⟩ := bind_eq_ok_iff.mp h
    have hshorter : s'.length < s.length := (Parsed.length_lt hrest).trans base.shorter
    cases h
    exact outside_factor (base.position + 1) s' hexponent
  · next hnot =>
    cases h
    rintro c rest hrest rfl
    exact hnot rest hrest
termination_by s.length

theorem outside_products {bound : ℕ} (left : Parsed α bound) {p : Parsed α bound}
    (hleft : StartsOutside (· = '^') left.rest) (h : products value? left = .ok p) :
    StartsOutside ExtendsProduct p.rest := by
  rw [products] at h
  split at h
  · next hrest =>
    cases h
    rw [hrest]
    nofun
  · next c s hrest =>
    split at h
    · next hc =>
      cases h
      rw [hrest]
      exact startsOutside_cons (not_or.mpr ⟨hleft c s hrest, multiplicative?_eq_none_iff.mp hc⟩)
    · obtain ⟨right, hright, h⟩ := bind_eq_ok_iff.mp h
      have hshorter : right.rest.length < left.rest.length := right.shorter.trans (Parsed.length_lt hrest)
      refine outside_products _ ?_ h
      exact outside_factor _ _ hright
termination_by left.rest.length

theorem outside_term {p : Parsed α s.length} (h : term value? position s = .ok p) :
    StartsOutside ExtendsProduct p.rest := by
  rw [term] at h
  obtain ⟨left, hleft, h⟩ := bind_eq_ok_iff.mp h
  exact outside_products left (outside_factor position s hleft) h

theorem outside_sums {bound : ℕ} (left : Parsed α bound) {p : Parsed α bound}
    (hleft : StartsOutside ExtendsProduct left.rest) (h : sums value? left = .ok p) :
    StartsOutside ExtendsSum p.rest := by
  rw [sums] at h
  split at h
  · next hrest =>
    cases h
    rw [hrest]
    nofun
  · next c s hrest =>
    split at h
    · next hc =>
      cases h
      rw [hrest]
      exact startsOutside_cons (not_or.mpr ⟨hleft c s hrest, additive?_eq_none_iff.mp hc⟩)
    · obtain ⟨right, hright, h⟩ := bind_eq_ok_iff.mp h
      have hshorter : right.rest.length < left.rest.length := right.shorter.trans (Parsed.length_lt hrest)
      refine outside_sums _ ?_ h
      exact outside_term hright
termination_by left.rest.length

theorem outside_expression {p : Parsed α s.length} (h : expression value? position s = .ok p) :
    StartsOutside ExtendsSum p.rest := by
  rw [expression] at h
  obtain ⟨left, hleft, h⟩ := bind_eq_ok_iff.mp h
  exact outside_sums left (outside_term hleft) h

theorem goOn_bind {stack' : List (Frame α)} {bound bound' : ℕ} {outcome : Except Error (Parsed α bound)}
    {next : Parsed α bound → Except Error (Parsed α bound')}
    (h : ∀ p, outcome = .ok p →
      result value? (complete p.position stack p.tree) p.rest = goOn value? stack' (next p)) :
    goOn value? stack outcome = goOn value? stack' (outcome >>= next) := by
  cases outcome with
  | error e => rfl
  | ok p => exact h p rfl

/-- A left operand waits in a frame for the operand behind its sign. -/
theorem result_sign {op : Operator} {left : Tree α} (hstack : Opens .factor stack)
    (hstep : step value? ⟨position, stack, .operator left⟩ op.sign =
      .ok ⟨position + 1, .operand op left :: stack, .operand⟩) :
    result value? (complete position stack left) (op.sign :: s) =
      result value? ⟨position + 1, .operand op left :: stack, .operand⟩ s := by
  rw [complete_of_opens hstack, result_cons, hstep]
  rfl

theorem result_closed {t : Tree α} : result value? ⟨position, .group :: stack, .operator t⟩ (')' :: s) =
    result value? (complete (position + 1) stack t) s := by
  rw [result_cons]
  simp only [step, readOperator, (opens_group stack).2 t]
  rfl

theorem result_unclosed {t : Tree α}
    (hs : StartsOutside ExtendsSum s)
    (hopen : ∀ s', s = ')' :: s' → False) :
    result value? ⟨position, .group :: stack, .operator t⟩ s = .error (.missingParenthesis position) := by
  cases s with
  | nil => simp [result_nil, finish, close, (opens_group stack).2 t]
  | cons c s =>
    have hc := hs c s rfl
    have hclose : c ≠ ')' := fun h => hopen s (h ▸ rfl)
    simp only [ExtendsSum, ExtendsProduct, not_or] at hc
    rw [result_cons]
    simp [step, readOperator, (opens_group stack).2 t, hc, hclose, Except.bind]

mutual

theorem result_expression (position : ℕ) (s : List Char) {stack : List (Frame α)}
    (hstack : Opens .expression stack) :
    result value? ⟨position, stack, .operand⟩ s = goOn value? stack (expression value? position s) := by
  rw [expression, result_term position s hstack.1]
  refine goOn_bind fun left _ => ?_
  have hshorter := left.shorter
  exact result_sums left hstack
termination_by (s.length, 4)

theorem result_sums {bound : ℕ} (left : Parsed α bound) {stack : List (Frame α)}
    (hstack : Opens .expression stack) :
    result value? (complete left.position stack left.tree) left.rest = goOn value? stack (sums value? left) := by
  rw [sums]
  split
  · rfl
  · next c s hrest =>
    split
    · rfl
    · next op hop =>
      obtain ⟨hsum, rfl⟩ := additive?_eq_some_iff.mp hop
      have hshorter : s.length < left.rest.length := Parsed.length_lt hrest
      have hopens : Opens .term (.operand op left.tree :: stack) := opens_sum hsum left.tree stack
      have hread : result value? (complete left.position stack left.tree) left.rest =
          result value? ⟨left.position + 1, .operand op left.tree :: stack, .operand⟩ s := by
        rw [hrest]
        exact result_sign hstack.1.1 (step_sum hsum hstack left.tree)
      rw [hread, result_term _ s hopens]
      refine goOn_bind fun right hright => ?_
      have hless : right.rest.length < left.rest.length := right.shorter.trans hshorter
      refine Eq.trans ?_ (result_sums _ hstack)
      rw [complete_of_opens hopens.1]
      exact result_sum hsum hstack (outside_term hright)
termination_by (left.rest.length, 4)

theorem result_term (position : ℕ) (s : List Char) {stack : List (Frame α)} (hstack : Opens .term stack) :
    result value? ⟨position, stack, .operand⟩ s = goOn value? stack (term value? position s) := by
  rw [term, result_factor position s hstack.1]
  refine goOn_bind fun left _ => ?_
  have hshorter := left.shorter
  exact result_products left hstack
termination_by (s.length, 3)

theorem result_products {bound : ℕ} (left : Parsed α bound) {stack : List (Frame α)}
    (hstack : Opens .term stack) :
    result value? (complete left.position stack left.tree) left.rest =
      goOn value? stack (products value? left) := by
  rw [products]
  split
  · rfl
  · next c s hrest =>
    split
    · rfl
    · next op hop =>
      obtain ⟨hproduct, rfl⟩ := multiplicative?_eq_some_iff.mp hop
      have hshorter : s.length < left.rest.length := Parsed.length_lt hrest
      have hopens : Opens .factor (.operand op left.tree :: stack) := opens_product op left.tree stack
      have hread : result value? (complete left.position stack left.tree) left.rest =
          result value? ⟨left.position + 1, .operand op left.tree :: stack, .operand⟩ s := by
        rw [hrest]
        exact result_sign hstack.1 (step_product hproduct hstack left.tree)
      rw [hread, result_factor _ s hopens]
      refine goOn_bind fun right hright => ?_
      have hless : right.rest.length < left.rest.length := right.shorter.trans hshorter
      refine Eq.trans ?_ (result_products _ hstack)
      rw [complete_of_opens hopens]
      exact result_product hproduct hstack (outside_factor _ _ hright)
termination_by (left.rest.length, 3)

theorem result_factor (position : ℕ) (s : List Char) {stack : List (Frame α)} (hstack : Opens .factor stack) :
    result value? ⟨position, stack, .operand⟩ s = goOn value? stack (factor value? position s) := by
  rw [factor, result_primary position s stack]
  refine goOn_bind fun base _ => ?_
  split
  · next s' hrest =>
    have hshorter : s'.length < s.length := (Parsed.length_lt hrest).trans base.shorter
    have hopens : Opens .factor (.base base.tree :: stack) := opens_base base.tree stack
    have hread : result value? (complete base.position stack base.tree) base.rest =
        result value? ⟨base.position + 1, .base base.tree :: stack, .operand⟩ s' := by
      rw [complete_of_opens hstack, hrest, result_cons]
      rfl
    rw [hread, result_factor (base.position + 1) s' hopens]
    refine goOn_bind fun exponent hexponent => ?_
    rw [complete_of_opens hopens]
    exact result_power hstack (outside_factor _ _ hexponent)
  · rfl
termination_by (s.length, 2)

theorem result_primary (position : ℕ) (s : List Char) (stack : List (Frame α)) :
    result value? ⟨position, stack, .operand⟩ s = goOn value? stack (primary value? position s) := by
  rw [primary.eq_def]
  split
  · next s =>
    have hopens := opens_group stack
    have hread : result value? ⟨position, stack, .operand⟩ ('(' :: s) =
        result value? ⟨position + 1, .group :: stack, .operand⟩ s := by
      rw [result_cons]
      rfl
    rw [hread, result_expression (position + 1) s hopens]
    refine goOn_bind fun inner hinner => ?_
    rw [complete_of_opens hopens.1.1]
    split
    · next s' hrest => exact (congrArg (result value? _) hrest).trans result_closed
    · next hopen => exact result_unclosed (outside_expression hinner) hopen
  · next s =>
    have hread : result value? ⟨position, stack, .operand⟩ ('-' :: s) =
        result value? ⟨position + 1, .sign true :: stack, .operand⟩ s := by
      rw [result_cons]
      rfl
    rw [hread, result_primary (position + 1) s]
    exact goOn_bind fun t _ => rfl
  · next s =>
    have hread : result value? ⟨position, stack, .operand⟩ ('+' :: s) =
        result value? ⟨position + 1, .sign false :: stack, .operand⟩ s := by
      rw [result_cons]
      rfl
    rw [hread, result_primary (position + 1) s]
    exact goOn_bind fun t _ => rfl
  · next s =>
    rw [result_cons]
    rfl
  · next hgroup hminus hplus hx =>
    refine result_number fun c rest hrest hc => ?_
    simp only [List.mem_cons, List.not_mem_nil, or_false] at hc
    obtain rfl | rfl | rfl | rfl := hc
    · exact hgroup rest hrest
    · exact hminus rest hrest
    · exact hplus rest hrest
    · exact hx rest hrest
termination_by (s.length, 1)

end

/-- What is read is what the descent returns, with its refusals and their positions. -/
theorem tree_eq_parse (value? : Numeral → Option α) (s : List Char) :
    Reading.tree value? none s = parse value? s := by
  have hread : Reading.tree value? none s = result value? ⟨0, [], .operand⟩ s := rfl
  rw [hread, result_expression 0 s opens_start, parse]
  cases hexpression : expression value? 0 s with
  | error e => rfl
  | ok p =>
    have houtside := outside_expression hexpression
    change result value? (complete p.position [] p.tree) p.rest = match p.rest with
      | [] => .ok p.tree
      | c :: _ => .error (.unexpectedCharacter c p.position)
    rw [complete_of_opens opens_start.1.1]
    cases hrest : p.rest with
    | nil => rfl
    | cons c rest =>
      have hc := houtside c rest hrest
      simp only [ExtendsSum, ExtendsProduct, not_or] at hc
      rw [result_cons]
      simp [step, readOperator, (opens_start (α := α)).2 p.tree, hc, Except.bind]

/-- Under a limit on the nesting a text is read as the descent reads it, or refused for the limit. -/
theorem read_eq_parse_or_deep (limit : Option ℕ) (text : String) :
    Tree.read limit text = parse Numeral.finite? text.toList ∨ Tree.read limit text = .error .nestedTooDeeply :=
  tree_eq_parse Numeral.finite? text.toList ▸ tree_limited Numeral.finite? limit text.toList

end Agreement

end Descent

end PolyPlot
