import Mathlib.Data.List.Forall2
import PolyPlot.Proofs.Curve.Alteration

namespace PolyPlot.Curve

open Expression

variable {o : Options} {n : ℕ} {id i text : String} {c : Curve} {curves : List Curve}

/-- An operation on a list of curves. Those that compile a text are called with so many levels of nesting
left. -/
inductive Edit where
  | add (levels : ℕ) (text id : String)
  | update (levels : ℕ) (id text : String)
  | toggle (id : String)
  | recolor (id color : String)
  | remove (id : String)
  deriving DecidableEq

namespace Edit

variable {e : Edit} {edits : List Edit}

/-- The id that an operation is on. -/
def target : Edit → String
  | add _ _ id | update _ id _ | toggle id | recolor id _ | remove id => id

/-- The list that an operation gives, where it does not fail. Adding a curve whose text is refused leaves the
list as it is. -/
def apply (o : Options) : Edit → List Curve → Except Fault (List Curve)
  | add n text id, curves =>
    match Curve.add n o text id curves with
    | .ok curves => .ok curves
    | .error (.refused _) => .ok curves
    | .error (.fault f) => .error f
  | update n id text, curves => Curve.update n o id text curves
  | toggle id, curves => .ok (alter id Curve.toggle curves)
  | recolor id color, curves => .ok (alter id (Curve.recolor color) curves)
  | remove id, curves => .ok (Curve.remove id curves)

/-- The list after an operation, which is the one before it if the operation fails. -/
def after (o : Options) (e : Edit) (curves : List Curve) : List Curve :=
  (e.apply o curves).toOption.getD curves

/-- The list that operations make of the empty one. -/
def run (o : Options) (edits : List Edit) : List Curve :=
  edits.foldl (fun curves e => e.after o curves) []

/-- The id of the curve that an operation creates. -/
def created? (o : Options) : Edit → Option String
  | add n text id => if (compile (n - 2) o text).isOk then some id else none
  | _ => none

/-- The text that an operation gives to the curve of an id, and the levels left where it is compiled. An
update that fails gives none. -/
def textFor? (o : Options) (i : String) : Edit → Option (ℕ × String)
  | add n text id => if id = i ∧ (compile (n - 2) o text).isOk then some (n - 2, text) else none
  | update n id text => if id = i ∧ (parse (n - 3) o text).isOk then some (n - 4, text) else none
  | _ => none

/-- The ids of all curves that are created, in order. -/
def created (o : Options) (edits : List Edit) : List String :=
  edits.filterMap (created? o)

/-- The ids of the curves that are created and not removed later, in the order of their creation. -/
def standing (o : Options) : List Edit → List String
  | [] => []
  | e :: later =>
    match e.created? o with
    | some id => if remove id ∈ later then standing o later else id :: standing o later
    | none => standing o later

/-- The texts that the curve of an id is given, in order. Those for an id without a curve are among them
too, but the text that creates the curve comes after. -/
def texts (o : Options) (i : String) (edits : List Edit) : List (ℕ × String) :=
  edits.filterMap (textFor? o i)

/-- The texts among them that are accepted. -/
def accepted (o : Options) (i : String) (edits : List Edit) : List (ℕ × String) :=
  (texts o i edits).filter fun given => (compile given.1 o given.2).isOk

/-- A record shows what a history says of the curve of its id. -/
structure Shows (o : Options) (edits : List Edit) (i : String) (c : Curve) : Prop where
  id_eq : c.id? = some i
  last : ∃ n text, (texts o i edits).getLast? = some (n, text) ∧ c.expression? = some text ∧
    c.valid? = some (compile n o text).isOk
  lastAccepted : ∃ n text p, (accepted o i edits).getLast? = some (n, text) ∧
    compile n o text = .ok p ∧ c.coefficients? = some p

theorem isOk_of_compile_eq_ok {p : Coeffs Float} (hp : compile n o text = .ok p) :
    (compile n o text).isOk = true := by
  rw [hp]
  rfl

theorem isOk_of_compile_eq_error {f : Failure} (hf : compile n o text = .error f) :
    ¬ (compile n o text).isOk = true := by
  rw [hf]
  exact Bool.false_ne_true

theorem run_append (o : Options) (edits : List Edit) (e : Edit) :
    run o (edits ++ [e]) = e.after o (run o edits) := by
  unfold run
  rw [List.foldl_append]
  rfl

theorem created_append (o : Options) (edits : List Edit) (e : Edit) :
    created o (edits ++ [e]) = created o edits ++ (e.created? o).toList := by
  unfold created
  cases h : e.created? o <;> simp [h]

theorem texts_append (o : Options) (i : String) (edits : List Edit) (e : Edit) :
    texts o i (edits ++ [e]) = texts o i edits ++ (e.textFor? o i).toList := by
  unfold texts
  cases h : e.textFor? o i <;> simp [h]

theorem texts_append_of_textFor? (edits : List Edit) (he : e.textFor? o i = some (n, text)) :
    texts o i (edits ++ [e]) = texts o i edits ++ [(n, text)] := by
  rw [texts_append, he, Option.toList_some]

theorem accepted_append_of_ok {p : Coeffs Float} (edits : List Edit) (he : e.textFor? o i = some (n, text))
    (hp : compile n o text = .ok p) : accepted o i (edits ++ [e]) = accepted o i edits ++ [(n, text)] := by
  have hkept : [(n, text)].filter (fun given => (compile given.1 o given.2).isOk) = [(n, text)] :=
    List.filter_cons_of_pos (isOk_of_compile_eq_ok hp)
  unfold accepted
  rw [texts_append_of_textFor? edits he, List.filter_append, hkept]

theorem accepted_append_of_error {f : Failure} (edits : List Edit) (he : e.textFor? o i = some (n, text))
    (hf : compile n o text = .error f) : accepted o i (edits ++ [e]) = accepted o i edits := by
  have hdropped : [(n, text)].filter (fun given => (compile given.1 o given.2).isOk) = [] :=
    List.filter_cons_of_neg (isOk_of_compile_eq_error hf)
  unfold accepted
  rw [texts_append_of_textFor? edits he, List.filter_append, hdropped, List.append_nil]

theorem standing_append_of_created (edits : List Edit) (he : e.created? o = some i) :
    standing o (edits ++ [e]) = standing o edits ++ [i] := by
  have hremove : ∀ id, remove id ≠ e := by
    rintro id rfl
    cases he
  induction edits with
  | nil => simp [standing, he]
  | cons e' edits ih =>
    rw [List.cons_append, standing, standing]
    cases e'.created? o with
    | none => exact ih
    | some id =>
      simp only [List.mem_append, List.mem_singleton, hremove id, or_false]
      split_ifs
      · exact ih
      · rw [ih, List.cons_append]

theorem standing_append_remove (o : Options) (edits : List Edit) (id : String) :
    standing o (edits ++ [remove id]) = (standing o edits).filter (· ≠ id) := by
  induction edits with
  | nil => rfl
  | cons e edits ih =>
    rw [List.cons_append, standing, standing]
    cases e.created? o with
    | none => exact ih
    | some i =>
      simp only [List.mem_append, List.mem_singleton, remove.injEq]
      by_cases hlater : remove i ∈ edits
      · rw [if_pos (.inl hlater), if_pos hlater, ih]
      by_cases hi : i = id
      · rw [if_pos (.inr hi), if_neg hlater, List.filter_cons_of_neg (by simpa using hi), ih]
      · rw [if_neg (by simp [hlater, hi]), if_neg hlater, List.filter_cons_of_pos (by simpa using hi),
          ih]

theorem standing_append_of_ne_remove (edits : List Edit) (he : e.created? o = none)
    (hremove : ∀ id, remove id ≠ e) : standing o (edits ++ [e]) = standing o edits := by
  induction edits with
  | nil => simp [standing, he]
  | cons e' edits ih =>
    rw [List.cons_append, standing, standing]
    simp only [List.mem_append, List.mem_singleton, hremove, or_false, ih]

theorem standing_sublist (o : Options) (edits : List Edit) :
    (standing o edits).Sublist (created o edits) := by
  induction edits with
  | nil => exact .slnil
  | cons e edits ih =>
    unfold created at ih ⊢
    rw [standing, List.filterMap_cons]
    cases e.created? o with
    | none => exact ih
    | some id =>
      dsimp only
      split_ifs
      · exact ih.cons id
      · exact ih.cons_cons id

/-- An operation that gives a curve no text changes nothing that the history says of it. -/
theorem Shows.of_textFor?_eq_none (h : Shows o edits i c) (he : e.textFor? o i = none)
    {d : Curve} (hid : d.id? = c.id?) (hexpression : d.expression? = c.expression?)
    (hcoefficients : d.coefficients? = c.coefficients?) (hvalid : d.valid? = c.valid?) :
    Shows o (edits ++ [e]) i d := by
  have htexts : texts o i (edits ++ [e]) = texts o i edits := by
    rw [texts_append, he, Option.toList_none, List.append_nil]
  have haccepted : accepted o i (edits ++ [e]) = accepted o i edits := by
    unfold accepted
    rw [htexts]
  refine ⟨hid.trans h.id_eq, ?_, ?_⟩
  · rw [htexts, hexpression, hvalid]
    exact h.last
  · rw [haccepted, hcoefficients]
    exact h.lastAccepted

/-- A text that a curve is given is its last one, and its last accepted one if it is accepted. -/
theorem Shows.entered (h : Shows o edits i c) (he : e.textFor? o i = some (n, text)) :
    Shows o (edits ++ [e]) i (c.entered n o text) := by
  refine ⟨h.id_eq, ⟨n, text, ?_, rfl, rfl⟩, ?_⟩
  · rw [texts_append_of_textFor? edits he, List.getLast?_concat]
  cases hcompile : compile n o text with
  | ok p =>
    refine ⟨n, text, p, ?_, hcompile, ?_⟩
    · rw [accepted_append_of_ok edits he hcompile, List.getLast?_concat]
    · simp [Curve.entered, hcompile, Except.toOption]
  | error f =>
    obtain ⟨n', text', p, hlast, hp, hcoefficients⟩ := h.lastAccepted
    refine ⟨n', text', p, ?_, hp, ?_⟩
    · rw [accepted_append_of_error edits he hcompile]
      exact hlast
    · simp [Curve.entered, hcompile, Except.toOption, hcoefficients]

theorem shows_add {p : Coeffs Float} (hp : compile (n - 2) o text = .ok p) (edits : List Edit)
    (i color : String) : Shows o (edits ++ [add n text i]) i
      ⟨some i, some text, some p, some color, some true, some true⟩ := by
  have hok := isOk_of_compile_eq_ok hp
  have htextFor : textFor? o i (add n text i) = some (n - 2, text) := if_pos ⟨rfl, hok⟩
  refine ⟨rfl, ⟨n - 2, text, ?_, rfl, ?_⟩, n - 2, text, p, ?_, hp, rfl⟩
  · rw [texts_append_of_textFor? edits htextFor, List.getLast?_concat]
  · rw [hok]
  · rw [accepted_append_of_ok edits htextFor hp, List.getLast?_concat]

theorem after_add_of_ok {p : Coeffs Float} (hp : compile (n - 2) o text = .ok p) (id : String)
    (curves : List Curve) : (add n text id).after o curves = curves ++
      [⟨some id, some text, some p, some (Palette.color curves.length), some true, some true⟩] := by
  rw [after, apply, add_eq, hp]
  rfl

theorem after_add_of_error {f : Failure} (hf : compile (n - 2) o text = .error f) (id : String)
    (curves : List Curve) : (add n text id).after o curves = curves := by
  rw [after, apply, add_eq, hf]
  cases f <;> rfl

theorem after_update_of_ok {r? : Option (Coeffs Float)} (hp : parse (n - 3) o text = .ok r?) (id : String)
    (curves : List Curve) :
    (update n id text).after o curves = alter id (Curve.entered (n - 4) o text) curves := by
  rw [after, apply, update_eq_ok hp]
  rfl

/-- Where a text cannot be told to be refused, no curve gets it. -/
theorem after_update_of_error {f : Fault} (hf : parse (n - 3) o text = .error f) (id : String)
    (curves : List Curve) : (update n id text).after o curves = curves := by
  have hone : ∀ c : Curve, c.applyExpression (n - 2) o text = .error f := by
    intro c
    have hparse : parse (n - 2 - 1) o text = .error f := hf
    unfold applyExpression
    rw [hparse]
    rfl
  have hall : Curve.update n o id text curves = .ok curves ∨
      ∃ f, Curve.update n o id text curves = .error f := by
    unfold Curve.update
    induction curves with
    | nil => exact .inl rfl
    | cons c curves ih =>
      rw [List.mapM_cons]
      by_cases hc : c.id? = some id
      · exact .inr ⟨f, by rw [if_pos hc, hone]; rfl⟩
      · rw [if_neg hc, ok_bind]
        rcases ih with ih | ⟨g, ih⟩
        · exact .inl (by rw [ih]; rfl)
        · exact .inr ⟨g, by rw [ih]; rfl⟩
  rw [after, apply]
  rcases hall with h | ⟨g, h⟩ <;> rw [h] <;> rfl

/-- An operation changes no record whose id is another one. -/
theorem filter_after (o : Options) (e : Edit) (curves : List Curve) :
    (e.after o curves).filter (fun c => c.id? ≠ some e.target) =
      curves.filter fun c => c.id? ≠ some e.target := by
  cases e with
  | add n text id =>
    cases hcompile : compile (n - 2) o text with
    | ok p =>
      rw [after_add_of_ok hcompile, List.filter_append, List.filter_cons_of_neg (by simp [target]),
        List.filter_nil, List.append_nil]
    | error f => rw [after_add_of_error hcompile]
  | update n id text =>
    cases hparse : parse (n - 3) o text with
    | ok r? =>
      rw [after_update_of_ok hparse]
      exact filter_alter (id?_entered (n - 4) o text) id curves
    | error f => rw [after_update_of_error hparse]
  | toggle id => exact filter_alter id?_toggle id curves
  | recolor id color => exact filter_alter (id?_recolor color) id curves
  | remove id => exact filter_remove id curves

/-- No operation fails if a refusal can be told. -/
theorem exists_apply_eq_ok (hε : 0 < o.epsilon) (ho : o.Tellable) (e : Edit) (curves : List Curve) :
    ∃ curves', e.apply o curves = .ok curves' := by
  cases e with
  | add n text id =>
    rw [apply, add_eq]
    obtain ⟨p, hp⟩ | ⟨f, hf⟩ | ⟨hnot, -⟩ := compile_eq_ok_or_refused hε (n - 2) text
    · rw [hp]
      exact ⟨_, rfl⟩
    · rw [hf]
      exact ⟨_, rfl⟩
    · exact absurd ho hnot
  | update n id text => exact ⟨_, update_eq_ok (parse_eq_ok hε ho (n - 3) text) id curves⟩
  | toggle id => exact ⟨_, rfl⟩
  | recolor id color => exact ⟨_, rfl⟩
  | remove id => exact ⟨_, rfl⟩

section Step

variable (h : List.Forall₂ (Shows o edits) (standing o edits) curves)

include h

theorem forall₂_alter {f : Curve → Curve} (he : e.created? o = none) (hremove : ∀ id, remove id ≠ e)
    (hf : ∀ i c, Shows o edits i c → Shows o (edits ++ [e]) i (if c.id? = some id then f c else c)) :
    List.Forall₂ (Shows o (edits ++ [e])) (standing o (edits ++ [e])) (alter id f curves) := by
  rw [standing_append_of_ne_remove edits he hremove]
  exact List.forall₂_map_right_iff.mpr (h.imp hf)

theorem forall₂_remove (id : String) :
    List.Forall₂ (Shows o (edits ++ [remove id])) (standing o (edits ++ [remove id]))
      (Curve.remove id curves) := by
  have hlonger : List.Forall₂ (Shows o (edits ++ [remove id])) (standing o edits) curves :=
    h.imp fun i c hc => hc.of_textFor?_eq_none rfl rfl rfl rfl rfl
  rw [standing_append_remove]
  exact List.rel_filter (fun i c hc => by simp [hc.id_eq]) hlonger

theorem forall₂_add (hnew : (created o (edits ++ [add n text id])).Nodup) {p : Coeffs Float}
    (hp : compile (n - 2) o text = .ok p) (color : String) :
    List.Forall₂ (Shows o (edits ++ [add n text id])) (standing o (edits ++ [add n text id]))
      (curves ++ [⟨some id, some text, some p, some color, some true, some true⟩]) := by
  have hcreated : created? o (add n text id) = some id := if_pos (isOk_of_compile_eq_ok hp)
  -- The id is a new one, so the text of the new curve is not the last one of any other.
  have hfresh : id ∉ created o edits := by
    rw [created_append, hcreated, Option.toList_some] at hnew
    exact fun hmem => List.disjoint_of_nodup_append hnew hmem (List.mem_singleton.mpr rfl)
  have hother : ∀ i ∈ standing o edits, id ≠ i := by
    rintro i hi rfl
    exact hfresh ((standing_sublist o edits).subset hi)
  rw [standing_append_of_created edits hcreated]
  refine List.rel_append ?_ (.cons (shows_add hp edits id color) .nil)
  refine ((List.forall₂_and_left _ _).mpr ⟨hother, h⟩).imp fun i c ⟨hi, hc⟩ => ?_
  have hnone : textFor? o i (add n text id) = none := if_neg fun hid => hi hid.1
  exact hc.of_textFor?_eq_none hnone rfl rfl rfl rfl

/-- An operation that creates nothing, gives no text and leaves the list as it is. -/
theorem forall₂_unchanged (he : e.created? o = none) (hremove : ∀ id, remove id ≠ e)
    (htext : ∀ i, e.textFor? o i = none) :
    List.Forall₂ (Shows o (edits ++ [e])) (standing o (edits ++ [e])) curves := by
  rw [standing_append_of_ne_remove edits he hremove]
  exact h.imp fun i c hc => hc.of_textFor?_eq_none (htext i) rfl rfl rfl rfl

/-- An operation on a list that shows what a history says leaves one that shows what the longer history
says. -/
theorem forall₂_after (hnew : (created o (edits ++ [e])).Nodup) :
    List.Forall₂ (Shows o (edits ++ [e])) (standing o (edits ++ [e])) (e.after o curves) := by
  cases e with
  | add n text id =>
    cases hcompile : compile (n - 2) o text with
    | ok p =>
      rw [after_add_of_ok hcompile]
      exact forall₂_add h hnew hcompile _
    | error f =>
      have hno := isOk_of_compile_eq_error hcompile
      rw [after_add_of_error hcompile]
      exact forall₂_unchanged h (if_neg hno) (by simp) fun i => if_neg fun hid => hno hid.2
  | update n id text =>
    cases hparse : parse (n - 3) o text with
    | ok r? =>
      rw [after_update_of_ok hparse]
      refine forall₂_alter h rfl (by simp) fun i c hc => ?_
      by_cases hid : id = i
      · rw [if_pos (hid ▸ hc.id_eq)]
        exact hc.entered (if_pos ⟨hid, by rw [hparse]; rfl⟩)
      · have hnone : textFor? o i (update n id text) = none := if_neg fun h => hid h.1
        rw [if_neg (by simpa [hc.id_eq] using Ne.symm hid)]
        exact hc.of_textFor?_eq_none hnone rfl rfl rfl rfl
    | error f =>
      have hno : ¬ (parse (n - 3) o text).isOk = true := by
        rw [hparse]
        exact Bool.false_ne_true
      rw [after_update_of_error hparse]
      exact forall₂_unchanged h rfl (by simp) fun i => if_neg fun hid => hno hid.2
  | toggle id =>
    refine forall₂_alter h rfl (by simp) fun i c hc => ?_
    split_ifs <;> exact hc.of_textFor?_eq_none rfl rfl rfl rfl rfl
  | recolor id color =>
    refine forall₂_alter h rfl (by simp) fun i c hc => ?_
    split_ifs <;> exact hc.of_textFor?_eq_none rfl rfl rfl rfl rfl
  | remove id => exact forall₂_remove h id

end Step

/-- Every list that operations make of the empty one shows what their history says. -/
theorem forall₂_run (edits : List Edit) (hnew : (created o edits).Nodup) :
    List.Forall₂ (Shows o edits) (standing o edits) (run o edits) := by
  -- From the end: what a history says of a record is changed by its last operation only.
  induction edits using List.reverseRecOn with
  | nil => exact .nil
  | append_singleton edits e ih =>
    have hbefore : (created o edits).Nodup := by
      rw [created_append] at hnew
      exact hnew.of_append_left
    rw [run_append]
    exact forall₂_after (ih hbefore) hnew

/-- If no id is created twice, the records after a run of operations are those of the curves that were created
and not removed later, in the order of their creation, with distinct ids. Each shows the last text of its
curve and whether it is accepted, and keeps the vector of the last accepted one. Any operation on such a list
leaves the records with other ids as they are, and under a positive tolerance none fails if a refusal can be
told. -/
theorem run_shows_history (o : Options) (hε : 0 < o.epsilon) (edits : List Edit)
    (hnew : (created o edits).Nodup) :
    let curves := run o edits
    (curves.map Curve.id?).Nodup ∧
      (standing o edits).Sublist (created o edits) ∧
      List.Forall₂ (Shows o edits) (standing o edits) curves ∧
      (∀ e : Edit, (e.after o curves).filter (fun c => c.id? ≠ some e.target) =
        curves.filter fun c => c.id? ≠ some e.target) ∧
      (o.Tellable → ∀ e : Edit, ∃ curves', e.apply o curves = .ok curves') := by
  have h := forall₂_run edits hnew
  have hids : (standing o edits).map some = (run o edits).map Curve.id? := by
    rw [← List.forall₂_eq_eq_eq, List.forall₂_map_left_iff, List.forall₂_map_right_iff]
    exact h.imp fun i c hc => hc.id_eq.symm
  have hdistinct : ((run o edits).map Curve.id?).Nodup := by
    rw [← hids]
    exact (hnew.sublist (standing_sublist o edits)).map (Option.some_injective _)
  exact ⟨hdistinct, standing_sublist o edits, h, fun e => filter_after o e _,
    fun ho e => exists_apply_eq_ok hε ho e _⟩

/-- A curve keeps its vector through a refused text, and the other is gone. -/
theorem run_shows_history_of_refused_text :
    let edits : List Edit :=
      [add 100 "x^2" "a", add 100 "x" "b", update 100 "a" "x^", recolor "a" "#dc2626", toggle "a",
        remove "b"]
    0 < ({} : Options).epsilon ∧ (created ({} : Options) edits).Nodup ∧ ∃ c, run {} edits = [c] ∧
      c.id? = some "a" ∧ c.expression? = some "x^" ∧ c.valid? = some false ∧
      c.coefficients? = some [0, 0, 1] := by
  intro edits
  have hε : 0 < ({} : Options).epsilon := by decide
  have hnew : (created ({} : Options) edits).Nodup := by decide +kernel
  have hstanding : standing ({} : Options) edits = ["a"] := by decide +kernel
  have htexts : texts ({} : Options) "a" edits = [(98, "x^2"), (96, "x^")] := by decide +kernel
  have haccepted : accepted ({} : Options) "a" edits = [(98, "x^2")] := by decide +kernel
  refine ⟨hε, hnew, ?_⟩
  obtain ⟨-, -, hshows, -⟩ := run_shows_history {} hε edits hnew
  rw [hstanding, List.forall₂_cons_left_iff] at hshows
  obtain ⟨c, rest, hc, hrest, hrun⟩ := hshows
  cases hrest
  obtain ⟨hid, ⟨n, text, hlast, hexpression, hvalid⟩, n', text', p, hlast', hp, hcoefficients⟩ := hc
  rw [htexts] at hlast
  rw [haccepted] at hlast'
  obtain ⟨rfl, rfl⟩ : 96 = n ∧ "x^" = text := by simpa using hlast
  obtain ⟨rfl, rfl⟩ : 98 = n' ∧ "x^2" = text' := by simpa using hlast'
  have hrefused : (compile 96 ({} : Options) "x^").isOk = false := by decide +kernel
  have hvector : compile 98 ({} : Options) "x^2" = .ok [0, 0, 1] := by decide +kernel
  obtain rfl : [0, 0, 1] = p := Except.ok.inj (hvector.symm.trans hp)
  rw [hrefused] at hvalid
  exact ⟨c, hrun, hid, hexpression, hvalid, hcoefficients⟩

end Edit

end PolyPlot.Curve
