import PolyPlot.Page.Editor
import PolyPlot.Proofs.Curve.Alteration
import PolyPlot.Proofs.Page.Pass

namespace PolyPlot.Page.Editor

variable {p : Progress} {levels : ℕ} {pressed : List String} {c : Curve} {curves : List Curve}
  {id text entered color chosen : String}

/-- What a visitor changes of one curve in one pass. -/
structure Request where
  /-- The text that is entered, if it is a new one. -/
  text? : Option String
  /-- The colour that is chosen, if it is a new one. -/
  color? : Option String
  /-- Whether the button that changes the visibility is pressed. -/
  toggled : Bool

namespace Request

variable (n : ℕ) (r : Request)

/-- How many things are changed. -/
def count : ℕ :=
  r.text?.toList.length + r.color?.toList.length + r.toggled.toNat

/-- A record with a new text, if there is one, which is compiled with so many levels left. -/
def read (c : Curve) : Curve :=
  r.text?.elim c fun text => c.entered n {} text

/-- A record with all that is changed. -/
def all (c : Curve) : Curve :=
  let drawn := r.color?.elim (r.read n c) fun color => (r.read n c).recolor color
  if r.toggled then drawn.toggle else drawn

/-- The record that is held after the colour is dealt with. -/
def drawn (c : Curve) : Curve :=
  r.color?.elim (r.read n c) fun color => c.recolor color

/-- The record that is held in the end. -/
def held (c : Curve) : Curve :=
  if r.toggled then c.toggle else r.drawn n c

theorem id?_read (c : Curve) : (r.read n c).id? = c.id? := by
  unfold read
  cases r.text? with
  | none => rfl
  | some text => rfl

theorem id?_drawn (c : Curve) : (r.drawn n c).id? = c.id? := by
  unfold drawn
  cases r.color? with
  | none => exact r.id?_read n c
  | some color => rfl

theorem expression?_all (c : Curve) : (r.all n c).expression? = (r.read n c).expression? := by
  unfold all
  cases r.color? with
  | none => cases r.toggled <;> rfl
  | some color => cases r.toggled <;> rfl

/-- The record that is held has all changes exactly if there is at most one. -/
theorem held_eq_all_iff (htext : ∀ text ∈ r.text?, c.expression? ≠ some text)
    (hcolor : ∀ color ∈ r.color?, c.color? ≠ some color) : r.held n c = r.all n c ↔ r.count ≤ 1 := by
  obtain ⟨text?, color?, toggled⟩ := r
  cases text? with
  | none =>
    cases color? with
    | none => cases toggled <;> simp [held, all, drawn, read, count]
    | some color =>
      cases toggled with
      | false => simp [held, all, drawn, read, count]
      | true =>
        refine iff_of_false (fun h => ?_) (by simp [count])
        exact hcolor color rfl (congrArg Curve.color? h)
  | some text =>
    have hlost : ∀ d : Curve, d.expression? = c.expression? →
        d ≠ all n ⟨some text, color?, toggled⟩ c := by
      rintro d hd rfl
      exact htext text rfl (hd.symm.trans (expression?_all n ⟨some text, color?, toggled⟩ c))
    cases toggled with
    | true => exact iff_of_false (hlost _ rfl) (by simp [count])
    | false =>
      cases color? with
      | none => simp [held, all, drawn, read, count]
      | some color => exact iff_of_false (hlost _ rfl) (by simp [count])

end Request

/-- The value of a field if it is not the one that was shown. -/
def changed? (shown value : String) : Option String :=
  if value = shown then none else some value

theorem ne_of_mem_changed? {shown value v : String} (h : v ∈ changed? shown value) : shown ≠ v := by
  obtain ⟨hnew, hv⟩ := Option.ite_none_left_eq_some.mp h
  exact fun hshown => hnew ((Option.some.inj hv).trans hshown.symm)

/-- What a visitor changes of a curve whose fields show a text and a colour, if a colour is chosen. -/
def asked (s : Session) (pressed : List String) (id text color chosen : String) : Request :=
  { text? := changed? text (s.field ("expr-" ++ id) text)
    color? := changed? color chosen
    toggled := pressed.contains ("vis-" ++ id) }

/-- The name of the colour that is chosen for a curve. -/
def chosenName (s : Session) (id color : String) : String :=
  s.field ("color-" ++ id) ((Palette.options.map Named.name).getD (optionIndex color) "")

theorem replace_eq_ok (hids : ∀ d ∈ curves, d.id? ≠ none) (id : String) (c : Curve) :
    replace id c curves = .ok (Curve.alter id (fun _ => c) curves) := by
  induction curves with
  | nil => rfl
  | cons d curves ih =>
    obtain ⟨i, hi⟩ := Option.ne_none_iff_exists'.mp (hids d List.mem_cons_self)
    have hrest := ih fun d' hd' => hids d' (List.mem_cons_of_mem d hd')
    unfold replace at hrest ⊢
    rw [List.mapM_cons, hrest, hi]
    simp [required, Curve.alter, hi, bind, Except.bind, pure, Except.pure]

theorem ids_alter (hids : ∀ d ∈ curves, d.id? ≠ none) (hid : c.id? = some id) :
    ∀ d ∈ Curve.alter id (fun _ => c) curves, d.id? ≠ none := by
  intro d hd
  obtain ⟨d', hd', rfl⟩ := List.mem_map.mp hd
  split_ifs
  · simp [hid]
  · exact hids d' hd'

section Changes

variable {n : ℕ}

variable (hdistinct : (curves.map Curve.id?).Nodup) (hids : ∀ d ∈ curves, d.id? ≠ none)
  (hc : c ∈ curves) (hid : c.id? = some id) (r : Request)

include hdistinct hc hid in
theorem textEntered_eq_ok (levels : ℕ) (hr : r.text? = changed? text entered) :
    textEntered levels id text entered curves = .ok (Curve.alter id (fun _ => r.read (levels - 4) c) curves) := by
  unfold textEntered Request.read
  rw [hr, changed?]
  split_ifs with hsame
  · have hkept := Curve.alter_eq_of_mem hdistinct hc hid fun c => c
    rw [Curve.alter_self] at hkept
    rw [Option.elim_none, ← hkept]
  · rw [Curve.update_eq_ok (Expression.parse_eq_ok (by decide) Expression.tellable_default _ _), Curve.alter_eq_of_mem hdistinct hc hid]
    rfl

include hids hid in
theorem colorChosen_eq_ok (hr : r.color? = changed? color chosen) :
    colorChosen id color chosen c (Curve.alter id (fun _ => r.read n c) curves) =
      .ok (Curve.alter id (fun _ => r.drawn n c) curves) := by
  have hread : (r.read n c).id? = some id := (r.id?_read n c).trans hid
  unfold colorChosen Request.drawn
  rw [hr, changed?]
  split_ifs with hsame
  · rfl
  · rw [replace_eq_ok (ids_alter hids hread), Curve.alter_alter hread]
    rfl

include hids hid in
theorem visibilityPressed_eq_ok :
    visibilityPressed id r.toggled c (Curve.alter id (fun _ => r.drawn n c) curves) =
      .ok (Curve.alter id (fun _ => r.held n c) curves) := by
  have hdrawn : (r.drawn n c).id? = some id := (r.id?_drawn n c).trans hid
  unfold visibilityPressed Request.held
  split_ifs with hpressed
  · rw [replace_eq_ok (ids_alter hids hdrawn), Curve.alter_alter hdrawn]
  · rfl

end Changes

/-- The part of the pass leaves one record in the place of the curve. -/
theorem left_edit (hdistinct : (p.session.curves.map Curve.id?).Nodup)
    (hids : ∀ d ∈ p.session.curves, d.id? ≠ none) (hc : c ∈ p.session.curves)
    (hid : c.id? = some id) (htext : c.expression? = some text) (hcolor : c.color? = some color)
    (hchosen : colorNamed (chosenName p.session id color) = .ok chosen)
    (hdelete : "del-" ++ id ∉ pressed) :
    (edit levels pressed c).left p =
      { p.session with
        curves := Curve.alter id (fun _ => (asked p.session pressed id text color chosen).held (levels - 5) c)
          p.session.curves } := by
  let r := asked p.session pressed id text color chosen
  -- A text is entered by id; among distinct ids that is a change of the record `c` alone.
  have hread := textEntered_eq_ok hdistinct hc hid r (levels - 1) rfl
  have hdrawn := colorChosen_eq_ok (n := levels - 5) hids hid r rfl
  have hheld := visibilityPressed_eq_ok (n := levels - 5) hids hid r
  have hstays : pressed.contains ("del-" ++ id) = false := by simpa using hdelete
  unfold edit
  rw [hid, htext, hcolor]
  refine Pass.left_bind (Pass.yields_require rfl _) ?_
  refine Pass.left_bind (Pass.yields_require rfl _) ?_
  refine Pass.left_bind (Pass.yields_textInput _ _ _) ?_
  refine Pass.left_bind (Pass.yields_changeCurves hread) ?_
  refine Pass.left_bind (Pass.yields_require rfl _) ?_
  refine Pass.left_bind (Pass.yields_choice _ _ _ _) ?_
  refine Pass.left_bind (Pass.yields_require hchosen _) ?_
  refine Pass.left_bind (Pass.yields_changeCurves hdrawn) ?_
  refine Pass.left_bind (Pass.yields_button _ _ _ _) ?_
  refine Pass.left_bind (Pass.yields_changeCurves hheld) ?_
  refine Pass.left_bind (Pass.yields_button _ _ _ _) ?_
  rw [hstays]
  -- What is left is the caption, which may fail but changes no session.
  refine Pass.left_bind (Pass.yields_session _) ?_
  split
  · exact Pass.left_require_put _ _ _
  · rfl

/-- The part of a pass that edits one curve, which it is not asked to delete, changes nothing of the
session but the record of that curve. The record that is held then has every change that is asked for
exactly if there is at most one: of several, all but the last are lost. -/
theorem edit_holds_all_changes_iff (hdistinct : (p.session.curves.map Curve.id?).Nodup)
    (hids : ∀ d ∈ p.session.curves, d.id? ≠ none) (hc : c ∈ p.session.curves)
    (hid : c.id? = some id) (htext : c.expression? = some text) (hcolor : c.color? = some color)
    (hchosen : colorNamed (chosenName p.session id color) = .ok chosen)
    (hdelete : "del-" ++ id ∉ pressed) :
    let r := asked p.session pressed id text color chosen
    (edit levels pressed c).left p =
        { p.session with
          curves := p.session.curves.map fun d => if d.id? = some id then r.held (levels - 5) c else d } ∧
      (r.held (levels - 5) c = r.all (levels - 5) c ↔ r.count ≤ 1) := by
  intro r
  have htext' : ∀ t ∈ r.text?, c.expression? ≠ some t := fun t ht h =>
    ne_of_mem_changed? ht (Option.some.inj (htext.symm.trans h))
  have hcolor' : ∀ k ∈ r.color?, c.color? ≠ some k := fun k hk h =>
    ne_of_mem_changed? hk (Option.some.inj (hcolor.symm.trans h))
  exact ⟨left_edit hdistinct hids hc hid htext hcolor hchosen hdelete,
    r.held_eq_all_iff (levels - 5) htext' hcolor'⟩

/-- A colour that is chosen together with a text takes the text back. -/
theorem edit_loses_text_to_color :
    let c : Curve := ⟨some "a", some "x^2", some [0, 0, 1], some "#000000", some true, some true⟩
    let fields := [("expr-a", "x"), ("color-a", "Red")]
    let s : Session := { curves := [c], viewport := Session.firstViewport, fields }
    let r : Request := ⟨some "x", some "#dc2626", false⟩
    colorNamed (chosenName s "a" "#000000") = .ok "#dc2626" ∧
      asked s [] "a" "x^2" "#000000" "#dc2626" = r ∧
      (edit 100 [] c).left { session := s } = { s with curves := [c.recolor "#dc2626"] } ∧
      c.recolor "#dc2626" ≠ r.all 95 c := by
  intro c fields s r
  have hchosen : colorNamed (chosenName s "a" "#000000") = .ok "#dc2626" := by decide
  have hasked : asked s [] "a" "x^2" "#000000" "#dc2626" = r := rfl
  obtain ⟨hleft, hiff⟩ :=
    @edit_holds_all_changes_iff { session := s } 100 [] c "a" "x^2" "#000000" "#dc2626"
      (List.nodup_singleton _) (by simp [s, c]) List.mem_cons_self rfl rfl rfl hchosen (by simp)
  have hcount : ¬ r.count ≤ 1 := by decide
  exact ⟨hchosen, hasked, hleft, fun hall => hcount (hiff.mp hall)⟩

end PolyPlot.Page.Editor
