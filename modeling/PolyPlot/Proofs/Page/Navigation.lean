import Mathlib
import PolyPlot.Page.Visit
import PolyPlot.Proofs.Page.Pass
import PolyPlot.Proofs.Plot.Motion

namespace PolyPlot.Page

open Viewport (Move Reaches)

variable {v : Viewport Float} {s t : Session} {levels : ℕ}

/-- That a canvas leads to the one of a session by allowed moves. -/
def LeadsTo (v : Viewport Float) (s : Session) : Prop :=
  v.Reaches s.viewport

theorem Session.viewport_of_add {text : String} (h : s.add levels text = .ok t) : t.viewport = s.viewport := by
  rw [Session.add, bind_eq_ok_iff] at h
  obtain ⟨curves, -, ⟨⟩⟩ := h
  rfl

/-- Each control is a move. -/
theorem exists_move_of_mem_controls {control : String × (Viewport Float → Except Fault (Viewport Float))}
    (h : control ∈ controls) : ∃ m : Move Float, m.Allowed ∧ control.2 = fun v => v.moved m := by
  have hstep : (1 : Float) ≤ Viewport.zoomStep := by decide
  have hleft : panStep.isFinite = true := by decide
  have hright : (-panStep).isFinite = true := by decide
  have hstay : (0 : Float).isFinite = true := by decide
  simp only [controls, List.mem_cons, List.not_mem_nil, or_false] at h
  obtain rfl | rfl | rfl | rfl | rfl | rfl | rfl := h
  · exact ⟨.zoomIn Viewport.zoomStep, hstep, rfl⟩
  · exact ⟨.zoomOut Viewport.zoomStep, hstep, rfl⟩
  · exact ⟨.pan panStep 0, ⟨hleft, hstay⟩, rfl⟩
  · exact ⟨.pan (-panStep) 0, ⟨hright, hstay⟩, rfl⟩
  · exact ⟨.pan 0 panStep, ⟨hstay, hleft⟩, rfl⟩
  · exact ⟨.pan 0 (-panStep), ⟨hstay, hright⟩, rfl⟩
  · exact ⟨.reset, trivial, rfl⟩

namespace Pass

/-- The editor of a curve does not touch the canvas. -/
theorem keeps_edit (levels : ℕ) (pressed : List String) (c : Curve) :
    Keeps (LeadsTo v) (Editor.edit levels pressed c) fun _ => True := by
  have hchange := @keeps_changeCurves (LeadsTo v) fun _ _ hs => hs
  unfold Editor.edit
  refine (keeps_require _).bind fun id _ => ?_
  refine (keeps_require _).bind fun text _ => ?_
  refine (keeps_textInput _ _).bind fun entered _ => ?_
  refine (hchange _).bind fun _ _ => ?_
  refine (keeps_require _).bind fun color _ => ?_
  refine (keeps_choice _ _ _).bind fun name _ => ?_
  refine (keeps_require _).bind fun chosen _ => ?_
  refine (hchange _).bind fun _ _ => ?_
  refine (keeps_button _ _ _).bind fun toggled _ => ?_
  refine (hchange _).bind fun _ _ => ?_
  refine (keeps_button _ _ _).bind fun deleted _ => ?_
  cases deleted with
  | true =>
    refine (hchange _).bind fun _ _ => ?_
    exact keeps_rerun.bind fun _ h => h.elim
  | false =>
    refine keeps_session.bind fun s _ => ?_
    cases Curve.find? id s.curves with
    | none => exact keeps_pure trivial
    | some latest => exact (keeps_require _).bind fun text _ => keeps_put _

theorem keeps_addition (levels : ℕ) (pressed : List String) :
    Keeps (LeadsTo v) (addition levels pressed) fun _ => True := by
  unfold addition
  refine (keeps_textInput _ _).bind fun entered _ => ?_
  refine (keeps_choice _ _ _).bind fun chosen _ => ?_
  refine (keeps_button _ _ _).bind fun added _ => ?_
  cases added with
  | false => exact keeps_pure trivial
  | true =>
    refine (keeps_require _).bind fun text _ => ?_
    refine keeps_session.bind fun s hs => ?_
    cases h : s.add (levels - 1) text with
    | ok t =>
      have ht : LeadsTo v t := by
        rw [LeadsTo, Session.viewport_of_add h]
        exact hs
      exact (keeps_setSession ht).bind fun _ _ => keeps_rerun.mono fun _ h => h.elim
    | error failure =>
      cases failure with
      | refused e => exact keeps_put _
      | fault f => exact (keeps_require _).mono fun _ _ => trivial

theorem keeps_navigation (pressed : List String) :
    Keeps (LeadsTo v) (navigation pressed) fun _ => True := by
  refine keeps_session.bind fun s hs => ?_
  refine Keeps.bind (Q := v.Reaches) (keeps_foldlM hs ?_) ?_
  · intro w hw control hcontrol
    obtain ⟨m, hm, hmove⟩ := exists_move_of_mem_controls hcontrol
    refine (keeps_button _ _ _).bind fun isPressed _ => ?_
    cases isPressed with
    | false => exact keeps_pure hw
    | true =>
      refine (keeps_require _).mono fun w' hw' => ?_
      rw [mapError_eq_ok_iff, hmove] at hw'
      exact hw.moved hm hw'
  · intro w hw
    exact (keeps_setSession hw).bind fun _ _ => keeps_put _

theorem keeps_whole (levels : ℕ) (pressed : List String) :
    Keeps (LeadsTo v) (whole levels pressed) fun _ => True := by
  refine (keeps_put _).bind fun _ _ => ?_
  refine (keeps_put _).bind fun _ _ => ?_
  refine (keeps_put _).bind fun _ _ => ?_
  refine keeps_session.bind fun s _ => ?_
  refine (keeps_forM fun c _ => keeps_edit _ pressed c).bind fun _ _ => ?_
  refine (keeps_addition levels pressed).bind fun _ _ => ?_
  refine (keeps_navigation pressed).bind fun _ _ => ?_
  refine keeps_session.bind fun s' _ => ?_
  exact (keeps_require _).mono fun _ _ => trivial

end Pass

theorem leadsTo_runPass (hs : LeadsTo v s) (levels : ℕ) (pressed : List String) :
    LeadsTo v (runPass levels pressed s).2.session :=
  (Pass.keeps_whole levels pressed { session := s } hs).1

theorem anew_session (levels : ℕ) (s : Session) : (anew levels s).2 = (runPass levels [] s).2.session := by
  unfold anew
  obtain ⟨result, p⟩ := runPass levels [] s
  cases result with
  | ok figure => rfl
  | error interruption => cases interruption <;> rfl

/-- What the visitor does at once leads to another canvas by moves. -/
theorem leadsTo_visit (hs : LeadsTo v s) (levels : ℕ) (i : Interaction) :
    LeadsTo v (visit levels i s).2 := by
  have hentered : LeadsTo v (s.enter i.entered) := hs
  have hfirst := leadsTo_runPass hentered levels i.pressed
  unfold visit
  generalize runPass levels i.pressed (s.enter i.entered) = outcome at *
  obtain ⟨result, p⟩ := outcome
  cases result with
  | ok figure => exact hfirst
  | error interruption =>
    cases interruption with
    | failed failure => exact hfirst
    | rerun =>
      change LeadsTo v (anew levels p.session).2
      rw [anew_session]
      exact leadsTo_runPass hfirst levels []

/-- The session after all that a visitor does, one thing after the other. -/
def Session.after (levels : ℕ) (interactions : List Interaction) (s : Session) : Session :=
  interactions.foldl (fun s i => (visit levels i s).2) s

/-- A whole visit leads from canvas to canvas by moves. -/
theorem leadsTo_after (hs : LeadsTo v s) (levels : ℕ) (interactions : List Interaction) :
    LeadsTo v (s.after levels interactions) := by
  induction interactions generalizing s with
  | nil => exact hs
  | cons i interactions ih => exact ih (leadsTo_visit hs levels i)

theorem Session.viewport_start (levels : ℕ) (curves? : Option (List Curve))
    (viewport? : Option (Viewport Float)) :
    (Session.start levels curves? viewport?).viewport = viewport?.getD Session.firstViewport := by
  unfold Session.start
  cases curves? with
  | some curves => rfl
  | none =>
    dsimp only
    cases hadd : Session.add levels Session.firstExpression
      { curves := [], viewport := viewport?.getD Session.firstViewport } with
    | ok t => exact viewport_of_add hadd
    | error failure => rfl

theorem Session.inRange_firstViewport : Session.firstViewport.InRange :=
  ⟨⟨by decide, by decide⟩, by decide, by decide⟩

/-- Runs of moves keep a canvas in range and do not change its size or base scale. Without rounding
they move the origin by what was panned since the last reset. No visit to the page divides by zero. -/
theorem moves_keep_range :
    (∀ (v : Viewport Float) (moves : List (Move Float)), v.InRange → (∀ m ∈ moves, m.Allowed) →
      ∃ w, v.movedBy moves = .ok w ∧ Viewport.IsZoom w.zoom ∧ v.SameCanvas w ∧ 0 < w.scale ∧
        ¬ w.DividesByZero) ∧
    (∀ (v : Viewport ℚ) (moves : List (Move ℚ)), v.InRange → (∀ m ∈ moves, m.Allowed) →
      ∃ w, v.movedBy moves = .ok w ∧ Viewport.IsZoom w.zoom ∧ v.SameCanvas w ∧ 0 < w.scale ∧
        w.pan = (if moves.any Move.isReset then 0 else v.pan) +
          ((Viewport.sinceReset moves).map Move.offset).sum) ∧
    (∀ (levels : ℕ) (s : Session) (interactions : List Interaction), s.viewport.InRange →
      s.viewport.Reaches (s.after levels interactions).viewport ∧
      ¬ (s.after levels interactions).viewport.DividesByZero) ∧
    ∀ (levels : ℕ) (curves? : Option (List Curve)) (interactions : List Interaction),
      ¬ ((Session.start levels curves? none).after levels interactions).viewport.DividesByZero := by
  have hvisit (levels : ℕ) (s : Session) (interactions : List Interaction) (hs : s.viewport.InRange) :
      s.viewport.Reaches (s.after levels interactions).viewport ∧
      ¬ (s.after levels interactions).viewport.DividesByZero := by
    have hreaches : s.viewport.Reaches (s.after levels interactions).viewport :=
      leadsTo_after (Reaches.refl s.viewport) levels interactions
    exact ⟨hreaches, (hreaches.inRange hs).1.not_dividesByZero⟩
  refine ⟨?_, ?_, hvisit, ?_⟩
  · intro v moves hv hmoves
    obtain ⟨w, hw, hrange, hsame⟩ := Viewport.exists_movedBy hv hmoves
    exact ⟨w, hw, hrange.isZoom, hsame, hrange.scale_pos, hrange.not_dividesByZero⟩
  · intro v moves hv hmoves
    obtain ⟨w, hw, hrange, hsame⟩ := Viewport.exists_movedBy hv hmoves
    exact ⟨w, hw, hrange.isZoom, hsame, hrange.scale_pos, Viewport.pan_of_movedBy hw⟩
  · intro levels curves? interactions
    apply (hvisit levels _ interactions _).2
    rw [Session.viewport_start]
    exact Session.inRange_firstViewport

/-- Both kinds of moves, exact and rounded, and a visit in which two buttons are pressed at once. -/
theorem moves_keep_range_of_firstViewport :
    (∃ w, Session.firstViewport.movedBy [.zoomIn 3, .pan 7 (-2), .reset, .zoomOut 9] = .ok w ∧
      Viewport.IsZoom w.zoom ∧ Session.firstViewport.SameCanvas w ∧ 0 < w.scale ∧ ¬ w.DividesByZero) ∧
    (∃ w, (Viewport.standard : Viewport ℚ).movedBy [.zoomIn 3, .pan 7 (-2), .zoomOut 9, .pan 1 0] = .ok w ∧
      Viewport.IsZoom w.zoom ∧ Viewport.standard.SameCanvas w ∧ 0 < w.scale ∧ w.pan = (8, -2)) ∧
    ¬ ((Session.start 100 none none).after 100
      [{ pressed := ["+", "−"] }, { pressed := ["Resetar"] }]).viewport.DividesByZero := by
  obtain ⟨hrounded, hexact, -, hvisit⟩ := moves_keep_range
  refine ⟨?_, ?_, hvisit 100 none _⟩
  · exact hrounded _ _ Session.inRange_firstViewport (by decide)
  · obtain ⟨w, hw, hzoom, hsame, hscale, hpan⟩ := hexact Viewport.standard
      [.zoomIn 3, .pan 7 (-2), .zoomOut 9, .pan 1 0] Viewport.inRange_standard (by decide)
    refine ⟨w, hw, hzoom, hsame, hscale, hpan.trans ?_⟩
    decide +kernel

end PolyPlot.Page
