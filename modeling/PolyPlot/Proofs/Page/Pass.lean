import PolyPlot.Page.Pass

namespace PolyPlot.Page.Pass

variable {α β : Type} {p q : Progress}

/-- A part of a pass that has come to a progress yields a value, at a later progress. -/
def Yields (part : Pass α) (p : Progress) (a : α) (q : Progress) : Prop :=
  part.run.run p = (.ok a, q)

/-- The session that a part of a pass leaves, whether or not the pass ends with it. -/
def left (part : Pass α) (p : Progress) : Session :=
  (part.run.run p).2.session

theorem left_bind {part : Pass α} {next : α → Pass β} {a : α} {s : Session} (h : Yields part p a q)
    (hnext : (next a).left q = s) : (part >>= next).left p = s := by
  unfold left
  rw [ExceptT.run_bind, StateT.run_bind, h]
  exact hnext

theorem Yields.bind {part : Pass α} {next : α → Pass β} {a : α} {b : β} {r : Progress}
    (h : Yields part p a q) (hnext : Yields (next a) q b r) : Yields (part >>= next) p b r := by
  unfold Yields
  rw [ExceptT.run_bind, StateT.run_bind, h]
  exact hnext

theorem yields_session (p : Progress) : Yields session p p.session p :=
  rfl

theorem yields_require {result : Except Failure α} {a : α} (h : result = .ok a) (p : Progress) :
    Yields (require result) p a p := by
  rw [h]
  rfl

theorem yields_textInput (name default : String) (p : Progress) :
    Yields (textInput name default) p (p.session.field name default)
      { p with shown := p.shown ++ [.textInput name (p.session.field name default)] } :=
  rfl

theorem yields_choice (name : String) (options : List String) (default : Nat) (p : Progress) :
    let value := p.session.field name (options.getD default "")
    Yields (choice name options default) p value
      { p with shown := p.shown ++ [.choice name value options.length] } :=
  rfl

theorem yields_button (pressed : List String) (name label : String) (p : Progress) :
    Yields (button pressed name label) p (pressed.contains name)
      { p with shown := p.shown ++ [.button name label] } :=
  rfl

theorem yields_changeCurves {change : List Curve → Except Failure (List Curve)} {curves : List Curve}
    (h : change p.session.curves = .ok curves) :
    Yields (changeCurves change) p () { p with session := { p.session with curves } } := by
  refine (yields_session p).bind ?_
  exact (yields_require h p).bind rfl

/-- A requirement leaves the session as it is, also if it is not met. -/
theorem left_require_put (result : Except Failure String) (e : String → Element) (p : Progress) :
    (do put (e (← require result)) : Pass Unit).left p = p.session := by
  cases result with
  | error failure => rfl
  | ok text => rfl

section Keeps

variable {P : Session → Prop} {Q : α → Prop} {R : β → Prop}

/-- From wherever it starts, a part of a pass keeps what holds of the session, and the value that it yields
has a property. -/
def Keeps (P : Session → Prop) (part : Pass α) (Q : α → Prop) : Prop :=
  ∀ p, P p.session → P (part.left p) ∧ ∀ a q, Yields part p a q → Q a

theorem Keeps.bind {part : Pass α} {next : α → Pass β} (h : Keeps P part Q)
    (hnext : ∀ a, Q a → Keeps P (next a) R) : Keeps P (part >>= next) R := by
  intro p hp
  obtain ⟨hleft, hvalue⟩ := h p hp
  unfold left Yields at *
  rw [ExceptT.run_bind, StateT.run_bind]
  generalize part.run.run p = outcome at *
  obtain ⟨result, q⟩ := outcome
  cases result with
  | error interruption => exact ⟨hleft, fun b r h => by cases h⟩
  | ok a => exact hnext a (hvalue a q rfl) q hleft

theorem Keeps.mono {part : Pass α} {Q' : α → Prop} (h : Keeps P part Q) (hQ : ∀ a, Q a → Q' a) :
    Keeps P part Q' := by
  intro p hp
  obtain ⟨hleft, hvalue⟩ := h p hp
  exact ⟨hleft, fun a q ha => hQ a (hvalue a q ha)⟩

theorem keeps_pure {a : α} (ha : Q a) : Keeps P (pure a) Q := by
  intro p hp
  exact ⟨hp, fun b q h => by cases h; exact ha⟩

theorem keeps_session : Keeps P session P := by
  intro p hp
  exact ⟨hp, fun s q h => by cases h; exact hp⟩

theorem keeps_setSession {s : Session} (hs : P s) : Keeps P (setSession s) fun _ => True :=
  fun _ _ => ⟨hs, fun _ _ _ => trivial⟩

theorem keeps_require (result : Except Failure α) : Keeps P (require result) fun a => result = .ok a := by
  intro p hp
  cases result with
  | error failure => exact ⟨hp, fun b q h => by cases h⟩
  | ok a => exact ⟨hp, fun b q h => by cases h; rfl⟩

/-- Nothing of the pass comes after it is ended. -/
theorem keeps_rerun : Keeps P rerun fun _ => False := by
  intro p hp
  exact ⟨hp, fun a q h => by cases h⟩

theorem keeps_put (e : Element) : Keeps P (put e) fun _ => True :=
  fun _ hp => ⟨hp, fun _ _ _ => trivial⟩

theorem keeps_textInput (name default : String) : Keeps P (textInput name default) fun _ => True :=
  fun _ hp => ⟨hp, fun _ _ _ => trivial⟩

theorem keeps_choice (name : String) (options : List String) (default : Nat) :
    Keeps P (choice name options default) fun _ => True :=
  fun _ hp => ⟨hp, fun _ _ _ => trivial⟩

theorem keeps_button (pressed : List String) (name label : String) :
    Keeps P (button pressed name label) fun _ => True :=
  fun _ hp => ⟨hp, fun _ _ _ => trivial⟩

/-- What does not depend on the curves is kept when they change. -/
theorem keeps_changeCurves (hP : ∀ s curves, P s → P { s with curves })
    (change : List Curve → Except Failure (List Curve)) :
    Keeps P (changeCurves change) fun _ => True := by
  refine keeps_session.bind fun s hs => ?_
  refine (keeps_require _).bind fun curves _ => ?_
  exact keeps_setSession (hP s curves hs)

theorem keeps_forM {l : List α} {part : α → Pass Unit} (h : ∀ a ∈ l, Keeps P (part a) fun _ => True) :
    Keeps P (l.forM part) fun _ => True := by
  induction l with
  | nil => exact keeps_pure trivial
  | cons a l ih =>
    rw [List.forall_mem_cons] at h
    exact h.1.bind fun _ _ => ih h.2

theorem keeps_foldlM {l : List α} {part : β → α → Pass β} {b : β} (hb : R b)
    (h : ∀ b, R b → ∀ a ∈ l, Keeps P (part b a) R) : Keeps P (l.foldlM part b) R := by
  induction l generalizing b with
  | nil => exact keeps_pure hb
  | cons a l ih =>
    have hfirst := h b hb a List.mem_cons_self
    have hrest (b' : β) (hb' : R b') := ih hb' fun c hc d hd => h c hc d (List.mem_cons_of_mem a hd)
    exact hfirst.bind hrest

end Keeps

end PolyPlot.Page.Pass
