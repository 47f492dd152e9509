namespace PolyPlot

variable {ε δ α β : Type}

theorem ok_bind (a : α) (next : α → Except ε β) : (.ok a >>= next) = next a := rfl

theorem bind_eq_ok_iff {first : Except ε α} {next : α → Except ε β} {b : β} :
    first >>= next = .ok b ↔ ∃ a, first = .ok a ∧ next a = .ok b := by
  cases first with
  | error e => simp [bind, Except.bind]
  | ok a => simp [bind, Except.bind]

theorem bind_eq_error_iff {first : Except ε α} {next : α → Except ε β} {e : ε} :
    first >>= next = .error e ↔ first = .error e ∨ ∃ a, first = .ok a ∧ next a = .error e := by
  cases first with
  | error e => simp [bind, Except.bind]
  | ok a => simp [bind, Except.bind]

theorem bind_ne_error {first : Except ε α} {next : α → Except ε β} {e : ε} (hfirst : first ≠ .error e)
    (hnext : ∀ a, next a ≠ .error e) : first >>= next ≠ .error e := by
  rw [Ne, bind_eq_error_iff]
  rintro (h | ⟨a, -, h⟩)
  · exact hfirst h
  · exact hnext a h

theorem map_eq_ok_iff {first : Except ε α} {f : α → β} {b : β} :
    first.map f = .ok b ↔ ∃ a, first = .ok a ∧ f a = b := by
  cases first with
  | error e => simp [Except.map]
  | ok a => simp [Except.map]

theorem mapError_eq_ok_iff {first : Except ε α} {f : ε → δ} {a : α} :
    first.mapError f = .ok a ↔ first = .ok a := by
  constructor
  · intro h
    cases first with
    | error e => cases h
    | ok a =>
      cases h
      rfl
  · rintro rfl
    rfl

theorem mapError_eq_error_iff {first : Except ε α} {f : ε → δ} {d : δ} :
    first.mapError f = .error d ↔ ∃ e, first = .error e ∧ f e = d := by
  constructor
  · intro h
    cases first with
    | error e =>
      cases h
      exact ⟨e, rfl, rfl⟩
    | ok a => cases h
  · rintro ⟨e, rfl, rfl⟩
    rfl

/-- What a computation comes to, but for the value that it gives. -/
def discard (first : Except ε α) : Except ε Unit :=
  first.map fun _ => ()

theorem discard_eq_ok_iff {first : Except ε α} : discard first = .ok () ↔ ∃ a, first = .ok a := by
  cases first with
  | error e => simp [discard, Except.map]
  | ok a => simp [discard, Except.map]

theorem discard_eq_error_iff {first : Except ε α} {e : ε} : discard first = .error e ↔ first = .error e := by
  cases first with
  | error e => simp [discard, Except.map]
  | ok a => simp [discard, Except.map]

theorem discard_map (first : Except ε α) (f : α → β) : discard (first.map f) = discard first := by
  cases first with
  | error e => rfl
  | ok a => rfl

/-- Steps whose errors do not depend on the values of those before them. -/
theorem discard_bind {first : Except ε α} {next : α → Except ε β} {rest : Except ε Unit}
    (h : ∀ a, first = .ok a → discard (next a) = rest) :
    discard (first >>= next) = discard first >>= fun _ => rest := by
  cases first with
  | error e => rfl
  | ok a => exact h a rfl

theorem forM_eq_ok_iff {l : List α} {check : α → Except ε Unit} :
    forM l check = .ok () ↔ ∀ a ∈ l, check a = .ok () := by
  induction l with
  | nil => simp [pure, Except.pure]
  | cons a l ih =>
    rw [List.forM_cons, bind_eq_ok_iff, List.forall_mem_cons, ← ih]
    constructor
    · rintro ⟨⟨⟩, ha, h⟩
      exact ⟨ha, h⟩
    · rintro ⟨ha, h⟩
      exact ⟨(), ha, h⟩

/-- A run of checks ends with the error of the first one that fails. -/
theorem forM_eq_error_iff {l : List α} {check : α → Except ε Unit} {e : ε} :
    forM l check = .error e ↔ ∃ before a after, l = before ++ a :: after ∧
      (∀ b ∈ before, check b = .ok ()) ∧ check a = .error e := by
  induction l with
  | nil => simp [pure, Except.pure]
  | cons a l ih =>
    rw [List.forM_cons, bind_eq_error_iff]
    constructor
    · rintro (h | ⟨⟨⟩, ha, h⟩)
      · exact ⟨[], a, l, rfl, by simp, h⟩
      · obtain ⟨before, b, after, rfl, hbefore, hb⟩ := ih.mp h
        exact ⟨a :: before, b, after, rfl, List.forall_mem_cons.mpr ⟨ha, hbefore⟩, hb⟩
    · rintro ⟨before, b, after, heq, hbefore, hb⟩
      cases before with
      | nil =>
        cases heq
        exact .inl hb
      | cons c before =>
        cases heq
        obtain ⟨ha, hbefore⟩ := List.forall_mem_cons.mp hbefore
        exact .inr ⟨(), ha, ih.mpr ⟨before, b, after, rfl, hbefore, hb⟩⟩

theorem mapM_eq_ok_map {l : List α} {f : α → Except ε β} {g : α → β} (h : ∀ a ∈ l, f a = .ok (g a)) :
    l.mapM f = .ok (l.map g) := by
  induction l with
  | nil => rfl
  | cons a l ih =>
    obtain ⟨ha, hl⟩ := List.forall_mem_cons.mp h
    rw [List.mapM_cons, ha, ih hl]
    rfl

theorem mapM_ne_error {l : List α} {f : α → Except ε β} {e : ε} (h : ∀ a, f a ≠ .error e) :
    l.mapM f ≠ .error e := by
  induction l with
  | nil => exact nofun
  | cons a l ih =>
    rw [List.mapM_cons]
    exact bind_ne_error (h a) fun b => bind_ne_error ih fun c => nofun

/-- Where no other error can occur, one is enough. -/
theorem mapM_eq_error {l : List α} {f : α → Except ε β} {e : ε}
    (h : ∀ a ∈ l, (∃ b, f a = .ok b) ∨ f a = .error e) (herror : ∃ a ∈ l, f a = .error e) :
    l.mapM f = .error e := by
  induction l with
  | nil =>
    obtain ⟨a, ha, -⟩ := herror
    cases ha
  | cons a l ih =>
    obtain ⟨ha, hl⟩ := List.forall_mem_cons.mp h
    rw [List.mapM_cons]
    rcases ha with ⟨b, hb⟩ | ha
    · have hrest : ∃ c ∈ l, f c = .error e := by
        obtain ⟨c, hc, hfails⟩ := herror
        rcases List.mem_cons.mp hc with rfl | hc
        · cases hb.symm.trans hfails
        · exact ⟨c, hc, hfails⟩
      rw [hb, ih hl hrest]
      rfl
    · rw [ha]
      rfl

end PolyPlot
