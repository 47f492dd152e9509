import Mathlib.Data.List.Nodup
import PolyPlot.Curve.Basic
import PolyPlot.Proofs.Evaluation.Outcome

namespace PolyPlot.Curve

open Expression

variable {o : Options} {levels : ℕ} {id i text : String} {f : Curve → Curve} {c d : Curve}
  {curves : List Curve} {r? : Option (Coeffs Float)}

/-- A curve with a text entered that is compiled with so many levels left. -/
def entered (levels : ℕ) (o : Options) (text : String) (c : Curve) : Curve :=
  { c with
    expression? := some text
    coefficients? := (compile levels o text).toOption <|> c.coefficients?
    valid? := some (compile levels o text).isOk }

/-- A list of curves with a change made to every one with an id. -/
def alter (id : String) (f : Curve → Curve) (curves : List Curve) : List Curve :=
  curves.map fun c => if c.id? = some id then f c else c

@[simp] theorem id?_entered (levels : ℕ) (o : Options) (text : String) (c : Curve) :
    (c.entered levels o text).id? = c.id? :=
  rfl

@[simp] theorem id?_toggle (c : Curve) : c.toggle.id? = c.id? :=
  rfl

@[simp] theorem id?_recolor (color : String) (c : Curve) : (c.recolor color).id? = c.id? :=
  rfl

theorem applyExpression_eq_ok (h : parse (levels - 1) o text = .ok r?) (c : Curve) :
    c.applyExpression levels o text = .ok (c.entered (levels - 2) o text) := by
  have hcompile : compile (levels - 2) o text = compile (levels - 1 - 1) o text := rfl
  unfold applyExpression entered
  rw [h, hcompile]
  unfold parse at h
  split at h
  · next p hp =>
    cases h
    rw [hp]
    rfl
  · next e he =>
    cases h
    rw [he]
    rfl
  · cases h

theorem update_eq_ok (h : parse (levels - 3) o text = .ok r?) (id : String) (curves : List Curve) :
    update levels o id text curves = .ok (alter id (entered (levels - 4) o text) curves) := by
  have hparse : parse (levels - 2 - 1) o text = .ok r? := h
  have hone : (fun c : Curve => if c.id? = some id then c.applyExpression (levels - 2) o text else .ok c) =
      fun c => pure (if c.id? = some id then c.entered (levels - 4) o text else c) := by
    funext c
    rw [applyExpression_eq_ok hparse]
    split_ifs <;> rfl
  unfold update alter
  rw [hone]
  exact List.mapM_pure

/-- A curve is added if its expression is compiled, and the list stays as it is if not. -/
theorem add_eq (levels : ℕ) (o : Options) (text id : String) (curves : List Curve) :
    add levels o text id curves = (compile (levels - 2) o text).map fun p => curves ++
      [⟨some id, some text, some p, some (Palette.color curves.length), some true, some true⟩] := by
  have hcompile : compile (levels - 1 - 1) o text = compile (levels - 2) o text := rfl
  unfold add build
  rw [hcompile]
  cases compile (levels - 2) o text with
  | error f => rfl
  | ok p => rfl

/-- A change that keeps ids has no effect on the records with other ids. -/
theorem filter_alter (hf : ∀ c, (f c).id? = c.id?) (id : String) (curves : List Curve) :
    (alter id f curves).filter (fun c => c.id? ≠ some id) =
      curves.filter fun c => c.id? ≠ some id := by
  induction curves with
  | nil => rfl
  | cons c curves ih =>
    unfold alter at ih ⊢
    rw [List.map_cons]
    by_cases hc : c.id? = some id
    · rw [if_pos hc, List.filter_cons_of_neg (by simp [hf, hc]), List.filter_cons_of_neg (by simp [hc])]
      exact ih
    · rw [if_neg hc, List.filter_cons_of_pos (by simp [hc]), List.filter_cons_of_pos (by simp [hc]), ih]

theorem filter_remove (id : String) (curves : List Curve) :
    (remove id curves).filter (fun c => c.id? ≠ some id) =
      curves.filter fun c => c.id? ≠ some id := by
  unfold remove
  rw [List.filter_filter]
  simp

theorem alter_self (id : String) (curves : List Curve) : alter id (fun c => c) curves = curves := by
  unfold alter
  simp

/-- Among distinct ids a change is made to one record, so that it may as well be put in its place. -/
theorem alter_eq_of_mem (hdistinct : (curves.map Curve.id?).Nodup) (hc : c ∈ curves)
    (hid : c.id? = some id) (f : Curve → Curve) : alter id f curves = alter id (fun _ => f c) curves := by
  refine List.map_congr_left fun d hd => ?_
  by_cases hd' : d.id? = some id
  · have heq : d = c := List.inj_on_of_nodup_map hdistinct hd hc (hd'.trans hid.symm)
    rw [heq]
  · rw [if_neg hd', if_neg hd']

/-- Of two records put in one place the later stays. -/
theorem alter_alter (hd : d.id? = some id) (c : Curve) (curves : List Curve) :
    alter id (fun _ => c) (alter id (fun _ => d) curves) = alter id (fun _ => c) curves := by
  unfold alter
  rw [List.map_map]
  refine List.map_congr_left fun d' _ => ?_
  by_cases hd' : d'.id? = some id
  · simp [hd', hd]
  · simp [hd']

end PolyPlot.Curve
