import PolyPlot.Proofs.Coeffs.Trim
import PolyPlot.Proofs.Double.Order
import PolyPlot.Proofs.Evaluation.Compilation

namespace PolyPlot

/-- The second limits let through whatever the first ones do. -/
structure Limits.Looser (limits limits' : Limits Float) : Prop where
  epsilon : limits'.epsilon ≤ limits.epsilon
  maxExponent : limits.maxExponent ≤ limits'.maxExponent

namespace Tree

variable {limits limits' : Limits Float} {t : Tree Float} {p q r : Coeffs Float} {levels : Option ℕ}

theorem combine_of_looser {op : Operator} (hlimits : limits.Looser limits')
    (h : combine limits op p q = .ok r) : combine limits' op p q = .ok r := by
  cases op with
  | add | subtract | multiply => exact h
  | divide =>
    obtain ⟨d, hd, hlarge, hr⟩ := quotient_eq_ok_iff_exists.mp h
    have hlarge' : ¬ d.abs < limits'.epsilon := fun hsmall =>
      hlarge (Double.lt_of_lt_le hsmall hlimits.epsilon)
    exact quotient_eq_ok_iff_exists.mpr ⟨d, hd, hlarge', hr⟩

theorem raise_of_looser {n : ℤ} (hlimits : limits.Looser limits') (h : raise limits p n = .ok r) :
    raise limits' p n = .ok r := by
  obtain ⟨⟨hnonneg, hmost⟩, hr⟩ := raise_eq_ok_iff.mp h
  exact raise_eq_ok_iff.mpr ⟨⟨hnonneg, hmost.trans hlimits.maxExponent⟩, hr⟩

/-- The vector of a tree is the same under looser limits. The limits only refuse operands and exponents;
no step computes with them, so that an overflow is the same as well. -/
theorem Evaluates.of_looser (hlimits : limits.Looser limits') (h : Evaluates limits t p) :
    Evaluates limits' t p := by
  induction h with
  | literal v => exact .literal v
  | x => exact .x
  | negate _ ih => exact .negate ih
  | binary _ _ hr iha ihb => exact .binary iha ihb (combine_of_looser hlimits hr)
  | power _ _ hn hr ihb ihe => exact .power ihb ihe hn (raise_of_looser hlimits hr)

theorem evaluateUpTo_of_looser (hlimits : limits.Looser limits')
    (h : t.evaluateUpTo limits levels = .ok p) : t.evaluateUpTo limits' levels = .ok p := by
  obtain ⟨hheight, heval⟩ := evaluateUpTo_eq_ok_iff.mp h
  exact evaluateUpTo_eq_ok_iff.mpr ⟨hheight, heval.of_looser hlimits⟩

end Tree

namespace Expression

variable {o o' : Options} {levels : Option ℕ} {text : String} {p : Coeffs Float}

/-- The second options let through whatever the first ones do. -/
structure Options.Looser (o o' : Options) : Prop where
  limits : o.limits.Looser o'.limits
  maxLength : ∀ limit' ∈ o'.maxLength, ∃ limit ∈ o.maxLength, limit ≤ limit'

theorem screen_of_looser {cap? cap'? : Option ℤ} (hcap : ∀ cap' ∈ cap'?, ∃ cap ∈ cap?, cap ≤ cap')
    (h : screen cap? text = .ok ()) : screen cap'? text = .ok () := by
  unfold screen at h ⊢
  split at h
  · cases h
  · next hblank =>
    rw [if_neg hblank]
    cases cap'? with
    | none => rfl
    | some cap' =>
      obtain ⟨cap, hmem, hle⟩ := hcap cap' rfl
      rw [Option.mem_def.mp hmem] at h
      dsimp only at h ⊢
      split at h
      · exact absurd h (Error.refuse_ne_ok ())
      · next hshort => exact if_neg (by omega)

theorem rawVector_of_looser (ho : o.Looser o')
    (h : rawVector id o.limits levels o.maxLength text = .ok p) :
    rawVector id o'.limits levels o'.maxLength text = .ok p := by
  obtain ⟨hscreen, t, hread, hevaluate, hfinite⟩ := rawVector_eq_ok_iff.mp h
  exact rawVector_eq_ok_iff.mpr ⟨screen_of_looser ho.maxLength hscreen, t, hread,
    Tree.evaluateUpTo_of_looser ho.limits hevaluate, hfinite⟩

/-- Under looser options every tree that has a vector has the same one, and every expression that has a
vector has one as well, of which the vector under the tighter options is the first part. -/
theorem isPrefix_of_looser (ho : o.Looser o') (levels : Option ℕ) :
    (∀ t p, Tree.evaluateUpTo o.limits levels t = .ok p →
      Tree.evaluateUpTo o'.limits levels t = .ok p) ∧
    ∀ text c, compileWith id o.limits levels o.maxLength text = .ok c →
      ∃ c', compileWith id o'.limits levels o'.maxLength text = .ok c' ∧ c <+: c' := by
  refine ⟨fun t p h => Tree.evaluateUpTo_of_looser ho.limits h, fun text c h => ?_⟩
  obtain ⟨raw, hraw, rfl⟩ := map_eq_ok_iff.mp h
  refine ⟨raw.canonical o'.epsilon, map_eq_ok_iff.mpr ⟨raw, rawVector_of_looser ho hraw, rfl⟩, ?_⟩
  exact Coeffs.canonical_isPrefix_canonical
    (fun a hsmall => Double.lt_of_lt_le hsmall ho.limits.epsilon) raw

/-- A greater tolerance drops the last coefficient, and a third power is within both limits. -/
theorem isPrefix_of_usual_options :
    (⟨0.01, 3, some 20⟩ : Options).Looser {} ∧
      compile 100 ⟨0.01, 3, some 20⟩ "x/0.5 + 0.001x^3" = .ok [0, 2] ∧
      compile 100 {} "x/0.5 + 0.001x^3" = .ok [0, 2, 0, 0.001] ∧
      ∃ c', compile 100 {} "x/0.5 + 0.001x^3" = .ok c' ∧ [0, 2] <+: c' := by
  have ho : (⟨0.01, 3, some 20⟩ : Options).Looser {} :=
    ⟨⟨by decide, by decide⟩, fun limit' hlimit' => by cases hlimit'⟩
  have hcompile : compile 100 ⟨0.01, 3, some 20⟩ "x/0.5 + 0.001x^3" = .ok [0, 2] := by decide +kernel
  exact ⟨ho, hcompile, by decide +kernel, (isPrefix_of_looser ho _).2 _ _ hcompile⟩

end Expression

end PolyPlot
