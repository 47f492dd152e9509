import PolyPlot.Proofs.Evaluation.Loosening
import PolyPlot.Proofs.Evaluation.Overflow
import PolyPlot.Proofs.Evaluation.Refusal
import PolyPlot.Proofs.Grammar.Refusal

namespace PolyPlot

namespace Tree

open Expression (Error Failure)

variable {limits : Limits Float} {cap n : ℤ} {t u a b e : Tree Float} {p q : Coeffs Float}

/-- No power in a tree has an exponent above a number. -/
def PowersWithin (limits : Limits Float) (cap : ℤ) (t : Tree Float) : Prop :=
  ∀ b e q n, Occurs (.power b e) t → Evaluates limits e q → exponent q = .ok n → n ≤ cap

/-- The powers in a tree are those in its operands, and itself if it is one. -/
theorem powersWithin_iff : PowersWithin limits cap t ↔
    (∀ u, Operand u t → PowersWithin limits cap u) ∧
      ∀ b e q n, t = .power b e → Evaluates limits e q → exponent q = .ok n → n ≤ cap := by
  constructor
  · intro h
    refine ⟨fun u hu b e q n hoccurs => h b e q n (hoccurs.tail hu), ?_⟩
    rintro b e q n rfl
    exact h b e q n .refl
  · rintro ⟨hoperands, hself⟩ b e q n hoccurs
    rcases hoccurs.cases_tail with heq | ⟨u, hu, hoperand⟩
    · exact hself b e q n heq
    · exact hoperands u hoperand b e q n hu

theorem powersWithin_literal (v : Float) : PowersWithin limits cap (.literal v) := by
  refine powersWithin_iff.mpr ⟨fun u hu => ?_, fun b e q n h => ?_⟩
  · cases hu
  · cases h

theorem powersWithin_x : PowersWithin limits cap .x := by
  refine powersWithin_iff.mpr ⟨fun u hu => ?_, fun b e q n h => ?_⟩
  · cases hu
  · cases h

theorem powersWithin_negate : PowersWithin limits cap (.negate t) ↔ PowersWithin limits cap t := by
  rw [powersWithin_iff]
  constructor
  · exact fun h => h.1 t (.negate t)
  · refine fun h => ⟨fun u hu => ?_, fun b e q n h => ?_⟩
    · cases hu
      exact h
    · cases h

theorem powersWithin_binary {op : Operator} : PowersWithin limits cap (.binary op a b) ↔
    PowersWithin limits cap a ∧ PowersWithin limits cap b := by
  rw [powersWithin_iff]
  constructor
  · exact fun h => ⟨h.1 a (.left op a b), h.1 b (.right op a b)⟩
  · refine fun h => ⟨fun u hu => ?_, fun b e q n h => ?_⟩
    · cases hu with
      | left => exact h.1
      | right => exact h.2
    · cases h

theorem powersWithin_power (he : Evaluates limits e q) (hn : exponent q = .ok n) :
    PowersWithin limits cap (.power b e) ↔
      PowersWithin limits cap b ∧ PowersWithin limits cap e ∧ n ≤ cap := by
  rw [powersWithin_iff]
  constructor
  · exact fun h => ⟨h.1 b (.base b e), h.1 e (.exponent b e), h.2 b e q n rfl he hn⟩
  · rintro ⟨hbase, hexponent, hle⟩
    refine ⟨fun u hu => ?_, fun b' e' q' n' heq he' hn' => ?_⟩
    · cases hu with
      | base => exact hbase
      | exponent => exact hexponent
    · cases heq
      obtain rfl := he.unique he'
      cases hn.symm.trans hn'
      exact hle

/-- A tree that has a vector has no power above the limit. -/
theorem Evaluates.powersWithin (h : Evaluates limits t p) : PowersWithin limits limits.maxExponent t := by
  induction h with
  | literal v => exact powersWithin_literal v
  | x => exact powersWithin_x
  | negate _ ih => exact powersWithin_negate.mpr ih
  | binary _ _ _ iha ihb => exact powersWithin_binary.mpr ⟨iha, ihb⟩
  | power _ he hn hr ihb ihe =>
    obtain ⟨⟨-, hmost⟩, -⟩ := raise_eq_ok_iff.mp hr
    exact (powersWithin_power he hn).mpr ⟨ihb, ihe, hmost⟩

/-- An outcome that gives a result if there are levels enough and no exponent is above a limit. Without the
levels it is refused for its nesting, unless an exponent comes first, and with them for an exponent. -/
structure Capped {α : Type} (cap : ℤ) (fits within : Prop) (a : α) (outcome : Except Failure α) : Prop where
  kept (hfits : fits) (hwithin : within) : outcome = .ok a
  beyond (hfits : fits) (hbeyond : ¬ within) :
    ∃ n, cap < n ∧ Decimal.Writable n ∧ outcome = (Error.exponentOutOfRange n cap).refuse
  deep (hdeep : ¬ fits) : outcome = .error (.refused .nestedTooDeeply) ∨
    ∃ n, cap < n ∧ Decimal.Writable n ∧ outcome = (Error.exponentOutOfRange n cap).refuse

namespace Capped

variable {α β : Type} {fits fits' within within' : Prop} {v : α} {w : β} {first : Except Failure α}
  {next : α → Except Failure β}

theorem ok (h : first = .ok v) : Capped cap True True v first where
  kept _ _ := h
  beyond _ hbeyond := absurd trivial hbeyond
  deep hdeep := absurd trivial hdeep

theorem tooDeep (h : ¬ fits) (within : Prop) : Capped cap fits within v (.error (.refused .nestedTooDeeply)) where
  kept hfits := absurd hfits h
  beyond hfits := absurd hfits h
  deep _ := .inl rfl

/-- What ends the first of two steps ends both. -/
theorem refused_bind {n : ℤ} (h : first = (Error.exponentOutOfRange n cap).refuse) :
    first >>= next = (Error.exponentOutOfRange n cap).refuse := by
  rw [h, Error.refuse_bind]

theorem bind (hfirst : Capped cap fits within v first) (hnext : Capped cap fits' within' w (next v)) :
    Capped cap (fits ∧ fits') (within ∧ within') w (first >>= next) := by
  have hsecond (hfits : fits) (hwithin : within) : first >>= next = next v := by
    rw [hfirst.kept hfits hwithin]
    rfl
  refine ⟨fun hfits hwithin => ?_, fun hfits hbeyond => ?_, fun hdeep => ?_⟩
  · rw [hsecond hfits.1 hwithin.1]
    exact hnext.kept hfits.2 hwithin.2
  · by_cases hwithin : within
    · rw [hsecond hfits.1 hwithin]
      exact hnext.beyond hfits.2 fun h => hbeyond ⟨hwithin, h⟩
    · obtain ⟨n, hn, hwritable, hrefused⟩ := hfirst.beyond hfits.1 hwithin
      exact ⟨n, hn, hwritable, refused_bind hrefused⟩
  · by_cases hfits : fits
    · by_cases hwithin : within
      · rw [hsecond hfits hwithin]
        exact hnext.deep fun h => hdeep ⟨hfits, h⟩
      · obtain ⟨n, hn, hwritable, hrefused⟩ := hfirst.beyond hfits hwithin
        exact .inr ⟨n, hn, hwritable, refused_bind hrefused⟩
    · rcases hfirst.deep hfits with hnested | ⟨n, hn, hwritable, hrefused⟩
      · rw [hnested]
        exact .inl rfl
      · exact .inr ⟨n, hn, hwritable, refused_bind hrefused⟩

theorem map (h : Capped cap fits within v first) (f : α → β) :
    Capped cap fits within (f v) (first.map f) := by
  refine ⟨fun hfits hwithin => ?_, fun hfits hbeyond => ?_, fun hdeep => ?_⟩
  · exact map_eq_ok_iff.mpr ⟨v, h.kept hfits hwithin, rfl⟩
  · obtain ⟨n, hn, hwritable, hrefused⟩ := h.beyond hfits hbeyond
    exact ⟨n, hn, hwritable, by rw [hrefused, Error.refuse_map]⟩
  · rcases h.deep hdeep with hnested | ⟨n, hn, hwritable, hrefused⟩
    · rw [hnested]
      exact .inl rfl
    · exact .inr ⟨n, hn, hwritable, by rw [hrefused, Error.refuse_map]⟩

theorem congr (h : Capped cap fits within v first) (hfits : fits ↔ fits') (hwithin : within ↔ within') :
    Capped cap fits' within' v first := by
  rwa [← propext hfits, ← propext hwithin]

end Capped

theorem raise_capped (limits : Limits Float) (cap : ℤ) (p : Coeffs Float) (hn : 0 ≤ n)
    (hwritable : Decimal.Writable n) :
    Capped cap True (n ≤ cap) (p.power n.toNat) (raise ⟨limits.epsilon, cap⟩ p n) where
  kept _ hle := if_neg (not_or.mpr ⟨not_lt.mpr hn, not_lt.mpr hle⟩)
  beyond _ hgt := ⟨n, not_le.mp hgt, hwritable, if_pos (.inr (not_le.mp hgt))⟩
  deep hdeep := absurd trivial hdeep

/-- Under another limit a tree keeps its vector if it has no more levels than are left and no power in it is
above that limit. Otherwise it is refused for its nesting or for a power. -/
theorem Evaluates.capped (h : Evaluates limits t p) (cap : ℤ) (levels : ℕ) :
    Capped cap (t.height ≤ levels) (PowersWithin limits cap t) p
      (evaluateWithin ⟨limits.epsilon, cap⟩ levels t) := by
  induction h generalizing levels with
  | literal v =>
    cases levels with
    | zero => exact .tooDeep (by simp [height]) _
    | succ levels => exact (Capped.ok rfl).congr (by simp [height]) (iff_of_true trivial (powersWithin_literal v))
  | x =>
    cases levels with
    | zero => exact .tooDeep (by simp [height]) _
    | succ levels => exact (Capped.ok rfl).congr (by simp [height]) (iff_of_true trivial powersWithin_x)
  | @negate t p ht ih =>
    cases levels with
    | zero => exact .tooDeep (by simp [height]) _
    | succ levels =>
      have hnegated : Capped cap True True p.negate (pure p.negate) := .ok rfl
      rw [evaluateWithin]
      refine ((ih levels).bind hnegated).congr ?_ ?_
      · rw [height, Nat.add_le_add_iff_right, and_true]
      · rw [powersWithin_negate, and_true]
  | @binary op a b p q r ha hb hr iha ihb =>
    cases levels with
    | zero => exact .tooDeep (by simp [height]) _
    | succ levels =>
      -- The operators look at the tolerance alone.
      have hcombine : combine ⟨limits.epsilon, cap⟩ op p q = .ok r := by
        cases op <;> exact hr
      rw [evaluateWithin]
      refine ((iha levels).bind ((ihb levels).bind (.ok hcombine))).congr ?_ ?_
      · rw [height, Nat.add_le_add_iff_right, Nat.max_le, and_true]
      · rw [powersWithin_binary, and_true]
  | @power b e p q r n hb he hn hr ihb ihe =>
    cases levels with
    | zero => exact .tooDeep (by simp [height]) _
    | succ levels =>
      obtain ⟨⟨hnonneg, -⟩, rfl⟩ := raise_eq_ok_iff.mp hr
      have hraise := raise_capped limits cap p hnonneg (writable_of_exponent hn)
      rw [evaluateWithin]
      refine ((ihb levels).bind ((ihe levels).bind ((Capped.ok hn).bind hraise))).congr ?_ ?_
      · rw [height, Nat.add_le_add_iff_right, Nat.max_le, and_true, and_true]
      · rw [powersWithin_power he hn, true_and]

end Tree

namespace Expression

open PolyPlot.Tree (Capped Evaluates PowersWithin)

variable {o : Options} {levels : ℕ} {text : String} {c : Coeffs Float}

/-- With other levels left, without a cap on its length and under another limit on exponents, an expression
has the same vector if its text and tree are not nested too deeply for that and no power in it is above that
limit, and else is refused for one of the two. No power is above the limit under which it has been
compiled. -/
theorem compile_capped (h : compile levels o text = .ok c) (cap : ℤ) (levels' : ℕ) :
    ∃ t, Tree.read (some levels) (normalize text) = .ok t ∧
      (o.maxExponent ≤ cap → PowersWithin o.limits cap t) ∧
      Capped cap (Tree.read (some levels') (normalize text) = .ok t ∧ t.height ≤ levels')
        (PowersWithin o.limits cap t) c (compile levels' ⟨o.epsilon, cap, none⟩ text) := by
  obtain ⟨raw, hraw, rfl⟩ := map_eq_ok_iff.mp h
  obtain ⟨hscreen, t, hread, hevaluate, hfinite⟩ := rawVector_eq_ok_iff.mp hraw
  have hscreen' : screen none text = .ok () := screen_of_looser nofun hscreen
  rw [Tree.map_id] at hevaluate
  obtain ⟨-, heval⟩ := Tree.evaluateUpTo_eq_ok_iff.mp hevaluate
  refine ⟨t, hread, fun hle b e q n hoccurs he hn => ?_, ?_⟩
  · exact (heval.powersWithin b e q n hoccurs he hn).trans hle
  have hread' : Capped cap (Tree.read (some levels') (normalize text) = .ok t) True t
      ((Tree.read (some levels') (normalize text)).mapError .refused) := by
    refine ⟨fun h _ => mapError_eq_ok_iff.mpr h, fun _ hbeyond => absurd trivial hbeyond, fun hnot => .inl ?_⟩
    have hdeep : Tree.read (some levels') (normalize text) = .error .nestedTooDeeply :=
      (Reading.tree_under hread (some levels')).resolve_left hnot
    rw [hdeep]
    rfl
  have hevaluate' : Capped cap (t.height ≤ levels') (PowersWithin o.limits cap t) raw
      ((t.map id).evaluateUpTo ⟨o.epsilon, cap⟩ (some levels')) := by
    rw [Tree.map_id]
    exact heval.capped cap levels'
  have hrequire : Capped cap True True raw ((requireFinite raw).mapError .refused) :=
    .ok (mapError_eq_ok_iff.mpr (requireFinite_eq_ok_iff.mpr ⟨hfinite, rfl⟩))
  simp only [compile, compileWith, rawVector, Options.limits, hscreen', ok_bind]
  refine ((hread'.bind (hevaluate'.bind hrequire)).map _).congr ?_ ?_
  · rw [and_true]
  · rw [true_and, and_true]
    exact Iff.rfl

/-- The vector of an expression is finite, whatever the tolerance is. -/
theorem isFinite_of_compile (h : compile levels o text = .ok c) : ∀ a ∈ c, a.isFinite = true := by
  obtain ⟨raw, hraw, rfl⟩ := map_eq_ok_iff.mp h
  obtain ⟨-, t, -, hevaluate, hfinite⟩ := rawVector_eq_ok_iff.mp hraw
  have hne : raw ≠ [] := (Tree.evaluateUpTo_eq_ok_iff.mp hevaluate).2.ne_nil
  exact fun a ha => hfinite a ((Coeffs.canonical_isPrefix hne).subset ha)

end Expression

end PolyPlot
