import Mathlib.Logic.Relation
import PolyPlot.Proofs.Coeffs.Finite
import PolyPlot.Proofs.Evaluation.Compilation
import PolyPlot.Proofs.Evaluation.Refusal

namespace PolyPlot

namespace Tree

open Relation (ReflTransGen)

section Operands

variable {α : Type}

/-- A tree is an operand at the top of another one. -/
inductive Operand : Tree α → Tree α → Prop
  | negate (t : Tree α) : Operand t (.negate t)
  | left (op : Operator) (a b : Tree α) : Operand a (.binary op a b)
  | right (op : Operator) (a b : Tree α) : Operand b (.binary op a b)
  | base (b e : Tree α) : Operand b (.power b e)
  | exponent (b e : Tree α) : Operand e (.power b e)

/-- A tree is another one, or an operand somewhere in it. -/
abbrev Occurs : Tree α → Tree α → Prop :=
  ReflTransGen Operand

end Operands

variable {limits : Limits Float} {s t u : Tree Float} {p q r : Coeffs Float}

/-- Every subexpression has a vector of finite numbers. -/
def FiniteThroughout (limits : Limits Float) (t : Tree Float) : Prop :=
  ∀ s, Occurs s t → ∃ p, Evaluates limits s p ∧ ∀ a ∈ p, a.isFinite = true

/-- An operand has overflowed, and that is not seen in the vector of its tree. -/
inductive Absorbed (limits : Limits Float) : Tree Float → Tree Float → Prop
  | divisor {a b : Tree Float} {d : Float} {negative : Bool} (hb : Evaluates limits b [d])
      (hd : Binary.ofFloat d = .infinite negative) : Absorbed limits b (.binary .divide a b)
  | base {b e : Tree Float} {p q : Coeffs Float} (hb : Evaluates limits b p)
      (hp : ¬ ∀ a ∈ p, a.isFinite = true) (he : Evaluates limits e q) (hn : exponent q = .ok 0) :
      Absorbed limits b (.power b e)

theorem eq_map_of_mapM_div? {d : Float} (hp : p ≠ []) (h : p.mapM (Scalar.div? · d) = .ok r) :
    r = p.map (· / d) := by
  have hd : Scalar.isZero d = false := by
    obtain ⟨a, p, rfl⟩ := List.exists_cons_of_ne_nil hp
    rw [List.mapM_cons] at h
    obtain ⟨b, hb, -⟩ := bind_eq_ok_iff.mp h
    unfold Scalar.div? at hb
    split at hb
    · cases hb
    · next hd => exact Bool.eq_false_iff.mpr hd
  rw [mapM_div?_eq_ok hd] at h
  exact (Except.ok.inj h).symm

theorem isFinite_of_exponent_eq_ok {n : ℤ} (h : exponent q = .ok n) : ∀ a ∈ q, a.isFinite = true := by
  cases q with
  | nil => exact fun a ha => absurd ha List.not_mem_nil
  | cons d rest =>
    rw [exponent_cons] at h
    split_ifs at h with hrest hd
    obtain rfl : rest = [] := not_not.mp hrest
    exact List.forall_mem_singleton.mpr hd

/-- A finite vector is combined of finite ones, unless it has been divided by an infinity. -/
theorem isFinite_of_combine {op : Operator} (hp : p ≠ []) (hq : q ≠ [])
    (h : combine limits op p q = .ok r) (hr : ∀ a ∈ r, a.isFinite = true) :
    (∀ a ∈ p, a.isFinite = true) ∧ ((∀ a ∈ q, a.isFinite = true) ∨
      op = .divide ∧ ∃ d negative, q = [d] ∧ Binary.ofFloat d = .infinite negative) := by
  cases op with
  | add =>
    cases h
    exact (Coeffs.isFinite_of_add hr).imp_right .inl
  | subtract =>
    cases h
    exact (Coeffs.isFinite_of_subtract hr).imp_right .inl
  | multiply =>
    cases h
    exact (Coeffs.isFinite_of_multiply hp hq hr).imp_right .inl
  | divide =>
    obtain ⟨d, rfl, hdivide⟩ := exists_of_quotient_eq_ok h
    obtain rfl := eq_map_of_mapM_div? hp hdivide
    obtain ⟨hp, hd | ⟨negative, hd⟩⟩ := Coeffs.isFinite_of_map_div hp hr
    · exact ⟨hp, .inl (List.forall_mem_singleton.mpr hd)⟩
    · exact ⟨hp, .inr ⟨rfl, d, negative, rfl, hd⟩⟩

/-- Where a vector is finite, so is that of each operand, unless it is absorbed. -/
theorem finite_or_absorbed_of_operand (hu : Operand u t) (ht : Evaluates limits t r)
    (hr : ∀ a ∈ r, a.isFinite = true) :
    (∃ p, Evaluates limits u p ∧ ∀ a ∈ p, a.isFinite = true) ∨ Absorbed limits u t := by
  cases ht with
  | literal v => cases hu
  | x => cases hu
  | negate ht =>
    cases hu
    exact .inl ⟨_, ht, Coeffs.isFinite_of_negate hr⟩
  | @binary op a b p q r ha hb hcombine =>
    obtain ⟨hp, hq | ⟨rfl, d, negative, rfl, hd⟩⟩ := isFinite_of_combine ha.ne_nil hb.ne_nil hcombine hr
    · cases hu with
      | left => exact .inl ⟨p, ha, hp⟩
      | right => exact .inl ⟨q, hb, hq⟩
    · cases hu with
      | left => exact .inl ⟨p, ha, hp⟩
      | right => exact .inr (.divisor hb hd)
  | @power b e p q r n hb he hn hraise =>
    obtain ⟨⟨hnonneg, -⟩, rfl⟩ := raise_eq_ok_iff.mp hraise
    cases hu with
    | exponent => exact .inl ⟨q, he, isFinite_of_exponent_eq_ok hn⟩
    | base =>
      by_cases hp : ∀ a ∈ p, a.isFinite = true
      · exact .inl ⟨p, hb, hp⟩
      · have hzero : n.toNat = 0 := by
          by_contra hne
          exact hp (Coeffs.isFinite_of_power hb.ne_nil hne hr)
        obtain rfl : n = 0 := by omega
        exact .inr (.base hb hp he hn)

/-- A subexpression of a tree with a finite vector has one as well, or it occurs in an operand that is
absorbed. -/
theorem finite_or_absorbed_of_occurs (hs : Occurs s t) (ht : Evaluates limits t r)
    (hr : ∀ a ∈ r, a.isFinite = true) :
    (∃ p, Evaluates limits s p ∧ ∀ a ∈ p, a.isFinite = true) ∨
      ∃ u v, Occurs s u ∧ Absorbed limits u v ∧ Occurs v t := by
  -- The induction goes down from the whole tree, so the first operand that overflows is the absorbed one.
  induction hs generalizing r with
  | refl => exact .inl ⟨r, ht, hr⟩
  | tail hs hoperand ih =>
    rcases finite_or_absorbed_of_operand hoperand ht hr with ⟨p, hp, hfinite⟩ | habsorbed
    · refine (ih hp hfinite).imp_right ?_
      rintro ⟨u, v, hu, habsorbed, hv⟩
      exact ⟨u, v, hu, habsorbed, hv.tail hoperand⟩
    · exact .inr ⟨_, _, hs, habsorbed, .refl⟩

theorem not_finiteThroughout (hs : Occurs s t) (h : Evaluates limits s p)
    (hp : ¬ ∀ a ∈ p, a.isFinite = true) : ¬ FiniteThroughout limits t := by
  intro hfinite
  obtain ⟨p', hp', hall⟩ := hfinite s hs
  exact hp (h.unique hp' ▸ hall)

end Tree

namespace Expression

open PolyPlot.Tree (Absorbed Evaluates FiniteThroughout Occurs)

variable {o : Options} {levels : ℕ} {text : String} {c : Coeffs Float}

/-- In an expression that has a vector no subexpression overflows, unless it occurs in an operand that is
absorbed: in an infinite divisor, or in a base raised to the power zero. -/
theorem finite_or_absorbed_of_compile (h : compile levels o text = .ok c) :
    ∃ t raw, Tree.read (some levels) (normalize text) = .ok t ∧
      Evaluates o.limits t raw ∧ raw.canonical o.epsilon = c ∧
      ∀ s, Occurs s t → (∃ p, Evaluates o.limits s p ∧ ∀ a ∈ p, a.isFinite = true) ∨
        ∃ u v, Occurs s u ∧ Absorbed o.limits u v ∧ Occurs v t := by
  obtain ⟨raw, hraw, hc⟩ := map_eq_ok_iff.mp h
  obtain ⟨-, t, hread, hevaluates, hfinite⟩ := rawVector_eq_ok_iff.mp hraw
  rw [Tree.map_id, Tree.evaluateUpTo_eq_ok_iff] at hevaluates
  exact ⟨t, raw, hread, hevaluates.2, hc,
    fun s hs => Tree.finite_or_absorbed_of_occurs hs hevaluates.2 hfinite⟩

/-- The power zero of a base that overflows: the base occurs in an absorbed operand, itself. -/
theorem finite_or_absorbed_of_zeroth_power :
    compile 100 {} "((65536^8)^8)^0+x" = .ok [1, 1] ∧
      ∃ t raw, Tree.read (some 100) (normalize "((65536^8)^8)^0+x") = .ok t ∧
        Evaluates ({} : Options).limits t raw ∧ raw.canonical ({} : Options).epsilon = [1, 1] ∧
        ∀ s, Occurs s t →
          (∃ p, Evaluates ({} : Options).limits s p ∧ ∀ a ∈ p, a.isFinite = true) ∨
            ∃ u v, Occurs s u ∧ Absorbed ({} : Options).limits u v ∧ Occurs v t := by
  have h : compile 100 {} "((65536^8)^8)^0+x" = .ok [1, 1] := by decide +kernel
  exact ⟨h, finite_or_absorbed_of_compile h⟩

/-- Overflows that are absorbed. In the power zero the base is infinite. In the product the divisor is, and
the quotient of `2 ^ 1008` by `2 ^ 1024` is zero. -/
theorem not_finiteThroughout_of_absorbed :
    (compile 100 {} "((65536^8)^8)^0" = .ok [1] ∧
      ∃ t, Tree.read (some 100) (normalize "((65536^8)^8)^0") = .ok t ∧
        ¬ FiniteThroughout ({} : Options).limits t) ∧
    compile 100 {} "(65536^9)^7/(65536^8)^8*65536" = .ok [0] ∧
      ∃ t, Tree.read (some 100) (normalize "(65536^9)^7/(65536^8)^8*65536") = .ok t ∧
        ¬ FiniteThroughout ({} : Options).limits t := by
  let d : Tree Float := .power (.power (.literal 65536) (.literal 8)) (.literal 8)
  let n : Tree Float := .power (.power (.literal 65536) (.literal 9)) (.literal 7)
  have hd : Evaluates ({} : Options).limits d [Double.ofMagnitudeBits false Double.infinityBits] := by
    apply Tree.evaluate_eq_ok_iff.mp
    decide +kernel
  have hinfinite : ¬ ∀ a ∈ [Double.ofMagnitudeBits false Double.infinityBits], a.isFinite = true := by
    decide
  refine ⟨⟨by decide +kernel, .power d (.literal 0), rfl, ?_⟩, by decide +kernel,
    .binary .multiply (.binary .divide n d) (.literal 65536), rfl, ?_⟩
  · exact Tree.not_finiteThroughout (.single (.base _ _)) hd hinfinite
  · exact Tree.not_finiteThroughout (.tail (.single (.right _ _ _)) (.left _ _ _)) hd hinfinite

end Expression

end PolyPlot
