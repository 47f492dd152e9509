import PolyPlot.Expression.Evaluation
import PolyPlot.Proofs.Answers
import PolyPlot.Proofs.Coeffs.Length
import PolyPlot.Proofs.Decimal.Writing

namespace PolyPlot

namespace Expression.Error

open Decimal (Writable requireWritable)

variable {β : Type} {e : Error}

/-- The numbers in a message can be written. -/
def Tellable (e : Error) : Prop :=
  ∀ n ∈ e.numbers, Writable n

theorem tellable_tooLong {limit : Int} : (tooLong limit).Tellable ↔ Writable limit := by
  simp [Tellable, numbers]

theorem tellable_exponentOutOfRange {m limit : Int} :
    (exponentOutOfRange m limit).Tellable ↔ Writable m ∧ Writable limit := by
  simp [Tellable, numbers]

theorem refuse_of_tellable (h : e.Tellable) : (e.refuse : Except Failure β) = .error (.refused e) := by
  rcases Decimal.forM_requireWritable e.numbers with ⟨-, hall⟩ | ⟨hnot, -⟩
  · rw [refuse, hall]
  · exact absurd h hnot

theorem refuse_of_not_tellable (h : ¬ e.Tellable) :
    (e.refuse : Except Failure β) = .error (.fault .tooManyDigits) := by
  rcases Decimal.forM_requireWritable e.numbers with ⟨hall, -⟩ | ⟨-, hnone⟩
  · exact absurd hall h
  · rw [refuse, hnone]

theorem refuse_bind {γ : Type} (next : β → Except Failure γ) : (e.refuse >>= next) = e.refuse := by
  by_cases h : e.Tellable
  · rw [refuse_of_tellable h, refuse_of_tellable h]
    rfl
  · rw [refuse_of_not_tellable h, refuse_of_not_tellable h]
    rfl

theorem refuse_map {γ : Type} (f : β → γ) : (e.refuse : Except Failure β).map f = e.refuse := by
  by_cases h : e.Tellable
  · rw [refuse_of_tellable h, refuse_of_tellable h]
    rfl
  · rw [refuse_of_not_tellable h, refuse_of_not_tellable h]
    rfl

theorem refuse_ne_ok (b : β) : e.refuse ≠ .ok b := by
  by_cases h : e.Tellable
  · rw [refuse_of_tellable h]
    nofun
  · rw [refuse_of_not_tellable h]
    nofun

end Expression.Error

namespace Tree

open Expression (Failure Error)

variable {α : Type} [Scalar α] {limits : Limits α} {n : Nat} {t a b : Tree α} {c p q : Coeffs α}

/-- A tree has a vector, whatever its height. -/
inductive Evaluates (limits : Limits α) : Tree α → Coeffs α → Prop
  | literal (v : α) : Evaluates limits (.literal v) [v]
  | x : Evaluates limits .x [0, 1]
  | negate {t : Tree α} {p : Coeffs α} (ht : Evaluates limits t p) : Evaluates limits (.negate t) p.negate
  | binary {op : Operator} {a b : Tree α} {p q r : Coeffs α} (ha : Evaluates limits a p)
      (hb : Evaluates limits b q) (hr : combine limits op p q = .ok r) :
      Evaluates limits (.binary op a b) r
  | power {b e : Tree α} {p q r : Coeffs α} {n : Int} (hb : Evaluates limits b p)
      (he : Evaluates limits e q) (hn : exponent q = .ok n) (hr : raise limits p n = .ok r) :
      Evaluates limits (.power b e) r

theorem raise_eq_ok_iff {n : Int} {r : Coeffs α} :
    raise limits p n = .ok r ↔ (0 ≤ n ∧ n ≤ limits.maxExponent) ∧ r = p.power n.toNat := by
  unfold raise
  split
  · next hout =>
    constructor
    · exact fun h => absurd h (Error.refuse_ne_ok r)
    · rintro ⟨hin, -⟩
      omega
  · next hin =>
    constructor
    · intro h
      cases h
      exact ⟨by omega, rfl⟩
    · rintro ⟨-, rfl⟩
      rfl

theorem evaluates_of_evaluateWithin (h : evaluateWithin limits n t = .ok c) :
    t.height ≤ n ∧ Evaluates limits t c := by
  induction n generalizing t c with
  | zero => cases h
  | succ n ih =>
    cases t with
    | literal v =>
      cases h
      exact ⟨by simp [height], .literal v⟩
    | x =>
      cases h
      exact ⟨by simp [height], .x⟩
    | negate t =>
      obtain ⟨p, hp, h⟩ := bind_eq_ok_iff.mp h
      cases h
      obtain ⟨hheight, ht⟩ := ih hp
      exact ⟨Nat.succ_le_succ hheight, .negate ht⟩
    | binary op a b =>
      obtain ⟨p, hp, h⟩ := bind_eq_ok_iff.mp h
      obtain ⟨q, hq, h⟩ := bind_eq_ok_iff.mp h
      obtain ⟨hleft, ha⟩ := ih hp
      obtain ⟨hright, hb⟩ := ih hq
      exact ⟨Nat.succ_le_succ (Nat.max_le.mpr ⟨hleft, hright⟩), .binary ha hb h⟩
    | power b e =>
      obtain ⟨p, hp, h⟩ := bind_eq_ok_iff.mp h
      obtain ⟨q, hq, h⟩ := bind_eq_ok_iff.mp h
      obtain ⟨m, hm, h⟩ := bind_eq_ok_iff.mp h
      obtain ⟨hleft, hb⟩ := ih hp
      obtain ⟨hright, he⟩ := ih hq
      exact ⟨Nat.succ_le_succ (Nat.max_le.mpr ⟨hleft, hright⟩), .power hb he hm h⟩

theorem Evaluates.evaluateWithin_eq (h : Evaluates limits t c) (hheight : t.height ≤ n) :
    evaluateWithin limits n t = .ok c := by
  induction h generalizing n with
  | literal v =>
    obtain ⟨n, rfl⟩ := Nat.exists_eq_add_one.mpr hheight
    rfl
  | x =>
    obtain ⟨n, rfl⟩ := Nat.exists_eq_add_one.mpr hheight
    rfl
  | negate ht ih =>
    obtain ⟨n, rfl⟩ := Nat.exists_eq_add_one.mpr (Nat.zero_lt_of_lt hheight)
    rw [evaluateWithin, ih (Nat.le_of_succ_le_succ hheight)]
    rfl
  | binary ha hb hr iha ihb =>
    obtain ⟨n, rfl⟩ := Nat.exists_eq_add_one.mpr (Nat.zero_lt_of_lt hheight)
    obtain ⟨hleft, hright⟩ := Nat.max_le.mp (Nat.le_of_succ_le_succ hheight)
    rw [evaluateWithin, iha hleft, ihb hright]
    exact hr
  | power hb he hm hr ihb ihe =>
    obtain ⟨n, rfl⟩ := Nat.exists_eq_add_one.mpr (Nat.zero_lt_of_lt hheight)
    obtain ⟨hleft, hright⟩ := Nat.max_le.mp (Nat.le_of_succ_le_succ hheight)
    rw [evaluateWithin, ihb hleft, ihe hright]
    simp only [bind, Except.bind, hm]
    exact hr

/-- Evaluation within a limit is the relation on trees that have no more levels. -/
theorem evaluateWithin_eq_ok_iff :
    evaluateWithin limits n t = .ok c ↔ t.height ≤ n ∧ Evaluates limits t c :=
  ⟨evaluates_of_evaluateWithin, fun ⟨hheight, h⟩ => h.evaluateWithin_eq hheight⟩

theorem length_of_mapM_div? {d : α} {r : Coeffs α} (h : p.mapM (Scalar.div? · d) = .ok r) :
    r.length = p.length := by
  induction p generalizing r with
  | nil =>
    cases h
    rfl
  | cons a p ih =>
    rw [List.mapM_cons] at h
    obtain ⟨b, -, h⟩ := bind_eq_ok_iff.mp h
    obtain ⟨rest, hrest, h⟩ := bind_eq_ok_iff.mp h
    cases h
    rw [List.length_cons, List.length_cons, ih hrest]

/-- A quotient is given exactly if the divisor has one entry, which is not below the tolerance and by
which every entry can be divided. -/
theorem quotient_eq_ok_iff_exists {r : Coeffs α} :
    quotient limits p q = .ok r ↔
      ∃ d, q = [d] ∧ ¬ Scalar.abs d < limits.epsilon ∧ p.mapM (Scalar.div? · d) = .ok r := by
  unfold quotient
  split
  · next d =>
    by_cases hsmall : Scalar.abs d < limits.epsilon
    · simp [Coeffs.divide, hsmall]
    · cases hm : p.mapM (Scalar.div? · d) with
      | error f => simp [Coeffs.divide, hsmall, hm, Except.map]
      | ok s => simp [Coeffs.divide, hsmall, hm, Except.map]
  · next hlength =>
    constructor
    · intro h
      cases h
    · rintro ⟨d, rfl, -⟩
      exact absurd rfl (hlength d)

/-- A quotient that is given divides every entry by the one entry of its divisor. -/
theorem exists_of_quotient_eq_ok {r : Coeffs α} (h : quotient limits p q = .ok r) :
    ∃ d, q = [d] ∧ p.mapM (Scalar.div? · d) = .ok r := by
  obtain ⟨d, hd, -, hr⟩ := quotient_eq_ok_iff_exists.mp h
  exact ⟨d, hd, hr⟩

theorem length_of_quotient {r : Coeffs α} (h : quotient limits p q = .ok r) : r.length = p.length := by
  obtain ⟨d, -, hr⟩ := exists_of_quotient_eq_ok h
  exact length_of_mapM_div? hr

/-- A tree has no empty vector. -/
theorem Evaluates.length_pos (h : Evaluates limits t c) : 0 < c.length := by
  induction h with
  | literal v => exact Nat.one_pos
  | x => exact Nat.two_pos
  | negate ht ih => simpa using ih
  | @binary op a b p q r ha hb hr iha ihb =>
    cases op with
    | add =>
      cases hr
      rw [Coeffs.length_add]
      omega
    | subtract =>
      cases hr
      rw [Coeffs.length_subtract]
      omega
    | multiply =>
      cases hr
      exact List.length_pos_iff.mpr
        (Coeffs.multiply_ne_nil (List.length_pos_iff.mp iha) (List.length_pos_iff.mp ihb))
    | divide => rwa [length_of_quotient hr]
  | power hb he hn hr ihb ihe =>
    obtain ⟨-, rfl⟩ := raise_eq_ok_iff.mp hr
    rw [Coeffs.length_power (List.length_pos_iff.mp ihb)]
    omega

theorem Evaluates.ne_nil (h : Evaluates limits t c) : c ≠ [] :=
  List.length_pos_iff.mp h.length_pos

theorem evaluate_eq_ok_iff : evaluate limits t = .ok c ↔ Evaluates limits t c := by
  simp [evaluate, evaluateWithin_eq_ok_iff]

/-- A tree has no more than one vector. -/
theorem Evaluates.unique (h : Evaluates limits t p) (h' : Evaluates limits t q) : p = q := by
  have heval := evaluate_eq_ok_iff.mpr h
  rw [evaluate_eq_ok_iff.mpr h'] at heval
  cases heval
  rfl

section Compound

variable {e : Tree α}

/-- The vectors of the operands decide what becomes of an operation. -/
theorem evaluate_binary {op : Operator} (ha : Evaluates limits a p) (hb : Evaluates limits b q) :
    evaluate limits (.binary op a b) = combine limits op p q := by
  have hleft : evaluateWithin limits (max a.height b.height) a = .ok p :=
    evaluateWithin_eq_ok_iff.mpr ⟨Nat.le_max_left _ _, ha⟩
  have hright : evaluateWithin limits (max a.height b.height) b = .ok q :=
    evaluateWithin_eq_ok_iff.mpr ⟨Nat.le_max_right _ _, hb⟩
  rw [evaluate, height, evaluateWithin, hleft, hright]
  rfl

theorem evaluate_power (hb : Evaluates limits b p) (he : Evaluates limits e q) :
    evaluate limits (.power b e) = exponent q >>= raise limits p := by
  have hbase : evaluateWithin limits (max b.height e.height) b = .ok p :=
    evaluateWithin_eq_ok_iff.mpr ⟨Nat.le_max_left _ _, hb⟩
  have hexponent : evaluateWithin limits (max b.height e.height) e = .ok q :=
    evaluateWithin_eq_ok_iff.mpr ⟨Nat.le_max_right _ _, he⟩
  rw [evaluate, height, evaluateWithin, hbase, hexponent]
  rfl

end Compound

/-- Evaluation ends at a power whose exponent is read as a whole number outside the limits. -/
inductive StopsAt (limits : Limits α) (n : Int) : Tree α → Prop
  | negate {t : Tree α} (ht : StopsAt limits n t) : StopsAt limits n (.negate t)
  | left {op : Operator} {a b : Tree α} (ha : StopsAt limits n a) : StopsAt limits n (.binary op a b)
  | right {op : Operator} {a b : Tree α} {p : Coeffs α} (ha : Evaluates limits a p)
      (hb : StopsAt limits n b) : StopsAt limits n (.binary op a b)
  | base {b e : Tree α} (hb : StopsAt limits n b) : StopsAt limits n (.power b e)
  | exponent {b e : Tree α} {p : Coeffs α} (hb : Evaluates limits b p) (he : StopsAt limits n e) :
      StopsAt limits n (.power b e)
  | here {b e : Tree α} {p q : Coeffs α} (hb : Evaluates limits b p) (he : Evaluates limits e q)
      (hn : exponent q = .ok n) (hout : n < 0 ∨ limits.maxExponent < n) : StopsAt limits n (.power b e)

/-- A tree whose evaluation ends at an exponent is refused for it. -/
theorem StopsAt.evaluateWithin_eq {m : Int} (h : StopsAt limits m t) (hheight : t.height ≤ n) :
    evaluateWithin limits n t = (Error.exponentOutOfRange m limits.maxExponent).refuse := by
  induction h generalizing n with
  | negate ht ih =>
    obtain ⟨n, rfl⟩ := Nat.exists_eq_add_one.mpr (Nat.zero_lt_of_lt hheight)
    rw [evaluateWithin, ih (Nat.le_of_succ_le_succ hheight), Error.refuse_bind]
  | left ha ih =>
    obtain ⟨n, rfl⟩ := Nat.exists_eq_add_one.mpr (Nat.zero_lt_of_lt hheight)
    obtain ⟨hleft, -⟩ := Nat.max_le.mp (Nat.le_of_succ_le_succ hheight)
    rw [evaluateWithin, ih hleft, Error.refuse_bind]
  | right ha hb ih =>
    obtain ⟨n, rfl⟩ := Nat.exists_eq_add_one.mpr (Nat.zero_lt_of_lt hheight)
    obtain ⟨hleft, hright⟩ := Nat.max_le.mp (Nat.le_of_succ_le_succ hheight)
    rw [evaluateWithin, ha.evaluateWithin_eq hleft, ok_bind, ih hright, Error.refuse_bind]
  | base hb ih =>
    obtain ⟨n, rfl⟩ := Nat.exists_eq_add_one.mpr (Nat.zero_lt_of_lt hheight)
    obtain ⟨hleft, -⟩ := Nat.max_le.mp (Nat.le_of_succ_le_succ hheight)
    rw [evaluateWithin, ih hleft, Error.refuse_bind]
  | exponent hb he ih =>
    obtain ⟨n, rfl⟩ := Nat.exists_eq_add_one.mpr (Nat.zero_lt_of_lt hheight)
    obtain ⟨hleft, hright⟩ := Nat.max_le.mp (Nat.le_of_succ_le_succ hheight)
    rw [evaluateWithin, hb.evaluateWithin_eq hleft, ok_bind, ih hright, Error.refuse_bind]
  | here hb he hn hout =>
    obtain ⟨n, rfl⟩ := Nat.exists_eq_add_one.mpr (Nat.zero_lt_of_lt hheight)
    obtain ⟨hleft, hright⟩ := Nat.max_le.mp (Nat.le_of_succ_le_succ hheight)
    rw [evaluateWithin, hb.evaluateWithin_eq hleft, ok_bind, he.evaluateWithin_eq hright, ok_bind, hn,
      ok_bind, raise, if_pos hout]

theorem StopsAt.evaluate_eq {m : Int} (h : StopsAt limits m t) :
    evaluate limits t = (Error.exponentOutOfRange m limits.maxExponent).refuse :=
  h.evaluateWithin_eq (Nat.le_refl _)

/-- Where such a tree is refused, the limit on exponents could be told. -/
theorem StopsAt.writable {m : Int} {e : Error} (h : StopsAt limits m t)
    (he : evaluate limits t = .error (.refused e)) : Decimal.Writable limits.maxExponent := by
  have hrefuse := h.evaluate_eq.symm.trans he
  by_cases htell : (Error.exponentOutOfRange m limits.maxExponent).Tellable
  · exact (Error.tellable_exponentOutOfRange.mp htell).2
  · rw [Error.refuse_of_not_tellable htell] at hrefuse
    cases hrefuse

theorem evaluateUpTo_eq_ok_iff {levels : Option Nat} :
    evaluateUpTo limits levels t = .ok c ↔ (∀ n ∈ levels, t.height ≤ n) ∧ Evaluates limits t c := by
  cases levels with
  | none => simp [evaluateUpTo, evaluate_eq_ok_iff]
  | some n => simp [evaluateUpTo, evaluateWithin_eq_ok_iff]

end Tree

end PolyPlot
