import Mathlib.Algebra.BigOperators.Group.Finset.Basic
import Mathlib.Algebra.QuadraticDiscriminant
import Mathlib.Tactic.LinearCombination
import Mathlib.Tactic.NormNum
import PolyPlot.Coeffs.Analysis
import PolyPlot.Proofs.Coeffs.Trim
import PolyPlot.Proofs.Scalar.Real

namespace PolyPlot.Coeffs

open Scalar

variable {ε a b c x y : ℝ} {p rest : Coeffs ℝ} {zeros : Set ℝ} {xs : List ℝ}

/-- The zeros of the polynomial that the entries of a vector up to a power have. -/
def zerosThrough (p : Coeffs ℝ) (n : ℕ) : Set ℝ :=
  {x | ∑ i ∈ Finset.range (n + 1), p.getD i 0 * x ^ i = 0}

theorem mem_zerosThrough_one : x ∈ zerosThrough (b :: a :: rest) 1 ↔ b + a * x = 0 := by
  simp [zerosThrough, Finset.sum_range_succ]

theorem mem_zerosThrough_two :
    x ∈ zerosThrough (c :: b :: a :: rest) 2 ↔ a * (x * x) + b * x + c = 0 := by
  simp only [zerosThrough, Set.mem_ofPred_eq, Finset.sum_range_succ, Finset.sum_range_zero,
    List.getD_cons_zero, List.getD_cons_succ, zero_add, pow_zero, pow_one, mul_one, sq]
  constructor <;> intro h <;> linear_combination h

/-- What stands for at most two zeros: nothing for none, both in strictly ascending order if they are at
least the tolerance apart, and otherwise one of them. -/
inductive Distinguishes (ε : ℝ) (zeros : Set ℝ) : List ℝ → Prop
  | none : zeros = ∅ → Distinguishes ε zeros []
  | merged {x y : ℝ} : zeros = {x, y} → |x - y| < ε → Distinguishes ε zeros [x]
  | apart {x y : ℝ} : zeros = {x, y} → x < y → ε ≤ y - x → Distinguishes ε zeros [x, y]

/-- Zeros that are far enough apart are both given. -/
theorem Distinguishes.eq_pair (h : Distinguishes ε zeros xs) (hzeros : zeros = {x, y})
    (hlt : x < y) (hapart : ε ≤ y - x) : xs = [x, y] := by
  cases h with
  | none hempty =>
    rw [hempty] at hzeros
    exact absurd hzeros.symm (Set.insert_nonempty x {y}).ne_empty
  | merged hpair hclose =>
    rw [hpair, Set.pair_eq_pair_iff] at hzeros
    rw [abs_lt] at hclose
    obtain ⟨rfl, rfl⟩ | ⟨rfl, rfl⟩ := hzeros
    · linarith
    · linarith
  | apart hpair hlt' _ =>
    rw [hpair, Set.pair_eq_pair_iff] at hzeros
    obtain ⟨rfl, rfl⟩ | ⟨rfl, rfl⟩ := hzeros
    · rfl
    · exact absurd hlt' hlt.asymm

theorem linearRoots_real (ha : a ≠ 0) : linearRoots a b = .ok [-b / a] := by
  rw [linearRoots, div?_real ha]
  rfl

theorem zerosThrough_one (ha : a ≠ 0) : zerosThrough (b :: a :: rest) 1 = {-b / a} := by
  ext x
  rw [mem_zerosThrough_one, Set.mem_singleton_iff, eq_div_iff ha]
  constructor <;> intro h <;> linear_combination h

/-- The zero that the formula finds with a sign before the root. -/
noncomputable def candidate (sign a b c : ℝ) : ℝ :=
  (-b + sign * √(discrim a b c)) / (2 * a)

theorem zerosThrough_two (ha : a ≠ 0) (hD : 0 ≤ discrim a b c) :
    zerosThrough (c :: b :: a :: rest) 2 = {candidate (-1) a b c, candidate 1 a b c} := by
  ext x
  have hroot : discrim a b c = √(discrim a b c) * √(discrim a b c) := (Real.mul_self_sqrt hD).symm
  rw [mem_zerosThrough_two, quadratic_eq_zero_iff ha hroot, Set.mem_insert_iff, Set.mem_singleton_iff,
    or_comm]
  simp only [candidate, one_mul, neg_one_mul, ← sub_eq_add_neg]

theorem zerosThrough_two_of_neg (hD : discrim a b c < 0) :
    zerosThrough (c :: b :: a :: rest) 2 = ∅ := by
  apply Set.eq_empty_of_forall_notMem
  intro x hx
  rw [mem_zerosThrough_two] at hx
  rw [discrim_eq_sq_of_quadratic_eq_zero hx] at hD
  exact absurd hD (sq_nonneg _).not_gt

theorem discriminant_real (a b c : ℝ) : b * b - Scalar.ofInt 4 * a * c = discrim a b c := by
  rw [discrim, sq]
  norm_num

theorem quadraticRoots_of_neg (hD : discrim a b c < 0) : quadraticRoots ε a b c = .ok [] := by
  unfold quadraticRoots
  rw [discriminant_real]
  exact if_pos hD

/-- Two candidates in ascending order, or the first of them if they are closer than the tolerance. -/
noncomputable def merge (ε x y : ℝ) : List ℝ :=
  if |x - y| < ε then [x] else if y < x then [y, x] else [x, y]

theorem merge_ne_nil (ε x y : ℝ) : merge ε x y ≠ [] := by
  unfold merge
  split_ifs <;> simp

theorem quadraticRoots_of_nonneg (ha : a ≠ 0) (hD : 0 ≤ discrim a b c) :
    quadraticRoots ε a b c = .ok (merge ε (candidate (-1) a b c) (candidate 1 a b c)) := by
  have htwice : Scalar.ofInt 2 * a ≠ 0 := mul_ne_zero two_ne_zero ha
  have hfirst : (-b - √(discrim a b c)) / (Scalar.ofInt 2 * a) = candidate (-1) a b c := by
    simp [candidate, sub_eq_add_neg]
  have hsecond : (-b + √(discrim a b c)) / (Scalar.ofInt 2 * a) = candidate 1 a b c := by
    simp [candidate]
  unfold quadraticRoots
  simp only [discriminant_real, sqrt_real, div?_real htwice, hfirst, hsecond, bind, Except.bind]
  rw [if_neg hD.not_gt, merge]
  by_cases hclose : |candidate (-1) a b c - candidate 1 a b c| < ε
  · rw [if_pos hclose]
    exact if_pos hclose
  · rw [if_neg hclose]
    exact if_neg hclose

/-- Two zeros are told apart by the tolerance, whichever of them is found first. -/
theorem distinguishes_merge (hε : 0 < ε) (x y : ℝ) : Distinguishes ε {x, y} (merge ε x y) := by
  unfold merge
  by_cases hclose : |x - y| < ε
  · rw [if_pos hclose]
    exact .merged rfl hclose
  rw [if_neg hclose]
  rw [not_lt, le_abs'] at hclose
  by_cases hswap : y < x
  · rw [if_pos hswap]
    apply Distinguishes.apart (Set.pair_comm x y) hswap
    obtain hneg | hpos := hclose
    · linarith
    · exact hpos
  · rw [if_neg hswap]
    obtain hneg | hpos := hclose
    · exact .apart rfl (by linarith) (by linarith)
    · exact absurd (by linarith) hswap

theorem quadraticRoots_real (hε : 0 < ε) (ha : a ≠ 0) (rest : Coeffs ℝ) :
    ∃ xs, quadraticRoots ε a b c = .ok xs ∧
      Distinguishes ε (zerosThrough (c :: b :: a :: rest) 2) xs ∧ (xs = [] ↔ discrim a b c < 0) := by
  by_cases hD : discrim a b c < 0
  · refine ⟨[], quadraticRoots_of_neg hD, ?_, iff_of_true rfl hD⟩
    exact .none (zerosThrough_two_of_neg hD)
  · have hnonneg := not_lt.mp hD
    refine ⟨_, quadraticRoots_of_nonneg ha hnonneg, ?_, iff_of_false ?_ hD⟩
    · rw [zerosThrough_two ha hnonneg]
      exact distinguishes_merge hε _ _
    · exact merge_ne_nil ε _ _

theorem exists_eq_cons_cons (h : 1 < p.length) : ∃ b a rest, p = b :: a :: rest := by
  obtain ⟨b, tail, rfl⟩ := List.exists_cons_of_length_pos (Nat.zero_lt_of_lt h)
  obtain ⟨a, rest, rfl⟩ := List.exists_cons_of_length_pos (Nat.lt_of_succ_lt_succ h)
  exact ⟨b, a, rest, rfl⟩

/-- The roots of every vector are found without a division by zero. Those of a polynomial of degree one or
two are its real zeros, two of which may be merged by the tolerance; for other degrees none are given. -/
theorem roots_are_zeros (hε : 0 < ε) (p : Coeffs ℝ) :
    ∃ xs, roots ε p = .ok xs ∧
      (degree ε p = 1 → ∃ x, zerosThrough p 1 = {x} ∧ xs = [x]) ∧
      (degree ε p = 2 → Distinguishes ε (zerosThrough p 2) xs ∧
        (xs = [] ↔ discrim (p.getD 2 0) (p.getD 1 0) (p.getD 0 0) < 0)) ∧
      (degree ε p ≠ 1 → degree ε p ≠ 2 → xs = []) := by
  have hne {n : ℕ} (hdegree : degree ε p = n + 1) : p.getD (n + 1) 0 ≠ 0 := by
    obtain ⟨hlength, hlarge⟩ := lt_of_degree hdegree
    rw [List.getD_eq_getElem _ _ hlength]
    exact abs_pos.mp (hε.trans hlarge)
  unfold roots
  split
  · next b a rest hdegree =>
    have ha : a ≠ 0 := hne hdegree
    refine ⟨_, linearRoots_real ha, fun _ => ⟨-b / a, zerosThrough_one ha, rfl⟩, ?_, ?_⟩
    · intro hdegree'
      omega
    · intro hdegree'
      exact absurd hdegree hdegree'
  · next c b a rest hdegree =>
    have ha : a ≠ 0 := hne hdegree
    obtain ⟨xs, hxs, hzeros, hnone⟩ := quadraticRoots_real hε ha rest
    refine ⟨xs, hxs, ?_, fun _ => ⟨hzeros, hnone⟩, ?_⟩
    · intro hdegree'
      omega
    · intro _ hdegree'
      exact absurd hdegree hdegree'
  · next hone htwo =>
    refine ⟨[], rfl, ?_, ?_, fun _ _ => rfl⟩
    · intro hdegree
      obtain ⟨hlength, -⟩ := lt_of_degree hdegree
      obtain ⟨b, a, rest, rfl⟩ := exists_eq_cons_cons hlength
      exact (hone b a rest hdegree rfl).elim
    · intro hdegree
      obtain ⟨hlength, -⟩ := lt_of_degree hdegree
      obtain ⟨c, b, rest, rfl⟩ := exists_eq_cons_cons (Nat.lt_of_succ_lt hlength)
      cases rest with
      | nil => exact absurd hlength (lt_irrefl 2)
      | cons a rest => exact (htwo c b a rest hdegree rfl).elim

/-- A leading coefficient that is negative, with a small one behind it. -/
theorem roots_of_negative_leading :
    let p : Coeffs ℝ := [-2, 3, -1, 1 / 4]
    (0 : ℝ) < 1 / 2 ∧ degree (1 / 2) p = 2 ∧ roots (1 / 2) p = .ok [1, 2] := by
  intro p
  have hε : (0 : ℝ) < 1 / 2 := by norm_num
  have hdegree : degree (1 / 2) p = 2 := by
    norm_num [p, degree, leading?, abs_of_pos, abs_of_neg]
  have hzeros : zerosThrough p 2 = {1, 2} := by
    ext x
    have hfactors : -1 * (x * x) + 3 * x + -2 = -((x - 1) * (x - 2)) := by ring
    rw [mem_zerosThrough_two, hfactors, neg_eq_zero, mul_eq_zero, sub_eq_zero, sub_eq_zero]
    rfl
  obtain ⟨xs, hroots, -, htwo, -⟩ := roots_are_zeros hε p
  obtain ⟨hlisted, -⟩ := htwo hdegree
  have hpair : xs = [1, 2] := hlisted.eq_pair hzeros (by norm_num) (by norm_num)
  exact ⟨hε, hdegree, hpair ▸ hroots⟩

end PolyPlot.Coeffs
