import PolyPlot.Exact.Poly
import PolyPlot.Proofs.Coeffs.Polynomial

open Polynomial
open PolyPlot.Coeffs (toPolynomial toPolynomial_cons)

namespace PolyPlot.Exact

/-- Without a greatest power every power of a number is worked out. -/
theorem numberPower?_none (r : ℚ) (n : ℕ) : numberPower? none r n = some (r ^ n) := by
  unfold numberPower?
  by_cases hzero : n = 0
  · simp [hzero]
  rw [if_neg hzero]
  by_cases htrivial : r = 0 ∨ r = 1
  · rcases htrivial with rfl | rfl <;> simp [hzero]
  rw [if_neg htrivial]
  by_cases hminus : r = -1
  · subst hminus
    rw [if_pos rfl]
    rcases Nat.even_or_odd n with hparity | hparity
    · rw [if_pos (Nat.even_iff.mp hparity), hparity.neg_one_pow]
    · rw [if_neg (by rw [Nat.odd_iff.mp hparity]; decide), hparity.neg_one_pow]
  rw [if_neg hminus]
  rfl

namespace Poly

theorem toPolynomial_add (p q : Poly) : toPolynomial (p.add q) = toPolynomial p + toPolynomial q := by
  induction p generalizing q with
  | nil => simp [add]
  | cons a p ih =>
    cases q with
    | nil => simp [add]
    | cons b q =>
      simp only [add, toPolynomial_cons, ih, map_add]
      ring

theorem toPolynomial_scale (c : ℚ) (p : Poly) : toPolynomial (scale c p) = C c * toPolynomial p := by
  induction p with
  | nil => simp [scale]
  | cons a p ih =>
    rw [scale] at ih
    simp only [scale, List.map_cons, toPolynomial_cons, ih, map_mul]
    ring

theorem toPolynomial_multiply (p q : Poly) :
    toPolynomial (p.multiply q) = toPolynomial p * toPolynomial q := by
  induction p with
  | nil => simp [multiply]
  | cons a p ih =>
    rw [multiply, toPolynomial_add, toPolynomial_scale, toPolynomial_cons, toPolynomial_cons, ih, map_zero,
      zero_add]
    ring

theorem toPolynomial_multiplyMore (product p : Poly) (n : ℕ) :
    toPolynomial (multiplyMore product p n) = toPolynomial product * toPolynomial p ^ n := by
  induction n generalizing product with
  | zero => simp [multiplyMore]
  | succ n ih =>
    rw [multiplyMore, ih, toPolynomial_multiply]
    ring

theorem trim_cons (a : ℚ) (p : Poly) :
    trim (a :: p) = if p.trim = [] ∧ a = 0 then [] else a :: p.trim := by
  rw [trim]
  cases p.trim with
  | nil => by_cases ha : a = 0 <;> simp [ha]
  | cons b q => simp

theorem toPolynomial_trim (p : Poly) : toPolynomial p.trim = toPolynomial p := by
  induction p with
  | nil => rfl
  | cons a p ih =>
    rw [trim_cons]
    split
    · next hzero =>
      obtain ⟨htrim, rfl⟩ := hzero
      rw [htrim] at ih
      simp [← ih]
    · rw [toPolynomial_cons, toPolynomial_cons, ih]

theorem parts_eq {a b : ℚ} {f g : ℚ[X]} (h : C a + X * f = C b + X * g) : a = b ∧ f = g := by
  have ha : a = b := by simpa using congrArg (eval 0) h
  exact ⟨ha, by simpa [ha] using h⟩

/-- Lists of the same polynomial differ only in the zeros at their ends. -/
theorem trim_eq_of_toPolynomial_eq {p q : Poly} (h : toPolynomial p = toPolynomial q) :
    p.trim = q.trim := by
  induction p generalizing q with
  | nil =>
    induction q with
    | nil => rfl
    | cons b q ih =>
      have hzero : C 0 + X * toPolynomial [] = C b + X * toPolynomial q := by simpa using h
      obtain ⟨hb, hq⟩ := parts_eq hzero
      rw [trim_cons, ← ih hq, if_pos ⟨rfl, hb.symm⟩]
      rfl
  | cons a p ih =>
    cases q with
    | nil =>
      have hzero : C a + X * toPolynomial p = C 0 + X * toPolynomial [] := by simpa using h
      obtain ⟨ha, hp⟩ := parts_eq hzero
      rw [trim_cons, ih hp, if_pos ⟨rfl, ha⟩]
      rfl
    | cons b q =>
      obtain ⟨rfl, hp⟩ := parts_eq h
      rw [trim_cons, trim_cons, ih hp]

/-- A list is recognised as a number exactly if its polynomial is that number. -/
theorem constant?_eq_some_iff {p : Poly} {c : ℚ} : p.constant? = some c ↔ toPolynomial p = C c := by
  constructor
  · intro h
    unfold constant? at h
    rw [← toPolynomial_trim]
    split at h
    · next htrim => cases h; simp [htrim]
    · next c' htrim => cases h; simp [htrim]
    · cases h
  · intro h
    have htrim : p.trim = trim [c] := trim_eq_of_toPolynomial_eq (by simpa using h)
    rw [trim_cons] at htrim
    by_cases hc : c = 0
    · simp [constant?, htrim, hc, trim]
    · simp [constant?, htrim, hc, trim]

theorem exists_power?_none (p : Poly) (n : ℕ) :
    ∃ q, p.power? none n = some q ∧ toPolynomial q = toPolynomial p ^ n := by
  unfold power?
  split
  · next c hc =>
    refine ⟨[c ^ n], by rw [numberPower?_none]; rfl, ?_⟩
    rw [constant?_eq_some_iff.mp hc]
    simp
  · refine ⟨multiplyMore [1] p n, rfl, ?_⟩
    simp [toPolynomial_multiplyMore]

end Poly

end PolyPlot.Exact
