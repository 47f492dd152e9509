import PolyPlot.Exact.Expansion
import PolyPlot.Proofs.Exact.Form
import PolyPlot.Proofs.Exact.Laws

open Polynomial

namespace PolyPlot.Exact

open Coeffs (toPolynomial)

variable {a : Poly} {q raw : List ℚ} {r : ℚ} {n : ℕ}

namespace Poly

theorem constant?_singleton (r : ℚ) : constant? [r] = some r :=
  constant?_eq_some_iff.mpr (by simp)

end Poly

namespace Value

/-- A value is a polynomial, and so is its form. -/
inductive IsPolynomial (p : ℚ[X]) : Value → Prop
  | intro {a : Poly} {form : Form} (hpoly : toPolynomial a = p) (hplain : form.Plain .sum)
      (hform : form.toPolynomial = p) : IsPolynomial p (finite (some a) form)

variable {p q : ℚ[X]} {v w : Value}

theorem isPolynomial_ofRat (r : ℚ) : IsPolynomial (C r) (ofRat r) :=
  ⟨by simp, Form.plain_ofRat r, Form.toPolynomial_ofRat r⟩

theorem IsPolynomial.add (hv : IsPolynomial p v) (hw : IsPolynomial q w) :
    IsPolynomial (p + q) (v.add w) := by
  obtain ⟨ha, hs, hsum⟩ := hv
  obtain ⟨hb, ht, htsum⟩ := hw
  refine ⟨?_, Form.plain_add hs ht, ?_⟩
  · rw [Poly.toPolynomial_add, ha, hb]
  · rw [Form.toPolynomial_add hs ht, hsum, htsum]

theorem IsPolynomial.multiply (hv : IsPolynomial p v) (hw : IsPolynomial q w) :
    IsPolynomial (p * q) (v.multiply w) := by
  obtain ⟨ha, hs, hsum⟩ := hv
  obtain ⟨hb, ht, htsum⟩ := hw
  refine ⟨?_, Form.plain_multiply hs ht, ?_⟩
  · rw [Poly.toPolynomial_multiply, ha, hb]
  · rw [Form.toPolynomial_multiply hs ht, hsum, htsum]

theorem IsPolynomial.negate (hv : IsPolynomial p v) : IsPolynomial (-p) v.negate := by
  have hproduct := (isPolynomial_ofRat (-1)).multiply hv
  rwa [map_neg, map_one, neg_one_mul] at hproduct

theorem IsPolynomial.wholePower (hv : IsPolynomial p v) (n : ℕ) :
    IsPolynomial (p ^ n) (v.wholePower none n) := by
  rcases Nat.eq_zero_or_pos n with rfl | hpos
  · have hone := isPolynomial_ofRat 1
    rwa [map_one, ← pow_zero p] at hone
  obtain @⟨a, s, ha, hs, hform⟩ := hv
  simp only [Value.wholePower, if_neg (Int.natCast_ne_zero.mpr hpos.ne')]
  split
  · next hsum =>
    -- The form has lost all its terms, so the polynomial is zero.
    have hvanishes : p = 0 := by
      rw [← hform, hsum]
      rfl
    have hzero := isPolynomial_ofRat 0
    rw [if_neg (by omega), hvanishes, zero_pow hpos.ne']
    rwa [map_zero] at hzero
  · obtain ⟨t, ht, hplain, hpower⟩ := Form.exists_power?_none hs (Int.natCast_pos.mpr hpos)
    obtain ⟨b, hb, hbpower⟩ := Poly.exists_power?_none a n
    have hwhole : powerPoly? none a n = some b := by
      rw [powerPoly?, if_pos (Int.natCast_nonneg n), Int.toNat_natCast, hb]
    simp only [ht, Option.bind_some, hwhole]
    refine ⟨?_, hplain, ?_⟩
    · rw [hbpower, ha]
    · rw [hpower, hform, Int.toNat_natCast]

/-- The inverse of a number is a number. -/
theorem wholePower_neg_one (hr : r ≠ 0) : (ofRat r).wholePower none (-1) = ofRat r⁻¹ := by
  have hform : (Form.ofRat r).power? none (-1) = some (.ofRat r⁻¹) := by
    rw [Form.power?_ofRat hr (by decide), zpow_neg_one]
  have hpoly : powerPoly? none [r] (-1) = some [r⁻¹] := by
    simp [powerPoly?, Poly.constant?_singleton, hr, numberPower?_none]
  simp only [Value.wholePower, if_neg (show ¬ (-1 : ℤ) = 0 by decide), ofRat, Form.ofRat_eq_zero_iff, hr,
    if_false, hform, Option.bind_some, hpoly]

theorem wholePower_ofRat (r : ℚ) (n : ℕ) : (ofRat r).wholePower none n = ofRat (r ^ n) := by
  rcases Nat.eq_zero_or_pos n with rfl | hpos
  · rw [pow_zero]
    rfl
  have hne : (n : ℤ) ≠ 0 := by omega
  by_cases hr : r = 0
  · subst hr
    simp only [Value.wholePower, if_neg hne, ofRat, Form.ofRat_eq_zero_iff, if_true, zero_pow hpos.ne']
    rw [if_neg (by omega)]
  · have hpoly : powerPoly? none [r] n = some [r ^ n] := by
      simp [powerPoly?, Poly.power?, Poly.constant?_singleton, numberPower?_none]
    simp only [Value.wholePower, if_neg hne, ofRat, Form.ofRat_eq_zero_iff, hr, if_false,
      Form.power?_ofRat hr hne, Option.bind_some, hpoly, zpow_natCast]

/-- A power with a number as exponent is a whole power. -/
theorem power_ofRat (v : Value) (r : ℚ) : v.power none (ofRat r) = v.wholePower none ⌊r⌋ := by
  simp only [Value.power, ofRat, Option.bind_some, Poly.constant?_singleton]
  rfl

end Value

section System

open Value

theorem add_ofRat (r s : ℚ) : (ofRat r).add (ofRat s) = ofRat (r + s) := by
  simp only [Value.add, ofRat, Form.add_ofRat]
  rfl

theorem multiply_ofRat (r s : ℚ) : (ofRat r).multiply (ofRat s) = ofRat (r * s) := by
  have hpoly : Poly.multiply [r] [s] = [r * s] := by simp [Poly.multiply, Poly.add, Poly.scale]
  simp only [Value.multiply, ofRat, Form.multiply_ofRat, bind, Option.bind, pure, hpoly]

/-- The system that works out every power computes with numbers as rationals do. -/
theorem exactArithmetic_system : (system none).ExactArithmetic where
  negate r := by
    change (ofRat (-1)).multiply (ofRat r) = ofRat (-r)
    rw [multiply_ofRat, neg_one_mul]
  add := add_ofRat
  subtract r s := by
    change (ofRat r).add ((ofRat (-1)).multiply (ofRat s)) = ofRat (r - s)
    rw [multiply_ofRat, add_ofRat, neg_one_mul, sub_eq_add_neg]
  multiply := multiply_ofRat
  divide r s hs := by
    change (ofRat r).multiply ((ofRat s).wholePower none (-1)) = ofRat (r / s)
    rw [wholePower_neg_one hs, multiply_ofRat, div_eq_mul_inv]
  power r n := by
    change (ofRat r).power none (ofRat n) = ofRat (r ^ n)
    rw [power_ofRat, Int.floor_natCast, wholePower_ofRat]
  expand r := by
    change ofPoly [r] = ofRat r
    rw [ofPoly, Poly.constant?_singleton]
  isConstant r := by
    change (Poly.constant? [r]).isSome = true
    rw [Poly.constant?_singleton]
    rfl
  floor r := by
    change (ofRat r).floor = ofRat ⌊r⌋
    simp only [Value.floor, ofRat, Option.bind_some, Poly.constant?_singleton]
    rfl

end System

end PolyPlot.Exact
