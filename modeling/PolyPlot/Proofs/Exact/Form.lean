import Mathlib
import PolyPlot.Exact.Form
import PolyPlot.Proofs.Exact.Polynomial

open Polynomial

namespace PolyPlot.Exact.Form

theorem eq_of_orderRat {r s : ℚ} (h : orderRat r s = .eq) : r = s := by
  unfold orderRat at h
  split at h
  · cases h
  · split at h
    · assumption
    · cases h

theorem eq_of_order {a b : Form} (h : order a b = .eq) : a = b := by
  induction a generalizing b with
  | raised base exponent ihb ihe =>
    cases b with
    | raised base' exponent' =>
      obtain ⟨hbase, hexponent⟩ := Ordering.then_eq_eq.mp h
      rw [ihb hbase, ihe hexponent]
    | _ => cases h
  | plus r fs rest ihf ihr =>
    cases b with
    | plus r' gs rest' =>
      obtain ⟨hfactors, h⟩ := Ordering.then_eq_eq.mp h
      obtain ⟨hnumber, hrest⟩ := Ordering.then_eq_eq.mp h
      rw [eq_of_orderRat hnumber, ihf hfactors, ihr hrest]
    | _ => cases h
  | times base n rest ihb ihr =>
    cases b with
    | times base' m rest' =>
      obtain ⟨hbase, h⟩ := Ordering.then_eq_eq.mp h
      obtain ⟨hexponent, hrest⟩ := Ordering.then_eq_eq.mp h
      rw [ihb hbase, compare_eq_iff_eq.mp hexponent, ihr hrest]
    | _ => cases h
  | _ =>
    cases b with
    | _ => first | rfl | cases h

/-- The polynomial that a form stands for, if it is one. -/
noncomputable def toPolynomial : Form → ℚ[X]
  | x => X
  | raised _ _ | zero => 0
  | plus r fs rest => C r * fs.toPolynomial + rest.toPolynomial
  | one => 1
  | times b n rest => b.toPolynomial ^ n.toNat * rest.toPolynomial

/-- What a form is a part of. -/
inductive Role where
  | base
  | sum
  | product

/-- A form of a role whose exponents are all positive whole numbers. -/
inductive Plain : Role → Form → Prop
  | x : Plain .base x
  | base {s : Form} (hs : Plain .sum s) : Plain .base s
  | zero : Plain .sum zero
  | plus {r : ℚ} {fs rest : Form} (hfactors : Plain .product fs) (hrest : Plain .sum rest) :
      Plain .sum (plus r fs rest)
  | one : Plain .product one
  | times {b rest : Form} {n : ℤ} (hbase : Plain .base b) (hn : 0 < n) (hrest : Plain .product rest) :
      Plain .product (times b n rest)

variable {s t fs gs b : Form} {r c : ℚ} {n : ℤ}

theorem plain_addTerm (hfactors : Plain .product fs) (hs : Plain .sum s) :
    Plain .sum (addTerm r fs s) := by
  induction s with
  | plus r' gs rest _ ih =>
    cases hs with
    | plus hgs hrest =>
      unfold addTerm
      split
      · exact .plus hfactors (.plus hgs hrest)
      · split
        · exact hrest
        · exact .plus hgs hrest
      · exact .plus hgs (ih hrest)
  | zero => exact .plus hfactors .zero
  | _ => cases hs

theorem toPolynomial_addTerm (hs : Plain .sum s) :
    (addTerm r fs s).toPolynomial = C r * fs.toPolynomial + s.toPolynomial := by
  induction s with
  | plus r' gs rest _ ih =>
    cases hs with
    | plus hgs hrest =>
      unfold addTerm
      split
      · rfl
      · next horder =>
        obtain rfl := eq_of_order horder
        split
        · next hcancel =>
          rw [toPolynomial, ← add_assoc, ← add_mul, ← map_add, hcancel, map_zero, zero_mul, zero_add]
        · simp only [toPolynomial, map_add]
          ring
      · simp only [toPolynomial, ih hrest]
        ring
  | zero => simp [addTerm, toPolynomial]
  | _ => cases hs

theorem plain_add (hs : Plain .sum s) (ht : Plain .sum t) : Plain .sum (s.add t) := by
  induction s generalizing t with
  | plus r fs rest _ ih =>
    cases hs with
    | plus hfactors hrest => exact ih hrest (plain_addTerm hfactors ht)
  | zero => exact ht
  | _ => cases hs

theorem toPolynomial_add (hs : Plain .sum s) (ht : Plain .sum t) :
    (s.add t).toPolynomial = s.toPolynomial + t.toPolynomial := by
  induction s generalizing t with
  | plus r fs rest _ ih =>
    cases hs with
    | plus hfactors hrest =>
      rw [add, ih hrest (plain_addTerm hfactors ht), toPolynomial_addTerm ht, toPolynomial]
      ring
  | zero => simp [add, toPolynomial]
  | _ => cases hs

theorem plain_scale (hs : Plain .sum s) : Plain .sum (scale c s) := by
  induction s with
  | plus r fs rest _ ih =>
    cases hs with
    | plus hfactors hrest => exact .plus hfactors (ih hrest)
  | zero => exact .zero
  | _ => cases hs

theorem toPolynomial_scale (hs : Plain .sum s) : (scale c s).toPolynomial = C c * s.toPolynomial := by
  induction s with
  | plus r fs rest _ ih =>
    cases hs with
    | plus hfactors hrest =>
      simp only [scale, toPolynomial, ih hrest, map_mul]
      ring
  | zero => simp [scale, toPolynomial]
  | _ => cases hs

theorem plain_mulFactor (hb : Plain .base b) (hn : 0 < n) (hfactors : Plain .product fs) :
    Plain .product (mulFactor b n fs) := by
  induction fs with
  | times c m rest _ ih =>
    cases hfactors with
    | times hc hm hrest =>
      unfold mulFactor
      split
      · exact .times hb hn (.times hc hm hrest)
      · split
        · exact hrest
        · exact .times hc (by omega) hrest
      · exact .times hc hm (ih hrest)
  | one => exact .times hb hn .one
  | _ => cases hfactors

theorem toPolynomial_mulFactor (hn : 0 < n) (hfactors : Plain .product fs) :
    (mulFactor b n fs).toPolynomial = b.toPolynomial ^ n.toNat * fs.toPolynomial := by
  induction fs with
  | times c m rest _ ih =>
    cases hfactors with
    | times hc hm hrest =>
      unfold mulFactor
      split
      · rfl
      · next horder =>
        obtain rfl := eq_of_order horder
        rw [if_neg (by omega)]
        rw [toPolynomial, toPolynomial, Int.toNat_add hn.le hm.le, pow_add, mul_assoc]
      · simp only [toPolynomial, ih hrest]
        ring
  | one => rfl
  | _ => cases hfactors

theorem plain_mulFactors (hfactors : Plain .product fs) (hgs : Plain .product gs) :
    Plain .product (mulFactors fs gs) := by
  induction fs generalizing gs with
  | times b n rest _ ih =>
    cases hfactors with
    | times hb hn hrest => exact ih hrest (plain_mulFactor hb hn hgs)
  | one => exact hgs
  | _ => cases hfactors

theorem toPolynomial_mulFactors (hfactors : Plain .product fs) (hgs : Plain .product gs) :
    (mulFactors fs gs).toPolynomial = fs.toPolynomial * gs.toPolynomial := by
  induction fs generalizing gs with
  | times b n rest _ ih =>
    cases hfactors with
    | times hb hn hrest =>
      rw [mulFactors, ih hrest (plain_mulFactor hb hn hgs), toPolynomial_mulFactor hn hgs, toPolynomial]
      ring
  | one => simp [mulFactors, toPolynomial]
  | _ => cases hfactors

theorem plain_powerFactors (hn : 0 < n) (hfactors : Plain .product fs) :
    Plain .product (powerFactors n fs) := by
  induction fs with
  | times b m rest _ ih =>
    cases hfactors with
    | times hb hm hrest => exact .times hb (Int.mul_pos hn hm) (ih hrest)
  | one => exact .one
  | _ => cases hfactors

theorem toPolynomial_powerFactors (hn : 0 < n) (hfactors : Plain .product fs) :
    (powerFactors n fs).toPolynomial = fs.toPolynomial ^ n.toNat := by
  induction fs with
  | times b m rest _ ih =>
    cases hfactors with
    | times hb hm hrest =>
      rw [powerFactors, toPolynomial, toPolynomial, ih hrest, Int.toNat_mul hn.le hm.le, mul_comm n.toNat,
        pow_mul, mul_pow]
  | one => simp [powerFactors, toPolynomial]
  | _ => cases hfactors

theorem plain_asProduct (hs : Plain .sum s) : Plain .product s.asProduct.2 := by
  unfold asProduct
  split
  · cases hs with
    | plus hfactors _ => exact hfactors
  · exact .times (.base hs) Int.one_pos .one

theorem toPolynomial_asProduct (s : Form) :
    C s.asProduct.1 * s.asProduct.2.toPolynomial = s.toPolynomial := by
  unfold asProduct
  split <;> simp [toPolynomial]

theorem plain_ofProduct (hfactors : Plain .product fs) : Plain .sum (ofProduct r fs) := by
  unfold ofProduct
  split
  · cases hfactors with
    | times hbase _ _ =>
      cases hbase with
      | base hs => exact plain_scale hs
  · exact .plus hfactors .zero

theorem toPolynomial_ofProduct (hfactors : Plain .product fs) :
    (ofProduct r fs).toPolynomial = C r * fs.toPolynomial := by
  unfold ofProduct
  split
  · cases hfactors with
    | times hbase _ _ =>
      cases hbase with
      | base hs =>
        rw [toPolynomial_scale hs]
        simp [toPolynomial]
  · simp [toPolynomial]

theorem plain_multiply (hs : Plain .sum s) (ht : Plain .sum t) : Plain .sum (s.multiply t) := by
  unfold multiply
  split
  · exact .zero
  · exact plain_ofProduct (plain_mulFactors (plain_asProduct hs) (plain_asProduct ht))

theorem toPolynomial_multiply (hs : Plain .sum s) (ht : Plain .sum t) :
    (s.multiply t).toPolynomial = s.toPolynomial * t.toPolynomial := by
  unfold multiply
  split
  · next hzero => rcases hzero with rfl | rfl <;> simp [toPolynomial]
  · have hfactors := plain_asProduct hs
    have hgs := plain_asProduct ht
    rw [toPolynomial_ofProduct (plain_mulFactors hfactors hgs), toPolynomial_mulFactors hfactors hgs,
      ← toPolynomial_asProduct s, ← toPolynomial_asProduct t, map_mul]
    ring

theorem exists_power?_none (hs : Plain .sum s) (hn : 0 < n) :
    ∃ t, s.power? none n = some t ∧ Plain .sum t ∧ t.toPolynomial = s.toPolynomial ^ n.toNat := by
  have hfactors := plain_asProduct hs
  have habs : n.natAbs = n.toNat := by omega
  refine ⟨ofProduct (s.asProduct.1 ^ n.toNat) (powerFactors n s.asProduct.2), ?_, ?_, ?_⟩
  · simp [power?, hn.ne', hn.le.not_gt, habs, numberPower?_none]
  · exact plain_ofProduct (plain_powerFactors hn hfactors)
  · rw [toPolynomial_ofProduct (plain_powerFactors hn hfactors), toPolynomial_powerFactors hn hfactors,
      map_pow, ← mul_pow, toPolynomial_asProduct]

theorem plain_ofRat (r : ℚ) : Plain .sum (ofRat r) := by
  unfold ofRat
  split
  · exact .zero
  · exact .plus .one .zero

theorem toPolynomial_ofRat (r : ℚ) : (ofRat r).toPolynomial = C r := by
  unfold ofRat
  split
  · next hr => simp [toPolynomial, hr]
  · simp [toPolynomial]

theorem ofRat_eq_zero_iff : ofRat r = zero ↔ r = 0 := by
  by_cases hr : r = 0 <;> simp [ofRat, hr]

theorem add_ofRat (r q : ℚ) : (ofRat r).add (ofRat q) = ofRat (r + q) := by
  by_cases hr : r = 0
  · simp [ofRat, hr, add]
  by_cases hq : q = 0
  · simp [ofRat, hr, hq, add, addTerm]
  by_cases hcancel : r + q = 0 <;> simp [ofRat, hr, hq, add, addTerm, order, rank, hcancel]

theorem multiply_ofRat (r q : ℚ) : (ofRat r).multiply (ofRat q) = ofRat (r * q) := by
  by_cases hr : r = 0
  · simp [ofRat, hr, multiply]
  by_cases hq : q = 0
  · simp [ofRat, hq, multiply]
  simp [ofRat, hr, hq, multiply, asProduct, mulFactors, ofProduct]

theorem power?_ofRat (hr : r ≠ 0) (hn : n ≠ 0) : (ofRat r).power? none n = some (ofRat (r ^ n)) := by
  have hpower : (if n < 0 then r⁻¹ else r) ^ n.natAbs = r ^ n := by
    split
    · next hneg =>
      obtain ⟨m, rfl⟩ := Int.exists_eq_neg_ofNat hneg.le
      simp
    · next hpos =>
      obtain ⟨m, rfl⟩ := Int.eq_ofNat_of_zero_le (not_lt.mp hpos)
      simp
  simp [ofRat, hr, power?, hn, asProduct, numberPower?_none, hpower, powerFactors, ofProduct,
    zpow_ne_zero n hr]

end PolyPlot.Exact.Form
