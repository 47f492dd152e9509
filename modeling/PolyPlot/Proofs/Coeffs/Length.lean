import PolyPlot.Coeffs.Basic

namespace PolyPlot.Coeffs

variable {α : Type}

/-- Two vectors combined power by power. Behind the end of the shorter one, the longer one goes on alone. -/
def entrywise (both : α → α → α) (left right : α → α) : Coeffs α → Coeffs α → Coeffs α
  | [], q => q.map right
  | p, [] => p.map left
  | a :: p, b :: q => both a b :: entrywise both left right p q

theorem length_entrywise (both : α → α → α) (left right : α → α) (p q : Coeffs α) :
    (entrywise both left right p q).length = max p.length q.length := by
  induction p generalizing q with
  | nil => cases q <;> simp [entrywise]
  | cons a p ih =>
    cases q with
    | nil => simp [entrywise]
    | cons b q =>
      simp only [entrywise, List.length_cons, ih]
      omega

variable [Scalar α]

theorem add_eq_entrywise (p q : Coeffs α) :
    p.add q = entrywise (fun a b => 0 + a + b) (0 + ·) (0 + ·) p q := by
  induction p generalizing q with
  | nil => cases q <;> rfl
  | cons a p ih =>
    cases q with
    | nil => rfl
    | cons b q => exact congrArg _ (ih q)

theorem subtract_eq_entrywise (p q : Coeffs α) :
    p.subtract q = entrywise (fun a b => 0 + a - b) (0 + ·) (0 - ·) p q := by
  induction p generalizing q with
  | nil => cases q <;> rfl
  | cons a p ih =>
    cases q with
    | nil => rfl
    | cons b q => exact congrArg _ (ih q)

@[simp] theorem length_add (p q : Coeffs α) : (p.add q).length = max p.length q.length := by
  rw [add_eq_entrywise, length_entrywise]

@[simp] theorem length_subtract (p q : Coeffs α) : (p.subtract q).length = max p.length q.length := by
  rw [subtract_eq_entrywise, length_entrywise]

@[simp] theorem length_negate (p : Coeffs α) : p.negate.length = p.length := by
  simp [negate]

@[simp] theorem length_addMultiple (a : α) (sums q : Coeffs α) :
    (addMultiple a sums q).length = sums.length := by
  induction sums generalizing q with
  | nil => cases q <;> rfl
  | cons s sums ih => cases q <;> simp [addMultiple, ih]

@[simp] theorem length_addProduct (sums p q : Coeffs α) :
    (addProduct sums p q).length = sums.length := by
  induction p generalizing sums with
  | nil => rfl
  | cons a p ih =>
    have hlength := length_addMultiple a sums q
    unfold addProduct
    split
    · next h => rw [← hlength, h]
    · next s rest h =>
      rw [h] at hlength
      simpa [ih] using hlength

theorem length_multiply {p q : Coeffs α} (hp : p ≠ []) (hq : q ≠ []) :
    (p.multiply q).length = p.length + q.length - 1 := by
  simp [multiply, hp, hq]

theorem multiply_ne_nil {p q : Coeffs α} (hp : p ≠ []) (hq : q ≠ []) : p.multiply q ≠ [] := by
  have hp' := List.length_pos_iff.mpr hp
  have hq' := List.length_pos_iff.mpr hq
  have hlength := length_multiply hp hq
  intro h
  rw [h, List.length_nil] at hlength
  omega

theorem length_multiplyMore {product p : Coeffs α} (hproduct : product ≠ []) (hp : p ≠ []) (n : Nat) :
    (multiplyMore product p n).length = product.length + n * (p.length - 1) := by
  have hp' := List.length_pos_iff.mpr hp
  induction n generalizing product with
  | zero => simp [multiplyMore]
  | succ n ih =>
    have hproduct' := List.length_pos_iff.mpr hproduct
    rw [multiplyMore, ih (multiply_ne_nil hproduct hp), length_multiply hproduct hp, Nat.succ_mul]
    omega

theorem length_power {p : Coeffs α} (hp : p ≠ []) (n : Nat) :
    (p.power n).length = 1 + n * (p.length - 1) := by
  have hp' := List.length_pos_iff.mpr hp
  cases n with
  | zero => simp [power]
  | succ n =>
    rw [power, length_multiplyMore hp hp, Nat.succ_mul]
    omega

end PolyPlot.Coeffs
