import PolyPlot.Proofs.Coeffs.Length
import PolyPlot.Proofs.Double.Whole

namespace PolyPlot.Coeffs

open Double

variable {p q : Coeffs Float} {i k : ℕ} {u v : ℚ} {a : Float}

/-- The value of the entry of a power, zero beyond the vector. -/
structure Entry (p : Coeffs Float) (i : ℕ) (v : ℚ) : Prop where
  finite : (p.getD i 0).isFinite = true
  value_eq : Double.value (p.getD i 0) = v

theorem entry_cons_zero : Entry (a :: p) 0 v ↔ a.isFinite = true ∧ Double.value a = v :=
  ⟨fun h => ⟨h.finite, h.value_eq⟩, fun h => ⟨h.1, h.2⟩⟩

theorem entry_cons_succ : Entry (a :: p) (i + 1) v ↔ Entry p i v :=
  ⟨fun h => ⟨h.finite, h.value_eq⟩, fun h => ⟨h.finite, h.value_eq⟩⟩

theorem Entry.nil_eq_zero (h : Entry [] i v) : v = 0 := by
  rw [← h.value_eq, List.getD_nil, value_zero]

theorem entry_map {f : Float → Float} {g : ℚ → ℚ} (hzero : g 0 = 0)
    (hf : ∀ x : Float, x.isFinite = true → (f x).isFinite = true ∧ Double.value (f x) = g (Double.value x))
    (h : Entry p i v) : Entry (p.map f) i (g v) := by
  induction p generalizing i with
  | nil =>
    rw [h.nil_eq_zero, hzero]
    exact ⟨isFinite_zero, value_zero⟩
  | cons a p ih =>
    rw [List.map_cons]
    cases i with
    | zero =>
      obtain ⟨hfinite, rfl⟩ := entry_cons_zero.mp h
      exact entry_cons_zero.mpr (hf a hfinite)
    | succ i => exact entry_cons_succ.mpr (ih (entry_cons_succ.mp h))

theorem Entry.negate (h : Entry p i v) : Entry p.negate i (-v) :=
  entry_map neg_zero (fun _ hx => ⟨isFinite_neg hx, value_neg hx⟩) h

theorem zero_add_of_finite {x : Float} (hx : x.isFinite = true) :
    (0 + x).isFinite = true ∧ Double.value (0 + x) = Double.value x := by
  obtain ⟨hfinite, hvalue⟩ := add_of_zero isFinite_zero hx (.inl value_zero)
  exact ⟨hfinite, by rw [hvalue, value_zero, zero_add]⟩

theorem zero_sub_of_finite {x : Float} (hx : x.isFinite = true) :
    (0 - x).isFinite = true ∧ Double.value (0 - x) = -Double.value x := by
  obtain ⟨hfinite, hvalue⟩ := sub_of_zero isFinite_zero hx (.inl value_zero)
  exact ⟨hfinite, by rw [hvalue, value_zero, zero_sub]⟩

/-- An operation by powers is exact on values, if it is so on entries of which one is zero. -/
theorem Entry.entrywise {both : Float → Float → Float} {left right : Float → Float} {f : ℚ → ℚ → ℚ}
    (hzero : f 0 0 = 0)
    (hboth : ∀ {a b : Float}, a.isFinite = true → b.isFinite = true →
      Double.value a = 0 ∨ Double.value b = 0 →
      (both a b).isFinite = true ∧ Double.value (both a b) = f (Double.value a) (Double.value b))
    (hleft : ∀ a : Float, a.isFinite = true →
      (left a).isFinite = true ∧ Double.value (left a) = f (Double.value a) 0)
    (hright : ∀ b : Float, b.isFinite = true →
      (right b).isFinite = true ∧ Double.value (right b) = f 0 (Double.value b))
    (hp : Entry p i u) (hq : Entry q i v) (h : u = 0 ∨ v = 0) :
    Entry (Coeffs.entrywise both left right p q) i (f u v) := by
  induction p generalizing q i with
  | nil =>
    have hmap : Coeffs.entrywise both left right [] q = q.map right := by
      cases q <;> rfl
    rw [hp.nil_eq_zero, hmap]
    exact entry_map hzero hright hq
  | cons a p ih =>
    cases q with
    | nil =>
      rw [hq.nil_eq_zero]
      exact entry_map (g := fun u => f u 0) hzero hleft hp
    | cons b q =>
      cases i with
      | zero =>
        obtain ⟨ha, rfl⟩ := entry_cons_zero.mp hp
        obtain ⟨hb, rfl⟩ := entry_cons_zero.mp hq
        exact entry_cons_zero.mpr (hboth ha hb h)
      | succ i => exact entry_cons_succ.mpr (ih (entry_cons_succ.mp hp) (entry_cons_succ.mp hq))

theorem Entry.add (hp : Entry p i u) (hq : Entry q i v) (h : u = 0 ∨ v = 0) :
    Entry (p.add q) i (u + v) := by
  rw [add_eq_entrywise]
  refine .entrywise (f := (· + ·)) (add_zero 0) (fun ha hb hzero => ?_) (fun a ha => ?_) (fun b hb => ?_) hp hq h
  · obtain ⟨hfinite, hvalue⟩ := zero_add_of_finite ha
    rw [← hvalue] at hzero ⊢
    exact add_of_zero hfinite hb hzero
  · rw [add_zero]
    exact zero_add_of_finite ha
  · rw [zero_add (Double.value b)]
    exact zero_add_of_finite hb

theorem Entry.subtract (hp : Entry p i u) (hq : Entry q i v) (h : u = 0 ∨ v = 0) :
    Entry (p.subtract q) i (u - v) := by
  rw [subtract_eq_entrywise]
  refine .entrywise (f := (· - ·)) (sub_zero 0) (fun ha hb hzero => ?_) (fun a ha => ?_) (fun b hb => ?_) hp hq h
  · obtain ⟨hfinite, hvalue⟩ := zero_add_of_finite ha
    rw [← hvalue] at hzero ⊢
    exact sub_of_zero hfinite hb hzero
  · rw [sub_zero]
    exact zero_add_of_finite ha
  · rw [zero_sub (Double.value b)]
    exact zero_sub_of_finite hb

/-- The vector of a multiple of one power. -/
def monomial (k : ℕ) (a : Float) : Coeffs Float :=
  List.replicate k 0 ++ [a]

@[simp] theorem length_monomial (k : ℕ) (a : Float) : (monomial k a).length = k + 1 := by
  simp [monomial]

@[simp] theorem getD_monomial (k : ℕ) (a : Float) : (monomial k a).getD k 0 = a := by
  simp [monomial, List.getD_eq_getElem?_getD]

theorem monomial_succ (k : ℕ) (a : Float) : monomial (k + 1) a = 0 :: monomial k a :=
  rfl

theorem entry_monomial (ha : a.isFinite = true) (k i : ℕ) :
    Entry (monomial k a) i (if i = k then Double.value a else 0) := by
  induction k generalizing i with
  | zero =>
    cases i with
    | zero => exact entry_cons_zero.mpr ⟨ha, rfl⟩
    | succ i => exact entry_cons_succ.mpr ⟨isFinite_zero, value_zero⟩
  | succ k ih =>
    rw [monomial_succ]
    cases i with
    | zero => exact entry_cons_zero.mpr ⟨isFinite_zero, value_zero⟩
    | succ i =>
      simp only [Nat.add_right_cancel_iff]
      exact entry_cons_succ.mpr (ih i)

theorem addProduct_monomial_x (k : ℕ) :
    addProduct (List.replicate (k + 2) (0 : Float)) (monomial k 1) [0, 1] = monomial (k + 1) 1 := by
  induction k with
  | zero => decide
  | succ k ih =>
    have hzero : (0 : Float) + 0 * 0 = 0 := by decide
    have hzero' : (0 : Float) + 0 * 1 = 0 := by decide
    have hsums : addMultiple (0 : Float) (List.replicate (k + 3) 0) [0, 1] =
        0 :: List.replicate (k + 2) 0 := by
      change ((0 : Float) + 0 * 0) :: ((0 : Float) + 0 * 1) :: List.replicate (k + 1) 0 = _
      rw [hzero, hzero']
      rfl
    rw [monomial_succ, monomial_succ, addProduct, hsums]
    dsimp only
    rw [ih]

/-- One more factor of `x`. -/
theorem monomial_multiply_x (k : ℕ) : (monomial k 1).multiply [0, 1] = monomial (k + 1) 1 := by
  have hnonempty : ((monomial k 1).isEmpty || ([0, 1] : Coeffs Float).isEmpty) = false := by
    simp [monomial]
  have hlength : (monomial k 1).length + ([0, 1] : Coeffs Float).length - 1 = k + 2 := by
    rw [length_monomial]
    rfl
  unfold multiply
  rw [hnonempty, if_neg Bool.false_ne_true, hlength]
  exact addProduct_monomial_x k

theorem multiplyMore_monomial (k n : ℕ) : multiplyMore (monomial k 1) [0, 1] n = monomial (k + n) 1 := by
  induction n generalizing k with
  | zero => rfl
  | succ n ih =>
    rw [multiplyMore, monomial_multiply_x, ih]
    congr 1
    omega

/-- A power of `x`. -/
theorem power_x (n : ℕ) : power ([0, 1] : Coeffs Float) n = monomial n 1 := by
  cases n with
  | zero => rfl
  | succ n =>
    change multiplyMore (monomial 1 1) [0, 1] n = _
    rw [multiplyMore_monomial, Nat.add_comm]

theorem addMultiple_monomial (ha : a.isFinite = true) (hne : Double.value a ≠ 0) (k : ℕ) :
    addMultiple a (List.replicate (k + 1) 0) (monomial k 1) = monomial k a := by
  have hone : 0 + a * 1 = a := by rw [mul_one_eq ha hne, zero_add_eq isFinite_zero value_zero hne ha]
  have hzero : 0 + a * 0 = 0 := by
    obtain ⟨negative, hproduct⟩ := exists_mul_signedZero ha isFinite_zero (.inr value_zero)
    rw [hproduct]
    exact zero_add_eq_zero (isFinite_signedZero negative) (value_signedZero negative)
  induction k with
  | zero =>
    change [(0 : Float) + a * 1] = [a]
    rw [hone]
  | succ k ih =>
    change ((0 : Float) + a * 0) :: addMultiple a (List.replicate (k + 1) 0) (monomial k 1) = _
    rw [hzero, ih]
    rfl

/-- A number times a power of `x`. -/
theorem multiply_monomial (ha : a.isFinite = true) (hne : Double.value a ≠ 0) (k : ℕ) :
    multiply [a] (monomial k 1) = monomial k a := by
  have hnonempty : (([a] : Coeffs Float).isEmpty || (monomial k 1).isEmpty) = false := by
    simp [monomial]
  have hlength : ([a] : Coeffs Float).length + (monomial k 1).length - 1 = k + 1 := by
    rw [length_monomial, List.length_singleton]
    omega
  have hproduct (sums : Coeffs Float) :
      addProduct sums [a] (monomial k 1) = addMultiple a sums (monomial k 1) := by
    rw [addProduct]
    cases addMultiple a sums (monomial k 1) <;> rfl
  unfold multiply
  rw [hnonempty, if_neg Bool.false_ne_true, hlength, hproduct]
  exact addMultiple_monomial ha hne k

end PolyPlot.Coeffs
