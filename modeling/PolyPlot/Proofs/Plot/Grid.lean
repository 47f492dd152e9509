import Mathlib.Data.Int.Log
import PolyPlot.Plot.Grid
import PolyPlot.Proofs.Double.Growth
import PolyPlot.Proofs.Plot.Position

namespace PolyPlot.Viewport

open Double (value)

section Walk

variable {α : Type} [Scalar α] {w : Walk α} {inside : α → Bool} {start spacing position : α} {count n : ℕ}
  {lines : List α}

/-- The position of a walk after so many steps. -/
def positionAt (spacing position : α) (n : ℕ) : α :=
  (· + spacing)^[n] position

theorem positionAt_succ (spacing position : α) (n : ℕ) :
    positionAt spacing position (n + 1) = positionAt spacing position n + spacing :=
  Function.iterate_succ_apply' _ n position

/-- A walk that ends does so at the first position outside. -/
theorem exists_of_steps_eq_some (h : w.steps count position = some n) :
    ∃ k, n = count + k ∧ (∀ j < k, w.inside (positionAt w.spacing position j) = true) ∧
      w.inside (positionAt w.spacing position k) = false := by
  refine Walk.steps.partial_correctness w (fun count position n => ∃ k, n = count + k ∧
    (∀ j < k, w.inside (positionAt w.spacing position j) = true) ∧
      w.inside (positionAt w.spacing position k) = false) ?_ count position n h
  intro walk ih count position n h
  split at h
  · next hinside =>
    obtain ⟨k, rfl, hbefore, hk⟩ := ih _ _ _ h
    refine ⟨k + 1, by omega, fun j hj => ?_, hk⟩
    cases j with
    | zero => exact hinside
    | succ j => exact hbefore j (by omega)
  · next houtside =>
    cases h
    exact ⟨0, rfl, fun j hj => absurd hj (Nat.not_lt_zero j), Bool.eq_false_iff.mpr houtside⟩

theorem steps_eq_some {k : ℕ} (hbefore : ∀ j < k, w.inside (positionAt w.spacing position j) = true)
    (hk : w.inside (positionAt w.spacing position k) = false) :
    w.steps count position = some (count + k) := by
  induction k generalizing count position with
  | zero =>
    have hposition : w.inside position = false := hk
    rw [Walk.steps, hposition]
    rfl
  | succ k ih =>
    have hposition : w.inside position = true := hbefore 0 (Nat.succ_pos k)
    rw [Walk.steps, hposition, if_pos rfl, ih (fun j hj => hbefore (j + 1) (by omega)) hk]
    congr 1
    omega

theorem steps_eq_none_iff :
    w.steps count position = none ↔ ∀ n, w.inside (positionAt w.spacing position n) = true := by
  constructor
  · intro hnone
    by_contra houtside
    obtain ⟨n, hn⟩ := not_forall.mp houtside
    -- the least position outside
    classical
    have hexists : ∃ n, w.inside (positionAt w.spacing position n) = false := ⟨n, Bool.eq_false_iff.mpr hn⟩
    have hsome : w.steps count position = some (count + Nat.find hexists) :=
      steps_eq_some (fun j hj => Bool.of_not_eq_false (Nat.find_min hexists hj)) (Nat.find_spec hexists)
    rw [hnone] at hsome
    cases hsome
  · intro hinside
    cases h : w.steps count position with
    | none => rfl
    | some n =>
      obtain ⟨k, -, -, hk⟩ := exists_of_steps_eq_some h
      rw [hinside k] at hk
      cases hk

theorem positions_eq (spacing position : α) (n : ℕ) :
    positions spacing n position = (List.range n).map (positionAt spacing position) := by
  induction n generalizing position with
  | zero => rfl
  | succ n ih =>
    rw [positions, ih, List.range_succ_eq_map, List.map_cons, List.map_map]
    rfl

theorem gridLines_eq (hspacing : Scalar.isZero spacing = false) :
    gridLines start inside spacing =
      match Walk.steps ⟨inside, spacing⟩ 0 (Scalar.remainder start spacing) with
      | some n => .ok (positions spacing n (Scalar.remainder start spacing))
      | none => .error .unending := by
  have hfirst : Scalar.remainder? start spacing = .ok (Scalar.remainder start spacing) := by
    rw [Scalar.remainder?, hspacing]
    rfl
  rw [gridLines, hfirst]
  rfl

/-- The grid lines are the positions of the walk before the first one outside. -/
theorem gridLines_eq_ok_iff (hspacing : Scalar.isZero spacing = false) :
    gridLines start inside spacing = .ok lines ↔
      ∃ n, lines = (List.range n).map (positionAt spacing (Scalar.remainder start spacing)) ∧
        (∀ j < n, inside (positionAt spacing (Scalar.remainder start spacing) j) = true) ∧
        inside (positionAt spacing (Scalar.remainder start spacing) n) = false := by
  rw [gridLines_eq hspacing]
  constructor
  · intro h
    split at h
    · next n hsteps =>
      cases h
      obtain ⟨k, rfl, hbefore, hk⟩ := exists_of_steps_eq_some hsteps
      rw [Nat.zero_add]
      exact ⟨k, positions_eq _ _ k, hbefore, hk⟩
    · cases h
  · rintro ⟨n, rfl, hbefore, hn⟩
    rw [steps_eq_some hbefore hn, Nat.zero_add]
    exact congrArg Except.ok (positions_eq _ _ n)

/-- The walk never ends exactly if all its positions are inside. -/
theorem gridLines_eq_unending_iff (hspacing : Scalar.isZero spacing = false) :
    gridLines start inside spacing = .error .unending ↔
      ∀ n, inside (positionAt spacing (Scalar.remainder start spacing) n) = true := by
  have hnone : Walk.steps ⟨inside, spacing⟩ 0 (Scalar.remainder start spacing) = none ↔
      ∀ n, inside (positionAt spacing (Scalar.remainder start spacing) n) = true := steps_eq_none_iff
  rw [gridLines_eq hspacing, ← hnone]
  cases Walk.steps ⟨inside, spacing⟩ 0 (Scalar.remainder start spacing) with
  | none => simp
  | some n => simp

theorem exists_gridLines_iff (hspacing : Scalar.isZero spacing = false) :
    (∃ lines, gridLines start inside spacing = .ok lines) ↔
      gridLines start inside spacing ≠ .error .unending := by
  rw [gridLines_eq hspacing]
  cases Walk.steps ⟨inside, spacing⟩ 0 (Scalar.remainder start spacing) with
  | none => simp
  | some n => simp

end Walk

section Double

variable {limit : ℤ} {negative : Bool} {c : ℤ} {first spacing x : Float}

theorem isBelow_of_isFinite (limit : ℤ) (hx : x.isFinite = true) :
    isBelow limit x = true ↔ value x < limit := by
  simp only [isBelow, Double.floor_eq hx, decide_eq_true_eq, Int.floor_lt]

theorem isBelow_of_infinite (limit : ℤ) (h : Binary.ofFloat x = .infinite negative) :
    isBelow limit x = negative := by
  have hfloor : Scalar.floor x = .error .overflow := by
    change (Binary.ofFloat x).wholePart Int.fdiv = _
    rw [h, Binary.wholePart]
  obtain rfl : x = Double.ofMagnitudeBits negative Double.infinityBits :=
    Double.ofFloat_injective (h.trans Double.ofFloat_infinite.symm)
  simp only [isBelow, hfloor]
  cases negative <;> decide

/-- A walk that leads down stays below its first position. -/
theorem isBelow_positionAt_of_neg (hfirst : first.isFinite = true) (hspacing : spacing.isFinite = true)
    (hneg : value spacing < 0) (hbelow : value first < limit) (n : ℕ) :
    isBelow limit (positionAt spacing first n) = true := by
  have hinvariant : (positionAt spacing first n).isFinite = true ∧
      value (positionAt spacing first n) ≤ value first ∨
        Binary.ofFloat (positionAt spacing first n) = .infinite true := by
    induction n with
    | zero => exact .inl ⟨hfirst, le_rfl⟩
    | succ n ih =>
      rw [positionAt_succ]
      rcases ih with ⟨hfinite, hle⟩ | hinfinite
      · exact (Double.add_of_neg hfinite hspacing hneg).imp_left fun h => ⟨h.1, h.2.trans hle⟩
      · rw [Double.add_eq_self_of_infinite hinfinite hspacing]
        exact .inr hinfinite
  rcases hinvariant with ⟨hfinite, hle⟩ | hinfinite
  · exact (isBelow_of_isFinite limit hfinite).mpr (hle.trans_lt hbelow)
  · exact isBelow_of_infinite limit hinfinite

/-- A walk that leads up comes to a stand at the end of its reach. -/
theorem isBelow_positionAt_of_beyond (hfirst : first.isFinite = true) (hspacing : spacing.isFinite = true)
    (hnonneg : 0 ≤ value first) (hle : value first ≤ 2 ^ (53 + c)) (hpos : 0 < value spacing)
    (hstep : value spacing ≤ 2 ^ c) (hc : c ≤ 970) (hbeyond : 2 ^ (53 + c) < (limit : ℚ)) (n : ℕ) :
    isBelow limit (positionAt spacing first n) = true := by
  have hinvariant : (positionAt spacing first n).isFinite = true ∧
      0 ≤ value (positionAt spacing first n) ∧ value (positionAt spacing first n) ≤ 2 ^ (53 + c) := by
    induction n with
    | zero => exact ⟨hfirst, hnonneg, hle⟩
    | succ n ih =>
      obtain ⟨hfinite, hlow, hhigh⟩ := ih
      rw [positionAt_succ]
      exact Double.value_add_le_reach hfinite hspacing hlow hhigh hpos hstep hc
  obtain ⟨hfinite, -, hhigh⟩ := hinvariant
  exact (isBelow_of_isFinite limit hfinite).mpr (hhigh.trans_lt hbeyond)

/-- While a walk that leads up is below a limit within its reach, each step gains at least the least
double. -/
theorem add_le_value_positionAt (hfirst : first.isFinite = true) (hspacing : spacing.isFinite = true)
    (hnonneg : 0 ≤ value first) (hstep : 2 ^ (c - 1) < value spacing)
    (hwithin : (limit : ℚ) ≤ 2 ^ (53 + c))
    (hbelow : ∀ n, isBelow limit (positionAt spacing first n) = true) (n : ℕ) :
    (positionAt spacing first n).isFinite = true ∧
      value first + n * 2 ^ (-1074 : ℤ) ≤ value (positionAt spacing first n) := by
  have hpos : 0 < value spacing := lt_trans (by positivity) hstep
  induction n with
  | zero => exact ⟨hfirst, by rw [Nat.cast_zero, zero_mul, add_zero]; exact le_rfl⟩
  | succ n ih =>
    obtain ⟨hfinite, hle⟩ := ih
    have hposition : 0 ≤ value (positionAt spacing first n) := le_trans (by positivity) hle
    have hnext := hbelow (n + 1)
    rw [positionAt_succ] at hnext ⊢
    have hsum : 0 < value (positionAt spacing first n) + value spacing := by linarith
    have hfinite' : (positionAt spacing first n + spacing).isFinite = true := by
      by_contra hinfinite
      rw [Double.add_eq_ofRat hfinite hspacing hsum.ne'] at hnext hinfinite
      have hup := Double.ofFloat_ofRat_of_not_isFinite hinfinite
      rw [decide_eq_false (not_lt.mpr hsum.le)] at hup
      rw [isBelow_of_infinite limit hup] at hnext
      cases hnext
    have hreach : value (positionAt spacing first n) < 2 ^ (53 + c) :=
      ((isBelow_of_isFinite limit hfinite).mp (hbelow n)).trans_le hwithin
    have hgain := Double.add_le_of_value_lt hfinite hfinite'
      (Double.lt_value_add hfinite hspacing hfinite' hposition hreach hstep)
    rw [Nat.cast_succ, add_one_mul, ← add_assoc]
    exact ⟨hfinite', (add_le_add_left hle _).trans hgain⟩

/-- A walk that leads up gets to every limit within its reach. -/
theorem exists_not_isBelow (hfirst : first.isFinite = true) (hspacing : spacing.isFinite = true)
    (hnonneg : 0 ≤ value first) (hstep : 2 ^ (c - 1) < value spacing)
    (hwithin : (limit : ℚ) ≤ 2 ^ (53 + c)) :
    ¬ ∀ n, isBelow limit (positionAt spacing first n) = true := by
  intro hbelow
  have hunit : (0 : ℚ) < 2 ^ (-1074 : ℤ) := by positivity
  obtain ⟨n, hn⟩ := exists_nat_gt ((limit : ℚ) / 2 ^ (-1074 : ℤ))
  rw [div_lt_iff₀ hunit] at hn
  obtain ⟨hfinite, hle⟩ := add_le_value_positionAt hfirst hspacing hnonneg hstep hwithin hbelow n
  have hlimit := (isBelow_of_isFinite limit hfinite).mp (hbelow n)
  linarith

/-- The size of a canvas with a center has a double. -/
theorem lt_of_isFinite_center {pan : Float}
    (h : (Scalar.ofInt limit / Scalar.ofInt 2 + pan : Float).isFinite = true) :
    (limit : ℚ) < 2 ^ (1024 : ℤ) := by
  rcases le_or_gt limit 0 with hneg | hpos
  · have hnonpos : (limit : ℚ) ≤ 0 := Int.cast_nonpos.mpr hneg
    exact hnonpos.trans_lt (zpow_pos two_pos 1024)
  · have hsize := (Double.isFinite_of_isFinite_div (Double.isFinite_of_isFinite_add h).1).1
    obtain ⟨n, rfl⟩ := Int.eq_ofNat_of_zero_le hpos.le
    have hround : (Scalar.ofInt (n : ℤ) : Float) = Double.ofRat n := Double.ofNat_eq_ofRat (by omega)
    change (Scalar.ofInt (n : ℤ) : Float).isFinite = true at hsize
    rw [hround] at hsize
    rw [Int.cast_natCast]
    exact (le_abs_self _).trans_lt (Double.abs_lt_of_isFinite_ofRat hsize)

/-- A walk by a scale from the remainder of a center ends, for a canvas of some size: there is no
center, or the first position is not below the size, or the scale leads up and the size is within its
reach. -/
def WalkEnds (center : Float) (size : ℤ) (scale : Float) : Prop :=
  center.isFinite = false ∨ (size : ℚ) ≤ value (Scalar.remainder center scale) ∨
    0 < value scale ∧ (size : ℚ) ≤ 2 ^ (53 + Int.clog 2 (value scale))

theorem isBelow_positionAt_of_not_walkEnds {center scale : Float} {size : ℤ}
    (hcenter : center.isFinite = true) (hscale : scale.isFinite = true) (hscale0 : value scale ≠ 0)
    (hsize : (size : ℚ) < 2 ^ (1024 : ℤ)) (hends : ¬ WalkEnds center size scale) (n : ℕ) :
    isBelow size (positionAt scale (Scalar.remainder center scale) n) = true := by
  obtain ⟨hfirst, hbound, hsign⟩ := Double.remainder_spec hcenter hscale hscale0
  change (Scalar.remainder center scale).isFinite = true at hfirst
  change |value (Scalar.remainder center scale)| ≤ |value scale| at hbound
  change 0 < value scale → 0 ≤ value (Scalar.remainder center scale) at hsign
  simp only [WalkEnds, not_or, not_and, not_le] at hends
  obtain ⟨-, hbelow, hbeyond⟩ := hends
  rcases lt_or_gt_of_ne hscale0 with hneg | hpos
  · exact isBelow_positionAt_of_neg hfirst hscale hneg hbelow n
  · have hreach := Int.self_le_zpow_clog (b := 2) one_lt_two (value scale)
    rw [Nat.cast_ofNat] at hreach
    have hexponent : 53 + Int.clog 2 (value scale) < 1024 :=
      (zpow_lt_zpow_iff_right₀ one_lt_two).mp ((hbeyond hpos).trans hsize)
    have hle : value (Scalar.remainder center scale) ≤ 2 ^ (53 + Int.clog 2 (value scale)) := by
      calc value (Scalar.remainder center scale) ≤ |value scale| := (le_abs_self _).trans hbound
        _ = value scale := abs_of_pos hpos
        _ ≤ 2 ^ Int.clog 2 (value scale) := hreach
        _ ≤ 2 ^ (53 + Int.clog 2 (value scale)) := zpow_le_zpow_right₀ one_le_two (by omega)
    exact isBelow_positionAt_of_beyond hfirst hscale (hsign hpos) hle hpos hreach (by omega)
      (hbeyond hpos) n

theorem not_forall_isBelow_of_walkEnds {center scale : Float} {size : ℤ}
    (hcenter : center.isFinite = true) (hscale : scale.isFinite = true) (hscale0 : value scale ≠ 0)
    (hends : WalkEnds center size scale) :
    ¬ ∀ n, isBelow size (positionAt scale (Scalar.remainder center scale) n) = true := by
  obtain ⟨hfirst, -, hsign⟩ := Double.remainder_spec hcenter hscale hscale0
  change (Scalar.remainder center scale).isFinite = true at hfirst
  change 0 < value scale → 0 ≤ value (Scalar.remainder center scale) at hsign
  rcases hends with hnone | hdone | ⟨hpos, hwithin⟩
  · rw [hcenter] at hnone
    cases hnone
  · intro hbelow
    exact absurd ((isBelow_of_isFinite size hfirst).mp (hbelow 0)) (not_lt.mpr hdone)
  · have hstep := Int.zpow_pred_clog_lt_self (b := 2) one_lt_two hpos
    rw [Nat.cast_ofNat] at hstep
    exact exists_not_isBelow hfirst hscale (hsign hpos) hstep hwithin

/-- The remainder of what is not finite is undefined. -/
theorem remainder_of_not_isFinite {center scale : Float} (hcenter : ¬ center.isFinite = true)
    (hscale : scale.isFinite = true) : Scalar.remainder center scale = Double.undefined := by
  change Double.remainder center scale = Double.undefined
  obtain ⟨negative, m, e, h⟩ := Double.isFinite_iff.mp hscale
  rw [Double.remainder, h]
  cases hx : Binary.ofFloat center with
  | finite negative' m' e' => exact absurd (Double.isFinite_iff.mpr ⟨_, _, _, hx⟩) hcenter
  | infinite negative' => rfl
  | undefined => rfl

theorem not_forall_isBelow_iff {center scale : Float} {size : ℤ} (hscale : scale.isFinite = true)
    (hscale0 : value scale ≠ 0) (hsize : center.isFinite = true → (size : ℚ) < 2 ^ (1024 : ℤ)) :
    (¬ ∀ n, isBelow size (positionAt scale (Scalar.remainder center scale) n) = true) ↔
      WalkEnds center size scale := by
  by_cases hcenter : center.isFinite = true
  · constructor
    · intro houtside
      by_contra hends
      exact houtside (isBelow_positionAt_of_not_walkEnds hcenter hscale hscale0 (hsize hcenter) hends)
    · exact not_forall_isBelow_of_walkEnds hcenter hscale hscale0
  · refine iff_of_true (fun hbelow => ?_) (.inl (Bool.eq_false_iff.mpr hcenter))
    have hinside := hbelow 0
    rw [positionAt, Function.iterate_zero_apply, remainder_of_not_isFinite hcenter hscale] at hinside
    cases hinside

theorem gridLines_isBelow {center scale : Float} {size : ℤ} (hscale : scale.isFinite = true)
    (hzero : Scalar.isZero scale = false) (hsize : center.isFinite = true → (size : ℚ) < 2 ^ (1024 : ℤ)) :
    ((∃ lines, gridLines center (isBelow size) scale = .ok lines) ↔ WalkEnds center size scale) ∧
      (gridLines center (isBelow size) scale = .error .unending ↔ ¬ WalkEnds center size scale) := by
  have hscale0 : value scale ≠ 0 := mt (Double.isZero_iff hscale).mpr (Bool.eq_false_iff.mp hzero)
  have hends := not_forall_isBelow_iff hscale hscale0 hsize
  rw [exists_gridLines_iff hzero, ne_eq, gridLines_eq_unending_iff hzero]
  exact ⟨hends, (not_iff_comm.mp hends).symm⟩

/-- A walk along an axis is begun where the size of the canvas has a double, and then ends or does not. -/
theorem gridLines_center (v : Viewport Float) {size : ℤ} {pan : Float} (hfinite : v.scale.isFinite = true)
    (hzero : Scalar.isZero v.scale = false) :
    let walk : Except Fault (List Float) :=
      center size pan >>= fun center => gridLines center (isBelow size) v.scale
    ((∃ lines, walk = .ok lines) ↔ Scalar.Represents Float size ∧ WalkEnds (middle size pan) size v.scale) ∧
      (walk = .error .unending ↔ ¬ WalkEnds (middle size pan) size v.scale) := by
  intro walk
  by_cases hsize : Scalar.Represents Float size
  · have hwalk : walk = gridLines (middle size pan) (isBelow size) v.scale := by
      rw [← ok_bind (middle size pan) fun center => gridLines center (isBelow size) v.scale,
        ← center_eq hsize]
    rw [hwalk, and_iff_right hsize]
    exact gridLines_isBelow hfinite hzero lt_of_isFinite_center
  · have hwalk : walk = .error .overflow := by
      rw [show walk = center size pan >>= _ from rfl, center_eq_overflow hsize]
      rfl
    have hends : WalkEnds (middle size pan) size v.scale := by
      refine .inl (Bool.eq_false_iff.mpr fun hcenter => hsize ?_)
      exact (Double.isFinite_of_isFinite_div (Double.isFinite_of_isFinite_add hcenter).1).1
    rw [hwalk]
    exact ⟨by simp [hsize], by simp [hends]⟩

/-- The walks along the grid lines of both axes end exactly as `WalkEnds` says, for every scale that is
finite and not zero, and otherwise they take steps for ever. A walk that ends has its lines, unless the size
of the canvas has no double. -/
theorem grid_walks_end_iff (v : Viewport Float) (hfinite : v.scale.isFinite = true)
    (hzero : Scalar.isZero v.scale = false) :
    (((∃ lines, v.gridColumns = .ok lines) ↔
        Scalar.Represents Float v.width ∧ WalkEnds v.originX v.width v.scale) ∧
      (v.gridColumns = .error .unending ↔ ¬ WalkEnds v.originX v.width v.scale)) ∧
    ((∃ lines, v.gridRows = .ok lines) ↔
        Scalar.Represents Float v.height ∧ WalkEnds v.originY v.height v.scale) ∧
      (v.gridRows = .error .unending ↔ ¬ WalkEnds v.originY v.height v.scale) :=
  ⟨gridLines_center v hfinite hzero, gridLines_center v hfinite hzero⟩

/-- With a negative zoom the walks of the usual canvas start at zero and lead down. -/
theorem grid_walks_never_end_of_negative_zoom :
    let v : Viewport Float := ⟨800, 600, -1, 0, 0, 50⟩
    v.scale.isFinite = true ∧ Scalar.isZero v.scale = false ∧
      v.gridColumns = .error .unending ∧ v.gridRows = .error .unending := by
  intro v
  have hfinite : v.scale.isFinite = true := by decide
  have hzero : Scalar.isZero v.scale = false := by decide
  have hdown : ¬ 0 < value v.scale := by decide +kernel
  obtain ⟨⟨-, hcolumns⟩, -, hrows⟩ := grid_walks_end_iff v hfinite hzero
  refine ⟨hfinite, hzero, hcolumns.mpr ?_, hrows.mpr ?_⟩
  · rintro (hcenter | hfirst | ⟨hup, -⟩)
    · exact absurd hcenter (by decide)
    · exact absurd hfirst (by decide +kernel)
    · exact hdown hup
  · rintro (hcenter | hfirst | ⟨hup, -⟩)
    · exact absurd hcenter (by decide)
    · exact absurd hfirst (by decide +kernel)
    · exact hdown hup

end Double

end PolyPlot.Viewport
