import PolyPlot.Proofs.Plot.Grid
import PolyPlot.Proofs.Plot.Ticks

namespace PolyPlot.Viewport

open Scalar

variable {v : Viewport ℚ} {center scale first p : ℚ} {size : ℤ} {pixel : ℤ → ℚ} {lines : List ℚ} {j : ℕ}

/-- The grid lines of an axis with `size` pixels on the canvas: they ascend, and they are the positions of
whole numbers on the canvas, of which its far border is no part. -/
structure DrawsLines (size : ℚ) (pixel : ℤ → ℚ) (lines : List ℚ) : Prop where
  ascending : lines.Pairwise (· < ·)
  mem_iff : ∀ p, p ∈ lines ↔ 0 ≤ p ∧ p < size ∧ ∃ i, p = pixel i

/-- The lines do not depend on the direction in which the whole numbers of the axis count. -/
theorem DrawsLines.mirror (h : DrawsLines size pixel lines) :
    DrawsLines size (fun i => pixel (-i)) lines := by
  refine ⟨h.ascending, fun p => ?_⟩
  have hmirrored : (∃ i, p = pixel i) ↔ ∃ i, p = pixel (-i) := neg_surjective.exists
  rw [h.mem_iff, hmirrored]

@[simp] theorem isBelow_rat : isBelow size p = true ↔ p < size := by
  simp only [isBelow, floor_rat, decide_eq_true_eq, Int.floor_lt]

theorem positionAt_rat (scale first : ℚ) (n : ℕ) : positionAt scale first n = first + n * scale := by
  induction n with
  | zero => rw [Nat.cast_zero, zero_mul, add_zero, positionAt, Function.iterate_zero_apply]
  | succ n ih =>
    rw [positionAt_succ, ih]
    push_cast
    ring

/-- The remainder of the origin by the scale is the position of a whole number, less than one unit behind
the near border. -/
theorem remainder_center (center : ℚ) (hscale : 0 < scale) :
    ∃ k : ℤ, remainder center scale = center - k * scale ∧
      0 ≤ remainder center scale ∧ remainder center scale < scale := by
  have hle := Int.floor_le (center / scale)
  have hlt := Int.lt_floor_add_one (center / scale)
  rw [le_div_iff₀ hscale] at hle
  rw [div_lt_iff₀ hscale] at hlt
  refine ⟨⌊center / scale⌋, ?_, ?_, ?_⟩ <;> rw [remainder_rat] <;> linarith

/-- A walk by a positive scale passes the positions of all whole numbers from the near border on. -/
theorem exists_positionAt_eq_iff (hscale : 0 < scale) :
    (∃ j, positionAt scale (remainder center scale) j = p) ↔ 0 ≤ p ∧ ∃ i : ℤ, p = center + i * scale := by
  obtain ⟨k, hfirst, hnonneg, hnear⟩ := remainder_center center hscale
  constructor
  · rintro ⟨j, rfl⟩
    rw [positionAt_rat]
    refine ⟨by positivity, j - k, ?_⟩
    rw [hfirst]
    push_cast
    ring
  · rintro ⟨hlow, i, rfl⟩
    -- The walk gets to a whole number in as many steps as that is units behind the first one.
    have hsteps : 0 ≤ i + k := by
      by_contra hneg
      have hbehind : (i : ℚ) + k ≤ -1 := by exact_mod_cast Int.le_sub_one_of_lt (not_le.mp hneg)
      have hunits := mul_le_mul_of_nonneg_right hbehind hscale.le
      linarith
    have hcast : (((i + k).toNat : ℕ) : ℚ) = i + k := by exact_mod_cast Int.toNat_of_nonneg hsteps
    refine ⟨(i + k).toNat, ?_⟩
    rw [positionAt_rat, hcast, hfirst]
    ring

/-- The steps of a walk before it leaves the canvas. -/
theorem isBelow_positionAt_rat (hscale : 0 < scale) :
    isBelow size (positionAt scale first j) = true ↔ j < ⌈(size - first) / scale⌉₊ := by
  rw [isBelow_rat, positionAt_rat, Nat.lt_ceil, lt_div_iff₀ hscale]
  constructor <;> intro h <;> linarith

/-- A walk by a positive scale draws the lines of its axis. -/
theorem exists_gridLines_rat (center : ℚ) (size : ℤ) (hscale : 0 < scale) :
    ∃ lines, gridLines center (isBelow size) scale = .ok lines ∧
      DrawsLines size (fun i => center + i * scale) lines := by
  have hzero : isZero scale = false := Bool.eq_false_iff.mpr (mt (isZero_rat scale).mp hscale.ne')
  refine ⟨_, (gridLines_eq_ok_iff hzero).mpr
    ⟨_, rfl, fun j hj => (isBelow_positionAt_rat hscale).mpr hj, ?_⟩, ?_, fun p => ?_⟩
  · exact Bool.eq_false_iff.mpr (mt (isBelow_positionAt_rat hscale).mp (lt_irrefl _))
  · rw [List.pairwise_map]
    refine List.pairwise_lt_range.imp fun {i j} hij => ?_
    have hij' : (i : ℚ) < j := by exact_mod_cast hij
    rw [positionAt_rat, positionAt_rat]
    gcongr
  · rw [List.mem_map, and_left_comm, ← exists_positionAt_eq_iff hscale]
    constructor
    · rintro ⟨j, hj, rfl⟩
      exact ⟨isBelow_rat.mp ((isBelow_positionAt_rat hscale).mpr (List.mem_range.mp hj)), j, rfl⟩
    · rintro ⟨hhigh, j, rfl⟩
      exact ⟨j, List.mem_range.mpr ((isBelow_positionAt_rat hscale).mp (isBelow_rat.mpr hhigh)), rfl⟩

theorem drawsLines_columns (hscale : 0 < v.scale) :
    ∃ columns, v.gridColumns = .ok columns ∧ DrawsLines v.width (fun i => v.columnOf i) columns := by
  rw [gridColumns, centerX_rat, ok_bind]
  exact exists_gridLines_rat v.originX v.width hscale

theorem drawsLines_rows (hscale : 0 < v.scale) :
    ∃ rows, v.gridRows = .ok rows ∧ DrawsLines v.height (fun i => v.rowOf i) rows := by
  obtain ⟨rows, hrows, hlines⟩ := exists_gridLines_rat v.originY v.height hscale
  have hmirror : (fun i : ℤ => v.rowOf i) = fun i : ℤ => v.originY + ((-i : ℤ) : ℚ) * v.scale := by
    funext i
    rw [rowOf]
    push_cast
    ring
  rw [gridRows, centerY_rat, ok_bind]
  exact ⟨rows, hrows, hmirror ▸ hlines.mirror⟩

/-- Every whole number on the canvas except zero has a tick. -/
theorem exists_tick_of_column {columns : List ℚ} (hscale : 0 < v.scale)
    (hcolumns : DrawsLines v.width (fun i => v.columnOf i) columns) (hp : p ∈ columns) :
    p = v.originX ∨ ∃ tick ∈ ticksAt (fun i => v.columnOf i) ⌊-v.originX / v.scale⌋
      ⌈(v.width - v.originX) / v.scale⌉, tick.position = p := by
  obtain ⟨hlow, hhigh, i, rfl⟩ := (hcolumns.mem_iff p).mp hp
  rcases eq_or_ne i 0 with rfl | hi
  · left
    rw [columnOf, Int.cast_zero, zero_mul, add_zero]
  · right
    have hmem := (marksAxis_columns hscale).visible i hi hlow hhigh.le
    obtain ⟨tick, htick, rfl⟩ := List.mem_map.mp hmem
    exact ⟨tick, htick, (marksAxis_columns hscale).position tick htick⟩

/-- On both axes the grid lines are the positions of the whole numbers on the canvas, in ascending order,
wherever the origin is. A column that is not the vertical axis has the tick of its whole number. -/
theorem grid_lines_at_whole_numbers (hscale : 0 < v.scale) :
    (∀ i : ℚ, v.toPixelX i = .ok (v.columnOf i) ∧ v.toPixelY i = .ok (v.rowOf i)) ∧
    ∃ columns rows xTicks yTicks,
      v.gridColumns = .ok columns ∧ v.gridRows = .ok rows ∧ v.ticks = .ok (xTicks, yTicks) ∧
      DrawsLines v.width (fun i => v.columnOf i) columns ∧
      DrawsLines v.height (fun i => v.rowOf i) rows ∧
      ∀ p ∈ columns, p = v.originX ∨ ∃ tick ∈ xTicks, tick.position = p := by
  obtain ⟨columns, hcolumns, hxLines⟩ := drawsLines_columns hscale
  obtain ⟨rows, hrows, hyLines⟩ := drawsLines_rows hscale
  exact ⟨fun i => ⟨v.toPixelX_rat i, v.toPixelY_rat i⟩, columns, rows, _, _, hcolumns, hrows, ticks_eq hscale, hxLines, hyLines,
    fun p hp => exists_tick_of_column hscale hxLines hp⟩

/-- The origin is left of the canvas and below it. A line on the near border is drawn, one on the far
border is not. -/
theorem grid_lines_of_origin_outside :
    let v : Viewport ℚ := ⟨200, 100, 1, -150, 75, 50⟩
    0 < v.scale ∧ ∃ columns rows xTicks yTicks,
      v.gridColumns = .ok columns ∧ v.gridRows = .ok rows ∧ v.ticks = .ok (xTicks, yTicks) ∧
      DrawsLines v.width (fun i => v.columnOf i) columns ∧
      DrawsLines v.height (fun i => v.rowOf i) rows ∧
      (∀ p ∈ columns, p = v.originX ∨ ∃ tick ∈ xTicks, tick.position = p) ∧
      0 ∈ columns ∧ 200 ∉ columns ∧ 25 ∈ rows := by
  intro v
  have hscale : v.scale = 50 := by norm_num [scale, v]
  have hcenterX : v.originX = -50 := by norm_num [originX, middle, v]
  have hcenterY : v.originY = 125 := by norm_num [originY, middle, v]
  have hpos : 0 < v.scale := by
    rw [hscale]
    norm_num
  obtain ⟨-, columns, rows, xTicks, yTicks, hcolumns, hrows, hticks, hxLines, hyLines, hmarked⟩ :=
    grid_lines_at_whole_numbers hpos
  refine ⟨hpos, columns, rows, xTicks, yTicks, hcolumns, hrows, hticks, hxLines, hyLines, hmarked, ?_, ?_, ?_⟩
  · refine (hxLines.mem_iff 0).mpr ⟨le_rfl, by norm_num [v], 1, ?_⟩
    norm_num [columnOf, hscale, hcenterX]
  · intro hborder
    exact absurd ((hxLines.mem_iff 200).mp hborder).2.1 (by norm_num [v])
  · refine (hyLines.mem_iff 25).mpr ⟨by norm_num, by norm_num [v], 2, ?_⟩
    norm_num [rowOf, hscale, hcenterY]

end PolyPlot.Viewport
