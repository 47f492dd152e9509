import Mathlib.Data.List.Nodup
import Mathlib.Tactic.Linarith
import PolyPlot.Plot.Grid
import PolyPlot.Proofs.Plot.Position
import PolyPlot.Proofs.Scalar.Rational

namespace PolyPlot.Viewport

open Scalar

variable {v : Viewport ℚ} {center size scale : ℚ} {pixel : ℤ → ℚ} {first last i : ℤ}

theorem mem_wholeNumbers : i ∈ wholeNumbers first last ↔ i ≠ 0 ∧ first ≤ i ∧ i ≤ last := by
  simp only [wholeNumbers, List.mem_filter, List.mem_map, List.mem_range, decide_eq_true_eq]
  constructor
  · rintro ⟨⟨n, hn, rfl⟩, hne⟩
    exact ⟨hne, by omega, by omega⟩
  · rintro ⟨hne, hfirst, hlast⟩
    exact ⟨⟨(i - first).toNat, by omega, by omega⟩, hne⟩

theorem nodup_wholeNumbers (first last : ℤ) : (wholeNumbers first last).Nodup := by
  refine (List.Nodup.map ?_ List.nodup_range).filter _
  intro m n h
  dsimp only at h
  omega

theorem tickRange_eq (center size : ℚ) (hscale : 0 < scale) :
    tickRange center size scale = .ok (⌊-center / scale⌋, ⌈(size - center) / scale⌉) := by
  simp only [tickRange, div?_rat hscale.ne', floor_rat, ceil_rat]
  rfl

/-- Without rounding no size is too great. -/
theorem represents_rat (n : ℤ) : Represents ℚ n :=
  isFinite_rat _

theorem centerX_rat (v : Viewport ℚ) : v.centerX = .ok v.originX :=
  centerX_eq (represents_rat _)

theorem centerY_rat (v : Viewport ℚ) : v.centerY = .ok v.originY :=
  centerY_eq (represents_rat _)

theorem toPixelX_rat (v : Viewport ℚ) (x : ℚ) : v.toPixelX x = .ok (v.columnOf x) :=
  toPixelX_eq (represents_rat _) x

theorem toPixelY_rat (v : Viewport ℚ) (y : ℚ) : v.toPixelY y = .ok (v.rowOf y) :=
  toPixelY_eq (represents_rat _) y

/-- The ticks with their positions on an axis. -/
def ticksAt (pixel : ℤ → ℚ) (first last : ℤ) : List (Tick ℚ) :=
  (wholeNumbers first last).map fun n => ⟨n, pixel n⟩

theorem mapM_tick {position : ℚ → Except Fault ℚ} {pixel : ℚ → ℚ} (h : ∀ x, position x = .ok (pixel x))
    (first last : ℤ) :
    (wholeNumbers first last).mapM (tick position) = .ok (ticksAt (fun i => pixel i) first last) := by
  refine mapM_eq_ok_map fun i _ => ?_
  rw [tick, h, ofInt_rat]
  rfl

theorem ticks_eq (hscale : 0 < v.scale) :
    v.ticks = .ok
      (ticksAt (fun i => v.columnOf i) ⌊-v.originX / v.scale⌋ ⌈(v.width - v.originX) / v.scale⌉,
        ticksAt (fun i => v.rowOf i) ⌊-v.originY / v.scale⌋ ⌈(v.height - v.originY) / v.scale⌉) := by
  simp only [ticks, centerX_rat, centerY_rat, ok_bind, ofInt_rat, tickRange_eq _ _ hscale,
    mapM_tick v.toPixelX_rat, mapM_tick v.toPixelY_rat]
  rfl

theorem map_value_ticksAt (pixel : ℤ → ℚ) (first last : ℤ) :
    (ticksAt pixel first last).map Tick.value = wholeNumbers first last := by
  rw [ticksAt, List.map_map]
  exact List.map_id _

theorem mem_ticksAt {tick : Tick ℚ} : tick ∈ ticksAt pixel first last ↔
    tick.value ≠ 0 ∧ tick.position = pixel tick.value ∧ first ≤ tick.value ∧ tick.value ≤ last := by
  constructor
  · intro h
    obtain ⟨i, hi, rfl⟩ := List.mem_map.mp h
    obtain ⟨hne, hrange⟩ := mem_wholeNumbers.mp hi
    exact ⟨hne, rfl, hrange⟩
  · rintro ⟨hne, hposition, hrange⟩
    exact List.mem_map.mpr ⟨tick.value, mem_wholeNumbers.mpr ⟨hne, hrange⟩, hposition ▸ rfl⟩

/-- The ticks of an axis that has `size` pixels on the canvas and `scale` pixels to a unit: no whole
number has two, each stands at its own position, and none is zero. Every other whole number on the
canvas has one, and none is more than a unit off the canvas. -/
structure MarksAxis (scale size : ℚ) (pixel : ℤ → ℚ) (ticks : List (Tick ℚ)) : Prop where
  nodup : (ticks.map Tick.value).Nodup
  ne_zero : ∀ tick ∈ ticks, tick.value ≠ 0
  position : ∀ tick ∈ ticks, tick.position = pixel tick.value
  visible : ∀ i, i ≠ 0 → 0 ≤ pixel i → pixel i ≤ size → i ∈ ticks.map Tick.value
  near : ∀ tick ∈ ticks, -scale ≤ tick.position ∧ tick.position ≤ size + scale

theorem marksAxis_ticksAt_iff : MarksAxis scale size pixel (ticksAt pixel first last) ↔
    (∀ i, i ≠ 0 → 0 ≤ pixel i → pixel i ≤ size → first ≤ i ∧ i ≤ last) ∧
      ∀ i, i ≠ 0 → first ≤ i → i ≤ last → -scale ≤ pixel i ∧ pixel i ≤ size + scale := by
  constructor
  · intro h
    refine ⟨fun i hi hlow hhigh => ?_, fun i hi hfirst hlast => ?_⟩
    · have hmem := h.visible i hi hlow hhigh
      rw [map_value_ticksAt, mem_wholeNumbers] at hmem
      exact hmem.2
    · exact h.near ⟨i, pixel i⟩ (List.mem_map_of_mem (mem_wholeNumbers.mpr ⟨hi, hfirst, hlast⟩))
  · rintro ⟨hvisible, hnear⟩
    refine ⟨?_, ?_, ?_, fun i hi hlow hhigh => ?_, ?_⟩
    · rw [map_value_ticksAt]
      exact nodup_wholeNumbers first last
    · exact fun tick htick => (mem_ticksAt.mp htick).1
    · exact fun tick htick => (mem_ticksAt.mp htick).2.1
    · rw [map_value_ticksAt, mem_wholeNumbers]
      exact ⟨hi, hvisible i hi hlow hhigh⟩
    · intro tick htick
      obtain ⟨hne, hposition, hfirst, hlast⟩ := mem_ticksAt.mp htick
      rw [hposition]
      exact hnear _ hne hfirst hlast

/-- The range that is sought holds the whole numbers less than a unit off the canvas on an axis that
points the way pixels count. -/
theorem range_iff (hscale : 0 < scale) :
    (⌊-center / scale⌋ ≤ i ∧ i ≤ ⌈(size - center) / scale⌉) ↔
      -scale < center + i * scale ∧ center + i * scale < size + scale := by
  have hfirst : ⌊-center / scale⌋ ≤ i ↔ -scale < center + i * scale := by
    rw [← Int.lt_add_one_iff, Int.floor_lt, div_lt_iff₀ hscale]
    push_cast
    constructor <;> intro h <;> linarith
  have hlast : i ≤ ⌈(size - center) / scale⌉ ↔ center + i * scale < size + scale := by
    rw [← Int.sub_one_lt_iff, Int.lt_ceil, lt_div_iff₀ hscale]
    push_cast
    constructor <;> intro h <;> linarith
  exact and_congr hfirst hlast

theorem marksAxis_columns (hscale : 0 < v.scale) :
    MarksAxis v.scale v.width (fun i => v.columnOf i)
      (ticksAt (fun i => v.columnOf i) ⌊-v.originX / v.scale⌋ ⌈(v.width - v.originX) / v.scale⌉) := by
  refine marksAxis_ticksAt_iff.mpr ⟨fun i _ hlow hhigh => ?_, fun i _ hfirst hlast => ?_⟩
  · rw [columnOf] at hlow hhigh
    exact (range_iff hscale).mpr ⟨by linarith, by linarith⟩
  · obtain ⟨hlow, hhigh⟩ := (range_iff hscale).mp ⟨hfirst, hlast⟩
    exact ⟨hlow.le, hhigh.le⟩

/-- The units from the origin to the upper edge of the canvas. -/
def unitsAbove (v : Viewport ℚ) : ℚ :=
  v.originY / v.scale

/-- The units from the origin to the lower edge of the canvas. -/
def unitsBelow (v : Viewport ℚ) : ℚ :=
  (v.height - v.originY) / v.scale

/-- Two numbers in one interval between neighbouring whole numbers, but not at its two ends. -/
def RoundAlike (a b : ℚ) : Prop :=
  (⌊a⌋ ≤ ⌈b⌉ ∧ ⌈b⌉ ≤ ⌊a⌋ + 1) ∧ ⌊b⌋ ≤ ⌈a⌉ ∧ ⌈a⌉ ≤ ⌊b⌋ + 1

theorem le_floor_div_iff (hscale : 0 < scale) : i ≤ ⌊size / scale⌋ ↔ i * scale ≤ size := by
  rw [Int.le_floor, le_div_iff₀ hscale]

theorem rows_iff (hscale : 0 < v.scale) :
    (0 ≤ v.rowOf i ∧ v.rowOf i ≤ v.height) ↔ -⌊v.unitsBelow⌋ ≤ i ∧ i ≤ ⌊v.unitsAbove⌋ := by
  rw [neg_le, unitsAbove, unitsBelow, le_floor_div_iff hscale, le_floor_div_iff hscale, rowOf]
  push_cast
  constructor <;> rintro ⟨h, h'⟩ <;> constructor <;> linarith

theorem rows_near_iff (hscale : 0 < v.scale) :
    (-v.scale ≤ v.rowOf i ∧ v.rowOf i ≤ v.height + v.scale) ↔
      -⌊v.unitsBelow⌋ - 1 ≤ i ∧ i ≤ ⌊v.unitsAbove⌋ + 1 := by
  have hfirst : -⌊v.unitsBelow⌋ - 1 ≤ i ↔ -i - 1 ≤ ⌊v.unitsBelow⌋ := by omega
  have hlast : i ≤ ⌊v.unitsAbove⌋ + 1 ↔ i - 1 ≤ ⌊v.unitsAbove⌋ := by omega
  rw [hfirst, hlast, unitsAbove, unitsBelow, le_floor_div_iff hscale, le_floor_div_iff hscale,
    rowOf]
  push_cast
  constructor <;> rintro ⟨h, h'⟩ <;> constructor <;> linarith

theorem ceil_add_floor_nonneg {a b : ℚ} (h : 0 ≤ a + b) : 0 ≤ ⌈a⌉ + ⌊b⌋ := by
  have hceil := Int.le_ceil a
  have hfloor : -⌈a⌉ ≤ ⌊b⌋ := Int.le_floor.mpr (by push_cast; linarith)
  omega

/-- The ticks of the rows mark the axis exactly if as many units are above the origin as below it, but
for rounding. -/
theorem marksAxis_rows_iff (hscale : 0 < v.scale) (hheight : 0 ≤ v.height) :
    MarksAxis v.scale v.height (fun i => v.rowOf i)
        (ticksAt (fun i => v.rowOf i) ⌊-v.originY / v.scale⌋ ⌈(v.height - v.originY) / v.scale⌉) ↔
      RoundAlike v.unitsAbove v.unitsBelow := by
  have hfirst : ⌊-v.originY / v.scale⌋ = -⌈v.unitsAbove⌉ := by
    rw [neg_div, Int.floor_neg]
    rfl
  have hsum : 0 ≤ v.unitsAbove + v.unitsBelow := by
    rw [unitsAbove, unitsBelow, ← add_div, add_sub_cancel]
    exact div_nonneg (by exact_mod_cast hheight) hscale.le
  -- The edges of the canvas do not cross, so neither do the ranges of whole numbers between them.
  have hcross := ceil_add_floor_nonneg hsum
  have hcross' := ceil_add_floor_nonneg (add_comm v.unitsAbove _ ▸ hsum)
  have hround := Int.ceil_le_floor_add_one v.unitsAbove
  have hround' := Int.ceil_le_floor_add_one v.unitsBelow
  have horder := Int.floor_le_ceil v.unitsAbove
  have horder' := Int.floor_le_ceil v.unitsBelow
  have hlast : ⌈(v.height - v.originY) / v.scale⌉ = ⌈v.unitsBelow⌉ := rfl
  rw [marksAxis_ticksAt_iff, hfirst, hlast]
  constructor
  · rintro ⟨hvisible, hnear⟩
    have hseen (i : ℤ) (hne : i ≠ 0) (hlow : -⌊v.unitsBelow⌋ ≤ i) (hhigh : i ≤ ⌊v.unitsAbove⌋) :=
      have hrow := (rows_iff hscale).mpr ⟨hlow, hhigh⟩
      hvisible i hne hrow.1 hrow.2
    have hnear' (i : ℤ) (hne : i ≠ 0) (hlow : -⌈v.unitsAbove⌉ ≤ i) (hhigh : i ≤ ⌈v.unitsBelow⌉) :=
      (rows_near_iff hscale).mp (hnear i hne hlow hhigh)
    -- The ticks at both ends of the range are near the canvas.
    have hlow : ⌈v.unitsBelow⌉ ≤ ⌊v.unitsAbove⌋ + 1 := by
      by_contra hfar
      have h := hnear' ⌈v.unitsBelow⌉ (by omega) (by omega) le_rfl
      omega
    have hhigh : ⌈v.unitsAbove⌉ ≤ ⌊v.unitsBelow⌋ + 1 := by
      by_contra hfar
      have h := hnear' (-⌈v.unitsAbove⌉) (by omega) le_rfl (by omega)
      omega
    -- The outermost whole numbers on the canvas have ticks.
    refine ⟨⟨?_, hlow⟩, ?_, hhigh⟩
    · by_contra hmissing
      have h := hseen ⌊v.unitsAbove⌋ (by omega) (by omega) le_rfl
      omega
    · by_contra hmissing
      have h := hseen (-⌊v.unitsBelow⌋) (by omega) le_rfl (by omega)
      omega
  · rintro ⟨⟨habove, hbelow⟩, habove', hbelow'⟩
    refine ⟨fun i hne hlow hhigh => ?_, fun i hne hlow hhigh => ?_⟩
    · have h := (rows_iff hscale).mp ⟨hlow, hhigh⟩
      omega
    · exact (rows_near_iff hscale).mpr (by omega)

theorem unitsAbove_sub_unitsBelow (v : Viewport ℚ) :
    v.unitsAbove - v.unitsBelow = 2 * v.panY / v.scale := by
  have hcenter : v.originY = v.height / 2 + v.panY := by norm_num [originY, middle]
  rw [unitsAbove, unitsBelow, ← sub_div, hcenter]
  ring

/-- The rows are wrong where the origin is moved up or down by more than half a unit. -/
theorem two_mul_abs_panY_le_of_roundAlike (hscale : 0 < v.scale)
    (h : RoundAlike v.unitsAbove v.unitsBelow) : 2 * |v.panY| ≤ v.scale := by
  obtain ⟨⟨-, hbelow⟩, -, habove⟩ := h
  have hle : v.unitsAbove - v.unitsBelow ≤ 1 := by
    have hceil := Int.le_ceil v.unitsAbove
    have hfloor := Int.floor_le v.unitsBelow
    have hcast : (⌈v.unitsAbove⌉ : ℚ) ≤ ⌊v.unitsBelow⌋ + 1 := by exact_mod_cast habove
    linarith
  have hge : -1 ≤ v.unitsAbove - v.unitsBelow := by
    have hceil := Int.le_ceil v.unitsBelow
    have hfloor := Int.floor_le v.unitsAbove
    have hcast : (⌈v.unitsBelow⌉ : ℚ) ≤ ⌊v.unitsAbove⌋ + 1 := by exact_mod_cast hbelow
    linarith
  have habs := abs_le.mpr ⟨hge, hle⟩
  rwa [unitsAbove_sub_unitsBelow, abs_div, abs_of_pos hscale, div_le_one hscale, abs_mul, abs_two]
    at habs

/-- Every number has a column and a row. The ticks of the columns mark their axis, wherever the origin is.
Those of the rows stand at their own positions, but they are the whole numbers that are less than a unit off
the canvas with the other sign; so they mark their axis exactly if the units above and below the origin
round alike. -/
theorem ticks_mark_columns_and_rows_iff (hscale : 0 < v.scale) (hheight : 0 ≤ v.height) :
    (∀ i : ℚ, v.toPixelX i = .ok (v.columnOf i) ∧ v.toPixelY i = .ok (v.rowOf i)) ∧
    ∃ columns rows, v.ticks = .ok (columns, rows) ∧
      MarksAxis v.scale v.width (fun i => v.columnOf i) columns ∧
      (∀ tick, tick ∈ rows ↔ tick.value ≠ 0 ∧ tick.position = v.rowOf tick.value ∧
        -v.scale < v.rowOf (-tick.value) ∧ v.rowOf (-tick.value) < v.height + v.scale) ∧
      (MarksAxis v.scale v.height (fun i => v.rowOf i) rows ↔
        RoundAlike v.unitsAbove v.unitsBelow) := by
  refine ⟨fun i => ⟨v.toPixelX_rat i, v.toPixelY_rat i⟩, _, _, ticks_eq hscale, marksAxis_columns hscale,
    fun tick => ?_, marksAxis_rows_iff hscale hheight⟩
  have hmirrored : v.rowOf (-tick.value) = v.originY + tick.value * v.scale := by
    rw [rowOf]
    ring
  rw [hmirrored, ← range_iff hscale]
  exact mem_ticksAt

/-- A canvas whose origin is moved down by two units shows one, two and three above it, but has ticks
for their negatives. -/
theorem not_marksAxis_of_origin_below :
    let v : Viewport ℚ := ⟨200, 100, 1, 0, 100, 50⟩
    0 < v.scale ∧ 0 ≤ v.height ∧ ∃ columns rows, v.ticks = .ok (columns, rows) ∧
      MarksAxis v.scale v.width (fun i => v.columnOf i) columns ∧
      ⟨-3, 300⟩ ∈ rows ∧ ¬ MarksAxis v.scale v.height (fun i => v.rowOf i) rows := by
  intro v
  have hscale : v.scale = 50 := by norm_num [scale, v]
  have hcenter : v.originY = 150 := by norm_num [originY, middle, v]
  have hpos : 0 < v.scale := by
    rw [hscale]
    norm_num
  have hheight : 0 ≤ v.height := by decide
  obtain ⟨-, columns, rows, hticks, hcolumns, hrows, hiff⟩ := ticks_mark_columns_and_rows_iff hpos hheight
  refine ⟨hpos, hheight, columns, rows, hticks, hcolumns, ?_, fun hmarks => ?_⟩
  · rw [hrows]
    norm_num [rowOf, hscale, hcenter, v]
  · have hpan := two_mul_abs_panY_le_of_roundAlike hpos (hiff.mp hmarks)
    norm_num [hscale, v] at hpan

end PolyPlot.Viewport
