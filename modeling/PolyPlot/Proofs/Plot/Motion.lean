import Mathlib
import PolyPlot.Plot.Grid
import PolyPlot.Proofs.Answers
import PolyPlot.Proofs.Double.Factor
import PolyPlot.Proofs.Scalar.Rational

namespace PolyPlot.Viewport

open Scalar

/-- A change of the part of the plane that a canvas shows. -/
inductive Move (α : Type) where
  | zoomIn (factor : α)
  | zoomOut (factor : α)
  | pan (dx dy : α)
  | reset

section Moves

variable {α : Type} [Scalar α] {v u w : Viewport α} {m : Move α} {moves : List (Move α)} {f z : α}

/-- The moves with factors that are at least one and finite offsets. -/
def Move.Allowed : Move α → Prop
  | zoomIn factor | zoomOut factor => 1 ≤ factor
  | pan dx dy => isFinite dx = true ∧ isFinite dy = true
  | reset => True

instance : DecidablePred fun m : Move α => m.Allowed
  | .zoomIn factor | .zoomOut factor => inferInstanceAs (Decidable (1 ≤ factor))
  | .pan dx dy => inferInstanceAs (Decidable (isFinite dx = true ∧ isFinite dy = true))
  | .reset => inferInstanceAs (Decidable True)

/-- The canvas after a move. -/
def moved (v : Viewport α) : Move α → Except Fault (Viewport α)
  | .zoomIn factor => .ok (v.zoomedIn factor)
  | .zoomOut factor => v.zoomedOut factor
  | .pan dx dy => .ok (v.panned dx dy)
  | .reset => .ok v.reset

/-- The canvas after moves one after the other. -/
def movedBy (v : Viewport α) (moves : List (Move α)) : Except Fault (Viewport α) :=
  moves.foldlM moved v

theorem movedBy_append (v : Viewport α) (moves moves' : List (Move α)) :
    v.movedBy (moves ++ moves') = v.movedBy moves >>= fun w => w.movedBy moves' :=
  List.foldlM_append

theorem movedBy_singleton (v : Viewport α) (m : Move α) : v.movedBy [m] = v.moved m := by
  change v.moved m >>= pure = v.moved m
  cases v.moved m <;> rfl

/-- Whether allowed moves lead from one canvas to another. -/
def Reaches (v w : Viewport α) : Prop :=
  ∃ moves : List (Move α), (∀ m ∈ moves, m.Allowed) ∧ v.movedBy moves = .ok w

theorem Reaches.refl (v : Viewport α) : v.Reaches v :=
  ⟨[], fun _ hm => absurd hm List.not_mem_nil, rfl⟩

theorem Reaches.moved (h : v.Reaches u) (hm : m.Allowed) (hw : u.moved m = .ok w) : v.Reaches w := by
  obtain ⟨moves, hmoves, hu⟩ := h
  refine ⟨moves ++ [m], ?_, ?_⟩
  · intro m' hm'
    rw [List.mem_append, List.mem_singleton] at hm'
    obtain hbefore | rfl := hm'
    · exact hmoves m' hbefore
    · exact hm
  · rw [movedBy_append, hu]
    exact (movedBy_singleton u m).trans hw

/-- A zoom within its bounds. -/
def IsZoom (z : α) : Prop :=
  minZoom ≤ z ∧ z ≤ maxZoom

/-- A canvas that can be moved: its zoom is within the bounds, and its unit has a finite number of pixels at
zoom one, at least one. -/
structure InRange (v : Viewport α) : Prop where
  isZoom : IsZoom v.zoom
  isFinite_baseScale : isFinite v.baseScale = true
  one_le_baseScale : 1 ≤ v.baseScale

/-- What moves leave as it is. -/
structure SameCanvas (v w : Viewport α) : Prop where
  width : w.width = v.width
  height : w.height = v.height
  baseScale : w.baseScale = v.baseScale

/-- Arithmetic in which factors that are at least one do not lead a zoom past the bound that it moves away
from, and in which a canvas in range has a positive scale. -/
class ZoomLaws (α : Type) [Scalar α] : Prop where
  isZoom_minZoom : IsZoom (minZoom : α)
  isZoom_maxZoom : IsZoom (maxZoom : α)
  isZoom_one : IsZoom (1 : α)
  isZero_of_pos {a : α} : 0 < a → isZero a = false
  isZero_of_one_le {f : α} : 1 ≤ f → isZero f = false
  lt_or_isZoom_mul {z f : α} : IsZoom z → 1 ≤ f → maxZoom < z * f ∨ IsZoom (z * f)
  lt_or_isZoom_div {z f : α} : IsZoom z → 1 ≤ f → z / f < minZoom ∨ IsZoom (z / f)
  mul_pos {b z : α} : isFinite b = true → 1 ≤ b → IsZoom z → 0 < b * z

variable [ZoomLaws α]

theorem isZoom_zoomedIn (hz : IsZoom v.zoom) (hf : 1 ≤ f) : IsZoom (v.zoomedIn f).zoom := by
  change IsZoom (if maxZoom < v.zoom * f then maxZoom else v.zoom * f)
  split_ifs with hmore
  · exact ZoomLaws.isZoom_maxZoom
  · exact (ZoomLaws.lt_or_isZoom_mul hz hf).resolve_left hmore

theorem exists_zoomedOut (hz : IsZoom v.zoom) (hf : 1 ≤ f) :
    ∃ z, IsZoom z ∧ v.zoomedOut f = .ok { v with zoom := z } := by
  refine ⟨if v.zoom / f < minZoom then minZoom else v.zoom / f, ?_, ?_⟩
  · split_ifs with hless
    · exact ZoomLaws.isZoom_minZoom
    · exact (ZoomLaws.lt_or_isZoom_div hz hf).resolve_left hless
  · rw [zoomedOut, div?, ZoomLaws.isZero_of_one_le hf]
    rfl

theorem InRange.scale_pos (hv : v.InRange) : 0 < v.scale :=
  ZoomLaws.mul_pos hv.isFinite_baseScale hv.one_le_baseScale hv.isZoom

/-- A move leads from a canvas in range to one in range. -/
theorem exists_moved (hv : v.InRange) (hm : m.Allowed) :
    ∃ w, v.moved m = .ok w ∧ w.InRange ∧ v.SameCanvas w := by
  cases m with
  | zoomIn factor =>
    have hzoom := isZoom_zoomedIn hv.isZoom hm
    exact ⟨_, rfl, ⟨hzoom, hv.isFinite_baseScale, hv.one_le_baseScale⟩, ⟨rfl, rfl, rfl⟩⟩
  | zoomOut factor =>
    obtain ⟨z, hzoom, hout⟩ := exists_zoomedOut hv.isZoom hm
    exact ⟨_, hout, ⟨hzoom, hv.isFinite_baseScale, hv.one_le_baseScale⟩, ⟨rfl, rfl, rfl⟩⟩
  | pan dx dy => exact ⟨_, rfl, ⟨hv.isZoom, hv.isFinite_baseScale, hv.one_le_baseScale⟩, ⟨rfl, rfl, rfl⟩⟩
  | reset =>
    have hzoom : IsZoom (1 : α) := ZoomLaws.isZoom_one
    exact ⟨_, rfl, ⟨hzoom, hv.isFinite_baseScale, hv.one_le_baseScale⟩, ⟨rfl, rfl, rfl⟩⟩

/-- A run of moves leads from a canvas in range to one in range. -/
theorem exists_movedBy (hv : v.InRange) (hmoves : ∀ m ∈ moves, m.Allowed) :
    ∃ w, v.movedBy moves = .ok w ∧ w.InRange ∧ v.SameCanvas w := by
  induction moves generalizing v with
  | nil => exact ⟨v, rfl, hv, ⟨rfl, rfl, rfl⟩⟩
  | cons m moves ih =>
    rw [List.forall_mem_cons] at hmoves
    obtain ⟨hm, hrest⟩ := hmoves
    obtain ⟨u, hu, hrange, hsame⟩ := exists_moved hv hm
    obtain ⟨w, hw, hrange', hsame'⟩ := ih hrange hrest
    refine ⟨w, ?_, hrange', ⟨hsame'.width.trans hsame.width, hsame'.height.trans hsame.height,
      hsame'.baseScale.trans hsame.baseScale⟩⟩
    rw [movedBy, List.foldlM_cons, hu]
    exact hw

/-- All canvases that allowed moves lead to are in range. -/
theorem Reaches.inRange (h : v.Reaches w) (hv : v.InRange) : w.InRange ∧ v.SameCanvas w := by
  obtain ⟨moves, hmoves, hw⟩ := h
  obtain ⟨w', hw', hrange, hsame⟩ := exists_movedBy hv hmoves
  rw [hw, Except.ok.injEq] at hw'
  exact hw' ▸ ⟨hrange, hsame⟩

end Moves

section Exact

variable {v w : Viewport ℚ} {m : Move ℚ} {moves : List (Move ℚ)} {z f : ℚ}

theorem isZoom_rat : IsZoom z ↔ 1 / 5 ≤ z ∧ z ≤ 5 := by
  simp [IsZoom, minZoom, maxZoom]

theorem pos_of_isZoom (hz : IsZoom z) : 0 < z := by
  rw [isZoom_rat] at hz
  linarith

instance : ZoomLaws ℚ where
  isZoom_minZoom := isZoom_rat.mpr (by norm_num [minZoom])
  isZoom_maxZoom := isZoom_rat.mpr (by norm_num [maxZoom])
  isZoom_one := isZoom_rat.mpr (by norm_num)
  isZero_of_pos h := by
    rw [Bool.eq_false_iff, Ne, isZero_rat]
    exact h.ne'
  isZero_of_one_le h := by
    rw [Bool.eq_false_iff, Ne, isZero_rat]
    exact (zero_lt_one.trans_le h).ne'
  lt_or_isZoom_mul hz hf := by
    have hle := le_mul_of_one_le_right (pos_of_isZoom hz).le hf
    rw [← not_le, ← imp_iff_not_or]
    exact fun hmost => ⟨hz.1.trans hle, hmost⟩
  lt_or_isZoom_div hz hf := by
    have hle := div_le_self (pos_of_isZoom hz).le hf
    rw [← not_le, ← imp_iff_not_or]
    exact fun hleast => ⟨hleast, hle.trans hz.2⟩
  mul_pos _ hb hz := mul_pos (zero_lt_one.trans_le hb) (pos_of_isZoom hz)

theorem inRange_standard : (standard : Viewport ℚ).InRange :=
  ⟨isZoom_rat.mpr (by norm_num [standard]), rfl, by norm_num [standard]⟩

/-- Where the origin is moved to. -/
def pan (v : Viewport ℚ) : ℚ × ℚ :=
  (v.panX, v.panY)

/-- By how much a move pans. -/
def Move.offset : Move ℚ → ℚ × ℚ
  | pan dx dy => (dx, dy)
  | _ => 0

def Move.isReset : Move ℚ → Bool
  | reset => true
  | _ => false

/-- The moves behind the last reset. -/
def sinceReset (moves : List (Move ℚ)) : List (Move ℚ) :=
  moves.rtakeWhile fun m => !m.isReset

theorem offset_of_isReset (h : m.isReset = true) : m.offset = 0 := by
  cases m with
  | reset => rfl
  | zoomIn | zoomOut | pan => cases h

theorem pan_of_moved (h : v.moved m = .ok w) :
    w.pan = (if m.isReset then 0 else v.pan) + m.offset := by
  cases m with
  | zoomIn factor =>
    cases h
    exact (add_zero v.pan).symm
  | zoomOut factor =>
    rw [moved, zoomedOut, bind_eq_ok_iff] at h
    obtain ⟨z, -, ⟨⟩⟩ := h
    exact (add_zero v.pan).symm
  | pan dx dy =>
    cases h
    rfl
  | reset =>
    cases h
    exact (add_zero 0).symm

/-- The origin is moved by what was panned since the last reset, or since the start. -/
theorem pan_of_movedBy (h : v.movedBy moves = .ok w) :
    w.pan = (if moves.any Move.isReset then 0 else v.pan) + ((sinceReset moves).map Move.offset).sum := by
  induction moves using List.reverseRecOn generalizing w with
  | nil =>
    cases h
    exact (add_zero v.pan).symm
  | append_singleton moves m ih =>
    rw [movedBy_append, bind_eq_ok_iff] at h
    obtain ⟨u, hu, hw⟩ := h
    rw [movedBy_singleton] at hw
    rw [pan_of_moved hw, ih hu, List.any_append]
    cases hreset : m.isReset with
    | true =>
      have hnone : sinceReset (moves ++ [m]) = [] := List.rtakeWhile_concat_neg _ _ _ (by simp [hreset])
      simp [hnone, hreset, offset_of_isReset hreset]
    | false =>
      have hmore : sinceReset (moves ++ [m]) = sinceReset moves ++ [m] :=
        List.rtakeWhile_concat_pos _ _ _ (by simp [hreset])
      simp [hmore, hreset, add_assoc]

end Exact

section Doubles

open Double (value)

variable {v : Viewport Float} {z f b : Float} {a : Float}

theorem pos_of_isZoom_double (hz : IsZoom z) : z.isFinite = true ∧ 0 < z ∧ 0 < value z := by
  have hmin : (0 : Float) < minZoom := by decide
  have hmax : (maxZoom : Float).isFinite = true := by decide
  have hfinite : z.isFinite = true := Double.isFinite_of_le_of_le (by decide) hmax hz.1 hz.2
  have hpos : 0 < z := Double.lt_of_lt_le hmin hz.1
  have hvalue := (Double.lt_iff Double.isFinite_zero hfinite).mp hpos
  rw [Double.value_zero] at hvalue
  exact ⟨hfinite, hpos, hvalue⟩

/-- A product that is not above the greatest zoom is finite, and so not below the zoom. -/
theorem lt_or_isZoom_mul_double (hz : IsZoom z) (hf : 1 ≤ f) : maxZoom < z * f ∨ IsZoom (z * f) := by
  obtain ⟨hfinite, hpos, hvalue⟩ := pos_of_isZoom_double hz
  have hle := Double.le_mul_factor hfinite hvalue hf
  have hproduct : 0 < z * f := Double.lt_of_lt_le hpos hle
  rcases Double.lt_or_le (x := maxZoom) (by decide) hproduct with hmore | hmost
  · exact .inl hmore
  · have hbounded : (z * f).isFinite = true :=
      Double.isFinite_of_le_of_le hfinite (by decide) hle hmost
    have hleast : (minZoom : Float) ≤ z := hz.1
    rw [Double.le_iff hfinite hbounded] at hle
    rw [Double.le_iff (by decide) hfinite] at hleast
    exact .inr ⟨(Double.le_iff (by decide) hbounded).mpr (hleast.trans hle), hmost⟩

theorem lt_or_isZoom_div_double (hz : IsZoom z) (hf : 1 ≤ f) : z / f < minZoom ∨ IsZoom (z / f) := by
  obtain ⟨hfinite, -, hvalue⟩ := pos_of_isZoom_double hz
  obtain ⟨hquotient, hle⟩ := Double.value_div_factor_le hfinite hvalue hf
  have hmost : z ≤ (maxZoom : Float) := hz.2
  rw [Double.le_iff hfinite (by decide)] at hmost
  have hmost' : z / f ≤ maxZoom := (Double.le_iff hquotient (by decide)).mpr (hle.trans hmost)
  rcases lt_or_ge (value (z / f)) (value minZoom) with hless | hleast
  · exact .inl ((Double.lt_iff hquotient (by decide)).mpr hless)
  · exact .inr ⟨(Double.le_iff (by decide) hquotient).mpr hleast, hmost'⟩

instance : ZoomLaws Float where
  isZoom_minZoom := ⟨by decide, by decide⟩
  isZoom_maxZoom := ⟨by decide, by decide⟩
  isZoom_one := ⟨by decide, by decide⟩
  isZero_of_pos := Double.isZero_of_pos
  isZero_of_one_le h := Double.isZero_of_pos (Double.lt_of_lt_le (by decide) h)
  lt_or_isZoom_mul := lt_or_isZoom_mul_double
  lt_or_isZoom_div := lt_or_isZoom_div_double
  mul_pos hfinite hb hz := by
    obtain ⟨hfinite', hpos, hvalue⟩ := pos_of_isZoom_double hz
    exact Double.lt_of_lt_le hpos (Double.le_factor_mul hfinite' hvalue hfinite hb)

/-- Whether some abscissa or the ticks of a canvas are a division by zero. -/
def DividesByZero (v : Viewport Float) : Prop :=
  (∃ column, v.toMathX column = .error .divisionByZero) ∨ v.ticks = .error .divisionByZero

theorem div?_ne_divisionByZero (hb : isZero b = false) (a : Float) :
    div? a b ≠ .error .divisionByZero := by
  rw [div?, hb]
  intro h
  cases h

theorem wholePart_ne_divisionByZero (divide : ℤ → ℤ → ℤ) (b : Binary) :
    b.wholePart divide ≠ .error .divisionByZero := by
  cases b <;> simp [Binary.wholePart]

theorem center_ne_divisionByZero (size : ℤ) (pan : Float) : center size pan ≠ .error .divisionByZero := by
  refine bind_ne_error (fun h => ?_) fun middle => nofun
  unfold ofInt? at h
  split at h <;> cases h

theorem tickRange_ne_divisionByZero {scale : Float} (hscale : isZero scale = false)
    (center size : Float) : tickRange center size scale ≠ .error .divisionByZero := by
  unfold tickRange
  refine bind_ne_error (div?_ne_divisionByZero hscale _) fun first => ?_
  refine bind_ne_error (wholePart_ne_divisionByZero _ _) fun least => ?_
  refine bind_ne_error (div?_ne_divisionByZero hscale _) fun last => ?_
  exact bind_ne_error (wholePart_ne_divisionByZero _ _) fun greatest => nofun

theorem ticks_ne_divisionByZero (hscale : isZero v.scale = false) : v.ticks ≠ .error .divisionByZero := by
  have hcenter := center_ne_divisionByZero
  unfold ticks
  refine bind_ne_error (hcenter _ _) fun x => ?_
  refine bind_ne_error (tickRange_ne_divisionByZero hscale _ _) fun columns => ?_
  refine bind_ne_error (hcenter _ _) fun y => ?_
  refine bind_ne_error (tickRange_ne_divisionByZero hscale _ _) fun rows => ?_
  refine bind_ne_error (mapM_ne_error fun i => ?_) fun xTicks => ?_
  · exact bind_ne_error (bind_ne_error (hcenter _ _) fun _ => nofun) fun _ => nofun
  · refine bind_ne_error (mapM_ne_error fun i => ?_) fun yTicks => nofun
    exact bind_ne_error (bind_ne_error (hcenter _ _) fun _ => nofun) fun _ => nofun

theorem InRange.not_dividesByZero (hv : v.InRange) : ¬ v.DividesByZero := by
  have hscale : isZero v.scale = false := Double.isZero_of_pos hv.scale_pos
  rintro (⟨column, hcolumn⟩ | hticks)
  · exact bind_ne_error (center_ne_divisionByZero _ _) (fun _ => div?_ne_divisionByZero hscale _) hcolumn
  · exact ticks_ne_divisionByZero hscale hticks

end Doubles

end PolyPlot.Viewport
