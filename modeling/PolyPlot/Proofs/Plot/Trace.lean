import Mathlib.Algebra.Ring.Int.Defs
import Mathlib.Data.List.Chain
import Mathlib.Data.List.Range
import PolyPlot.Plot.Trace
import PolyPlot.Proofs.Plot.Position
import PolyPlot.Scalar.Binary

namespace PolyPlot.Viewport

section Runs

variable {β γ : Type} {P : ℕ → Prop} [DecidablePred P] {a n : ℕ} {run : List ℕ} {found : List (List ℕ)}

/-- The maximal runs of the columns with a property, among so many columns from `a` on: all such columns
in their order, in runs of neighbours with a column between them that lacks the property. -/
structure MaximalRuns (P : ℕ → Prop) [DecidablePred P] (a n : ℕ) (found : List (List ℕ)) : Prop where
  flatten : found.flatten = (List.range' a n).filter P
  ne_nil : ∀ run ∈ found, run ≠ []
  neighbors : ∀ run ∈ found, run.IsChain fun i j => j = i + 1
  apart : found.IsChain fun run next => ∃ k, ¬ P k ∧ (∀ i ∈ run, i < k) ∧ ∀ j ∈ next, k < j

theorem MaximalRuns.le_of_mem (h : MaximalRuns P a n found) (hrun : run ∈ found) {i : ℕ} (hi : i ∈ run) :
    a ≤ i := by
  have hmem : i ∈ found.flatten := List.mem_flatten.mpr ⟨run, hrun, hi⟩
  rw [h.flatten, List.mem_filter, List.mem_range'_1] at hmem
  exact hmem.1.1

theorem splitRuns_none (rest : List (Option β)) : splitRuns (none :: rest) = ([], runs rest) := by
  rw [splitRuns, runs]
  cases splitRuns rest with
  | mk run later => cases run <;> rfl

theorem splitRuns_some (b : β) (rest : List (Option β)) :
    splitRuns (some b :: rest) = (b :: (splitRuns rest).1, (splitRuns rest).2) :=
  rfl

theorem runs_of_nil {samples : List (Option β)} (h : (splitRuns samples).1 = []) :
    runs samples = (splitRuns samples).2 := by
  rw [runs]
  cases hsplit : splitRuns samples with
  | mk run later =>
    rw [hsplit] at h
    subst h
    rfl

theorem runs_of_ne_nil {samples : List (Option β)} (h : (splitRuns samples).1 ≠ []) :
    runs samples = (splitRuns samples).1 :: (splitRuns samples).2 := by
  rw [runs]
  cases hsplit : splitRuns samples with
  | mk run later =>
    rw [hsplit] at h
    cases run with
    | nil => exact absurd rfl h
    | cons b run => rfl

/-- The runs of samples made of columns are those of the columns. -/
theorem splitRuns_map (f : γ → β) (samples : List (Option γ)) :
    splitRuns (samples.map (Option.map f)) =
      ((splitRuns samples).1.map f, (splitRuns samples).2.map (List.map f)) := by
  induction samples with
  | nil => rfl
  | cons sample rest ih =>
    cases sample with
    | none =>
      rw [List.map_cons, Option.map_none, splitRuns, splitRuns, ih]
      cases splitRuns rest with
      | mk run later => cases run <;> rfl
    | some c =>
      rw [List.map_cons, Option.map_some, splitRuns_some, splitRuns_some, ih]
      rfl

theorem runs_map (f : γ → β) (samples : List (Option γ)) :
    runs (samples.map (Option.map f)) = (runs samples).map (List.map f) := by
  rw [runs, runs, splitRuns_map]
  cases splitRuns samples with
  | mk run later => cases run <;> rfl

/-- A column as a sample. -/
def mark (P : ℕ → Prop) [DecidablePred P] (column : ℕ) : Option ℕ :=
  if P column then some column else none

/-- What the columns from `a` on are split into: a run from `a` on, and the maximal runs behind the column
at which it ends. -/
structure SplitAt (P : ℕ → Prop) [DecidablePred P] (a n : ℕ) (run : List ℕ) (later : List (List ℕ)) :
    Prop where
  flatten : run ++ later.flatten = (List.range' a n).filter P
  first : run = List.range' a run.length
  ends : later ≠ [] → ¬ P (a + run.length)
  beyond : ∀ next ∈ later, ∀ j ∈ next, a + run.length < j
  ne_nil : ∀ next ∈ later, next ≠ []
  neighbors : ∀ next ∈ later, next.IsChain fun i j => j = i + 1
  apart : later.IsChain fun run next => ∃ k, ¬ P k ∧ (∀ i ∈ run, i < k) ∧ ∀ j ∈ next, k < j

theorem SplitAt.mem_first (h : SplitAt P a n run found) {i : ℕ} (hi : i ∈ run) :
    a ≤ i ∧ i < a + run.length := by
  rwa [h.first, List.mem_range'_1] at hi

theorem maximalRuns_runs {samples : List (Option ℕ)}
    (h : SplitAt P a n (splitRuns samples).1 (splitRuns samples).2) : MaximalRuns P a n (runs samples) := by
  by_cases hrun : (splitRuns samples).1 = []
  · rw [runs_of_nil hrun]
    exact ⟨by rw [← h.flatten, hrun, List.nil_append], h.ne_nil, h.neighbors, h.apart⟩
  · rw [runs_of_ne_nil hrun]
    refine ⟨by rw [← h.flatten, List.flatten_cons], List.forall_mem_cons.mpr ⟨hrun, h.ne_nil⟩,
      List.forall_mem_cons.mpr ⟨?_, h.neighbors⟩, List.isChain_cons.mpr ⟨fun next hnext => ?_, h.apart⟩⟩
    · rw [h.first]
      exact List.isChain_range' _ _ _
    · have hmem : next ∈ (splitRuns samples).2 := List.mem_of_mem_head? hnext
      exact ⟨_, h.ends (List.ne_nil_of_mem hmem), fun i hi => (h.mem_first hi).2, h.beyond next hmem⟩

/-- Going through the columns from the last one back, each column that is drawn is put before the first
run, and each other one ends it. -/
theorem splitAt_marks (P : ℕ → Prop) [DecidablePred P] (a n : ℕ) :
    SplitAt P a n (splitRuns ((List.range' a n).map (mark P))).1
      (splitRuns ((List.range' a n).map (mark P))).2 := by
  induction n generalizing a with
  | zero =>
    exact ⟨rfl, rfl, fun h => absurd rfl h, by simp [splitRuns], by simp [splitRuns], by simp [splitRuns],
      List.isChain_nil⟩
  | succ n ih =>
    rw [List.range'_succ, List.map_cons]
    by_cases ha : P a
    · rw [mark, if_pos ha, splitRuns_some]
      obtain ⟨hflatten, hfirst, hends, hbeyond, hne, hneighbors, hapart⟩ := ih (a + 1)
      have hlength (run : List ℕ) : a + (a :: run).length = a + 1 + run.length := by
        rw [List.length_cons]
        omega
      refine ⟨?_, ?_, ?_, ?_, hne, hneighbors, hapart⟩
      · rw [List.range'_succ, List.filter_cons_of_pos (by simpa using ha), List.cons_append, hflatten]
      · rw [List.length_cons, List.range'_succ, ← hfirst]
      · rwa [hlength]
      · rwa [hlength]
    · have hruns := maximalRuns_runs (ih (a + 1))
      rw [mark, if_neg ha, splitRuns_none]
      refine ⟨?_, rfl, fun _ => ha, fun next hnext j hj => ?_, hruns.ne_nil, hruns.neighbors, hruns.apart⟩
      · rw [List.range'_succ, List.filter_cons_of_neg (by simpa using ha), List.nil_append, hruns.flatten]
      · exact hruns.le_of_mem hnext hj

/-- The runs of the marked columns are the maximal ones. -/
theorem maximalRuns_marks (P : ℕ → Prop) [DecidablePred P] (a n : ℕ) :
    MaximalRuns P a n (runs ((List.range' a n).map (mark P))) :=
  maximalRuns_runs (splitAt_marks P a n)

end Runs

section Samples

open Scalar (Represents)

variable {α : Type} [Scalar α] {v : Viewport α} {margin : α} {p : Coeffs α} {column : ℕ}

/-- The value of a curve in a column. -/
def valueIn (v : Viewport α) (p : Coeffs α) (column : ℕ) : α :=
  p.value ((Scalar.ofInt column - v.originX) / v.scale)

/-- The row of a curve in a column. -/
def rowIn (v : Viewport α) (p : Coeffs α) (column : ℕ) : α :=
  v.rowOf (v.valueIn p column)

/-- Whether the value and the row of a curve in a column are finite and the row is not beyond the
margin. -/
structure Drawn (v : Viewport α) (margin : α) (p : Coeffs α) (column : ℕ) : Prop where
  finite_value : Scalar.isFinite (v.valueIn p column) = true
  finite_row : Scalar.isFinite (v.rowIn p column) = true
  not_above : ¬ v.rowIn p column < -margin
  not_below : ¬ Scalar.ofInt v.height + margin < v.rowIn p column

instance (v : Viewport α) (margin : α) (p : Coeffs α) : DecidablePred (v.Drawn margin p) := fun column =>
  decidable_of_iff
    (Scalar.isFinite (v.valueIn p column) = true ∧ Scalar.isFinite (v.rowIn p column) = true ∧
      ¬ v.rowIn p column < -margin ∧ ¬ Scalar.ofInt v.height + margin < v.rowIn p column)
    ⟨fun ⟨h₁, h₂, h₃, h₄⟩ => ⟨h₁, h₂, h₃, h₄⟩, fun ⟨h₁, h₂, h₃, h₄⟩ => ⟨h₁, h₂, h₃, h₄⟩⟩

/-- The point of a curve in a column. -/
def pointIn (v : Viewport α) (p : Coeffs α) (column : ℕ) : α × α :=
  (Scalar.ofInt column, v.rowIn p column)

/-- A size of the canvas is asked for in a column and has no number: the width in each column, the height
where the value of the curve is finite. -/
def TooGreatIn (v : Viewport α) (p : Coeffs α) (column : ℕ) : Prop :=
  ¬ Represents α v.width ∨ ¬ Represents α v.height ∧ Scalar.isFinite (v.valueIn p column) = true

/-- A size of the canvas is asked for in some column and has no number. -/
def TooGreat (v : Viewport α) (p : Coeffs α) : Prop :=
  ∃ column < v.width.toNat, v.TooGreatIn p column

theorem sampleAt_of_value (hscale : Scalar.isZero v.scale = false) (hwidth : Represents α v.width) :
    v.sampleAt margin p column =
      if (!Scalar.isFinite (v.valueIn p column)) = true then .ok none
      else v.toPixelY (v.valueIn p column) >>= fun py =>
        if (!Scalar.isFinite py) = true then .ok none
        else if (decide (py < -margin) || decide (Scalar.ofInt v.height + margin < py)) = true then .ok none
        else .ok (some (Scalar.ofInt column, py)) := by
  rw [sampleAt, toMathX_eq hwidth hscale]
  rfl

/-- A sample is the point of a column that is drawn. -/
theorem sampleAt_eq (hscale : Scalar.isZero v.scale = false) (hsize : ¬ v.TooGreatIn p column) :
    v.sampleAt margin p column = .ok ((mark (v.Drawn margin p) column).map (v.pointIn p)) := by
  rw [TooGreatIn, not_or, not_not, not_and] at hsize
  rw [sampleAt_of_value hscale hsize.1]
  by_cases hvalue : Scalar.isFinite (v.valueIn p column) = true
  · have hheight : Represents α v.height := not_imp_not.mp hsize.2 hvalue
    rw [if_neg (by rw [hvalue]; decide), toPixelY_eq hheight, ok_bind]
    by_cases hdrawn : v.Drawn margin p column
    · obtain ⟨-, hrow, habove, hbelow⟩ := id hdrawn
      rw [mark, if_pos hdrawn]
      rw [rowIn] at hrow habove hbelow
      simp only [hrow, habove, hbelow, Bool.not_true, Bool.false_eq_true, if_false, decide_false,
        Bool.or_self]
      rfl
    · rw [mark, if_neg hdrawn]
      split
      · rfl
      · next hrow =>
        split
        · rfl
        · next hinside =>
          simp only [Bool.or_eq_true, Bool.not_eq_true', not_or, Bool.not_eq_false, decide_eq_true_eq]
            at hrow hinside
          exact absurd ⟨hvalue, hrow, hinside.1, hinside.2⟩ hdrawn
  · rw [mark, if_neg fun hdrawn : v.Drawn margin p column => hvalue hdrawn.finite_value,
      if_pos (by rw [Bool.eq_false_iff.mpr hvalue]; decide)]
    rfl

theorem sampleAt_eq_overflow (hscale : Scalar.isZero v.scale = false) (hgreat : v.TooGreatIn p column) :
    v.sampleAt margin p column = .error .overflow := by
  by_cases hwidth : Represents α v.width
  · obtain ⟨hheight, hvalue⟩ := hgreat.resolve_left (not_not_intro hwidth)
    rw [sampleAt_of_value hscale hwidth, if_neg (by rw [hvalue]; decide), toPixelY_eq_overflow hheight]
    rfl
  · rw [sampleAt, toMathX_eq_overflow hwidth]
    rfl

theorem trace_eq (hscale : Scalar.isZero v.scale = false) (hsize : ¬ v.TooGreat p) :
    v.trace margin p = .ok ((runs ((List.range' 0 v.width.toNat).map (mark (v.Drawn margin p)))).map
      (List.map (v.pointIn p))) := by
  have hsamples : (List.range v.width.toNat).mapM (v.sampleAt margin p) =
      .ok ((List.range v.width.toNat).map fun column =>
        (mark (v.Drawn margin p) column).map (v.pointIn p)) := by
    refine mapM_eq_ok_map fun column hcolumn => sampleAt_eq hscale fun hgreat => ?_
    exact hsize ⟨column, List.mem_range.mp hcolumn, hgreat⟩
  rw [trace, hsamples, ← runs_map, List.map_map, List.range_eq_range']
  rfl

theorem trace_eq_overflow (hscale : Scalar.isZero v.scale = false) (hsize : v.TooGreat p) :
    v.trace margin p = .error .overflow := by
  obtain ⟨column, hcolumn, hgreat⟩ := hsize
  have hsamples : (List.range v.width.toNat).mapM (v.sampleAt margin p) = .error .overflow := by
    refine mapM_eq_error (fun i _ => ?_)
      ⟨column, List.mem_range.mpr hcolumn, sampleAt_eq_overflow hscale hgreat⟩
    by_cases hi : v.TooGreatIn p i
    · exact .inr (sampleAt_eq_overflow hscale hi)
    · exact .inl ⟨_, sampleAt_eq hscale hi⟩
  rw [trace, hsamples]
  rfl

/-- The polylines of a curve are the maximal runs of the columns that are drawn, each column with its
point, unless a size of the canvas is too great where it is asked for. -/
theorem trace_maximalRuns (margin : α) (p : Coeffs α) (hscale : Scalar.isZero v.scale = false) :
    (v.TooGreat p → v.trace margin p = .error .overflow) ∧
    (¬ v.TooGreat p → ∃ columns, v.trace margin p = .ok (columns.map (List.map (v.pointIn p))) ∧
      MaximalRuns (v.Drawn margin p) 0 v.width.toNat columns) :=
  ⟨trace_eq_overflow hscale, fun hsize => ⟨_, trace_eq hscale hsize, maximalRuns_marks _ _ _⟩⟩

/-- A curve that leaves the canvas above between two columns on it. -/
theorem trace_maximalRuns_around_gap :
    let v : Viewport Float := ⟨4, 2, 1, 0, 0, 1⟩
    Scalar.isZero v.scale = false ∧ ¬ v.TooGreat [100, 0, -100] ∧
      ∃ columns, v.trace 0 [100, 0, -100] = .ok (columns.map (List.map (v.pointIn [100, 0, -100]))) ∧
        MaximalRuns (v.Drawn 0 [100, 0, -100]) 0 4 columns ∧ columns.flatten = [1, 3] := by
  intro v
  have hscale : Scalar.isZero v.scale = false := by decide
  have hwidth : Represents Float v.width := by decide
  have hheight : Represents Float v.height := by decide
  have hsize : ¬ v.TooGreat [100, 0, -100] := by
    rintro ⟨column, -, hgreat | ⟨hgreat, -⟩⟩
    · exact hgreat hwidth
    · exact hgreat hheight
  obtain ⟨columns, htrace, hruns⟩ := (trace_maximalRuns 0 [100, 0, -100] hscale).2 hsize
  refine ⟨hscale, hsize, columns, htrace, hruns, ?_⟩
  rw [hruns.flatten]
  decide +kernel

/-- A canvas of one column that is too high for a double has no polylines of a curve on the axis. -/
theorem trace_ne_ok_of_height_beyond_doubles :
    let v : Viewport Float := ⟨1, 10 ^ 400, 1, 0, 0, 50⟩
    Scalar.isZero v.scale = false ∧ ∀ found, v.trace 1000 [0] ≠ .ok found := by
  intro v
  have hscale : Scalar.isZero v.scale = false := by decide
  have hheight : ¬ Represents Float v.height := by decide +kernel
  have hvalue : Scalar.isFinite (v.valueIn [0] 0) = true := by decide +kernel
  have hgreat : v.TooGreat [0] := ⟨0, by decide, .inr ⟨hheight, hvalue⟩⟩
  refine ⟨hscale, fun found hfound => ?_⟩
  rw [trace_eq_overflow hscale hgreat] at hfound
  cases hfound

end Samples

end PolyPlot.Viewport
