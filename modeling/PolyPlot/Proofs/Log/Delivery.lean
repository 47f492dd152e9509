import Mathlib.Data.List.Induction
import PolyPlot.Log.Logging

namespace PolyPlot

namespace Log

theorem isWithin_loggerName (name : String) : isWithin packageName (loggerName name) = true := by
  unfold loggerName
  split
  · next h => exact h
  · simp [isWithin, String.append_assoc]

/-- No level is below zero, which stands for a level that is not set. -/
theorem Level.nonneg_of_named? {s : String} {level : Level} (h : named? s = some level) : 0 ≤ level := by
  unfold named? at h
  split at h <;> cases h <;> decide

/-- A record of the logger that is given for a name. -/
def Record.on (name : String) (r : Record) : Record :=
  { r with logger := loggerName name }

end Log

namespace Logging

open Log (Level)

variable {σ : Type} {stream : σ} {levelName name : String} {level : Level}
  {l : Logging σ} {above : List σ} {r : Log.Record} {levels : ℕ}

/-- A call on the loggers of the package. -/
inductive Call (σ : Type) where
  | configure (stream : σ) (levelName : String)
  | log (name : String) (record : Log.Record)

namespace Call

/-- The setting after a call. -/
def next (l : Logging σ) : Call σ → Logging σ
  | configure stream levelName => (l.configure stream levelName).2
  | log _ _ => l

/-- The stream that a call sets, whether it succeeds or not. -/
def stream? : Call σ → Option σ
  | configure stream _ => some stream
  | log _ _ => none

/-- The stream and the level that a call sets, if it succeeds. -/
def success? : Call σ → Option (σ × Level)
  | configure stream levelName => (Level.named? levelName).map fun level => (stream, level)
  | log _ _ => none

end Call

variable {c : Call σ} {calls later : List (Call σ)}

/-- The setting that calls make of the first one. -/
def after (calls : List (Call σ)) : Logging σ :=
  calls.foldl Call.next {}

/-- The stream of the last call that sets one. -/
def lastStream? (calls : List (Call σ)) : Option σ :=
  (calls.filterMap Call.stream?).getLast?

/-- How many calls made a handler. -/
def handlersMade (calls : List (Call σ)) : ℕ :=
  (calls.filterMap Call.stream?).length

/-- The stream and the level of the last call that succeeds. -/
def lastSuccess? (calls : List (Call σ)) : Option (σ × Level) :=
  (calls.filterMap Call.success?).getLast?

theorem after_append (calls : List (Call σ)) (c : Call σ) : after (calls ++ [c]) = c.next (after calls) := by
  rw [after, List.foldl_append]
  rfl

theorem getLast?_filterMap_append {α β : Type} (f : α → Option β) (as : List α) (a : α) :
    ((as ++ [a]).filterMap f).getLast? = (f a).or (as.filterMap f).getLast? := by
  cases h : f a <;> simp [h]

theorem lastStream?_append (calls : List (Call σ)) (c : Call σ) :
    lastStream? (calls ++ [c]) = c.stream?.or (lastStream? calls) :=
  getLast?_filterMap_append Call.stream? calls c

theorem lastSuccess?_append (calls : List (Call σ)) (c : Call σ) :
    lastSuccess? (calls ++ [c]) = c.success?.or (lastSuccess? calls) :=
  getLast?_filterMap_append Call.success? calls c

theorem handlersMade_append (calls : List (Call σ)) (c : Call σ) :
    handlersMade (calls ++ [c]) = handlersMade calls + c.stream?.toList.length := by
  cases h : c.stream? <;> simp [handlersMade, h]

/-- A call that succeeds sets everything; one that fails sets the handler alone. -/
theorem configure_eq (stream : σ) (levelName : String) (l : Logging σ) :
    (l.configure stream levelName).2 = match Level.named? levelName with
      | some level => ⟨some ⟨l.made, stream⟩, level, false, l.made + 1⟩
      | none => ⟨some ⟨l.made, stream⟩, l.level, l.propagates, l.made + 1⟩ := by
  cases h : Level.named? levelName with
  | none => simp only [configure, h]
  | some level => simp only [configure, h]

/-- What the setting holds after a run: a handler for the stream of the last call, the level of the last
call that succeeded, and whether there was one. -/
theorem after_eq (calls : List (Call σ)) :
    after calls =
      { handler? := (lastStream? calls).map (⟨handlersMade calls - 1, ·⟩)
        level := ((lastSuccess? calls).map Prod.snd).getD 0
        propagates := (lastSuccess? calls).isNone
        made := handlersMade calls } := by
  induction calls using List.reverseRecOn with
  | nil => rfl
  | append_singleton calls c ih =>
    rw [after_append, lastStream?_append, lastSuccess?_append, handlersMade_append]
    cases c with
    | log name r => exact ih
    | configure stream levelName =>
      rw [Call.next, configure_eq, Call.stream?, Call.success?, Option.some_or]
      cases Level.named? levelName with
      | some level => rw [ih]; rfl
      | none => rw [ih, Option.map_none, Option.none_or]; rfl

/-- The level after a run is the one of a name, or not set. -/
theorem level_after_nonneg (calls : List (Call σ)) : 0 ≤ (after calls).level := by
  rw [after_eq]
  cases h : lastSuccess? calls with
  | none => exact Int.le_refl 0
  | some success =>
    obtain ⟨c, -, hc⟩ := List.mem_filterMap.mp (List.mem_of_getLast? h)
    cases c with
    | log name r => cases hc
    | configure stream levelName =>
      obtain ⟨level, hlevel, rfl⟩ := Option.map_eq_some_iff.mp hc
      exact Level.nonneg_of_named? hlevel

theorem enabled_iff (hl : 0 ≤ l.level) : l.enabled level = true ↔ l.threshold ≤ level := by
  have hpos : 0 < l.threshold := by
    unfold threshold
    split
    · decide
    · next hset => exact Int.lt_iff_le_and_ne.mpr ⟨hl, Ne.symm hset⟩
  rw [enabled, Bool.and_eq_true, decide_eq_true_eq, decide_eq_true_eq]
  exact and_iff_right_of_imp fun hle => Int.lt_of_lt_of_le hpos hle

/-- After a run every record of the package from the least level on goes to the stream of the last call,
and on to those above the package as long as no call has succeeded. -/
theorem receivers_after (above : List σ) (calls : List (Call σ)) (name : String) (r : Log.Record) :
    (after calls).receivers above (r.on name) =
      if (after calls).threshold ≤ r.level then
        (lastStream? calls).toList ++ (if (lastSuccess? calls).isNone then above else [])
      else [] := by
  have hwithin : Log.isWithin Log.packageName (r.on name).logger = true := Log.isWithin_loggerName name
  have hlevel : (after calls).enabled (r.on name).level = true ↔ (after calls).threshold ≤ r.level :=
    enabled_iff (level_after_nonneg calls)
  have hstream : (after calls).handler?.map Handler.stream = lastStream? calls := by
    rw [after_eq, Option.map_map]
    exact Option.map_id'
  have hpropagates : (after calls).propagates = (lastSuccess? calls).isNone := by rw [after_eq]
  rw [receivers, hwithin, Bool.true_and, hstream, hpropagates]
  simp only [hlevel]

/-- What a run promises: a call that fails leaves the handler, the level and the passing on as they were, and
a record from the level of the last call that succeeded on goes to the stream of that call once, and nowhere
else. -/
structure Keeps (above : List σ) (calls : List (Call σ)) : Prop where
  failure : ∀ before stream levelName later, calls = before ++ .configure stream levelName :: later →
    Level.named? levelName = none →
      let l := after before
      let failed := after (before ++ [.configure stream levelName])
      failed.handler? = l.handler? ∧ failed.level = l.level ∧ failed.propagates = l.propagates
  written : ∀ before name (r : Log.Record) later stream level, calls = before ++ .log name r :: later →
    lastSuccess? before = some (stream, level) → level ≤ r.level →
      (after before).receivers above (r.on name) = [stream] ∧
        ∀ levels timestamp line, (r.on name).lineAt levels timestamp = .ok line →
          (after before).write? levels timestamp (r.on name) = some (stream, line)

/-- Every call that sets the level names one. -/
def NamesLevels (calls : List (Call σ)) : Prop :=
  ∀ stream levelName, .configure stream levelName ∈ calls → (Level.named? levelName).isSome

/-- While the level that is set stands for none, no record is below the level that holds then, but for those
below zero. -/
def SkipsUnset (calls : List (Call σ)) : Prop :=
  ∀ before name (r : Log.Record) later stream, calls = before ++ .log name r :: later →
    lastSuccess? before = some (stream, 0) → 0 ≤ r.level → Log.unsetLevel ≤ r.level

/-- A call that fails leaves a handler of its own. -/
theorem handler?_after_failing (h : Level.named? levelName = none) (stream : σ) (calls : List (Call σ)) :
    (after (calls ++ [.configure stream levelName])).handler? ≠ (after calls).handler? := by
  rw [after_append, Call.next, configure_eq, h, after_eq]
  intro hsame
  obtain ⟨last, hlast, hplace⟩ := Option.map_eq_some_iff.mp hsame.symm
  have hpos : 0 < handlersMade calls := List.length_pos_of_mem (List.mem_of_getLast? hlast)
  have hcount : handlersMade calls - 1 = handlersMade calls := congrArg Handler.place hplace
  omega

/-- If no call fails, the stream that is set is the one of the last call that succeeded. -/
theorem NamesLevels.lastStream? (h : NamesLevels calls) (hsuccess : lastSuccess? calls = some (stream, level)) :
    lastStream? calls = some stream := by
  induction calls using List.reverseRecOn with
  | nil => cases hsuccess
  | append_singleton calls c ih =>
    rw [lastSuccess?_append] at hsuccess
    rw [lastStream?_append]
    cases c with
    | log name r =>
      exact ih (fun stream levelName hmem => h stream levelName (List.mem_append_left _ hmem)) hsuccess
    | configure stream' levelName =>
      obtain ⟨level', hlevel⟩ := Option.isSome_iff_exists.mp (h stream' levelName (by simp))
      rw [Call.success?, hlevel] at hsuccess
      cases hsuccess
      rfl

/-- From the level that is set on, a record is at the level that holds, unless none is set. -/
theorem threshold_after_le_iff (hsuccess : lastSuccess? calls = some (stream, level)) {n : Level}
    (hn : level ≤ n) : (after calls).threshold ≤ n ↔ level ≠ 0 ∨ Log.unsetLevel ≤ n := by
  have hlevel : (after calls).level = level := by
    rw [after_eq, hsuccess]
    rfl
  rw [threshold, hlevel]
  split
  · next hzero => simp [hzero]
  · next hset => simp [hset, hn]

/-- A run in which no call fails and no record is lost to a level that is not set keeps its promise. -/
theorem keeps_of_namesLevels (hnames : NamesLevels calls) (hunset : SkipsUnset calls) (above : List σ) :
    Keeps above calls := by
  constructor
  · rintro before stream levelName later rfl hname
    have hsome := hnames stream levelName (by simp)
    rw [hname] at hsome
    cases hsome
  · rintro before name r later stream level rfl hsuccess hleast
    have hbefore : NamesLevels before := fun stream levelName hmem =>
      hnames stream levelName (List.mem_append_left _ hmem)
    have hstream := hbefore.lastStream? hsuccess
    have hthreshold : (after before).threshold ≤ r.level := by
      refine (threshold_after_le_iff hsuccess hleast).mpr ?_
      by_cases hzero : level = 0
      · subst hzero
        exact .inr (hunset before name r later stream rfl hsuccess hleast)
      · exact .inl hzero
    constructor
    · rw [receivers_after, if_pos hthreshold, hstream, hsuccess]
      rfl
    · intro levels timestamp line hline
      have henabled : (after before).enabled (r.on name).level = true :=
        (enabled_iff (level_after_nonneg before)).mpr hthreshold
      rw [write?, if_pos henabled, hline, after_eq, hstream]
      rfl

/-- After a run a handler of the last call is set, with the level of the last call that succeeded, and a
record goes where that handler and the level tell. So a run keeps its promise exactly if no call fails and
no record is lost to a level that is not set. -/
theorem keeps_iff_namesLevels (above : List σ) (calls : List (Call σ)) :
    after calls =
        { handler? := (lastStream? calls).map (⟨handlersMade calls - 1, ·⟩)
          level := ((lastSuccess? calls).map Prod.snd).getD 0
          propagates := (lastSuccess? calls).isNone
          made := handlersMade calls } ∧
      (∀ (name : String) (r : Log.Record), (after calls).receivers above (r.on name) =
        if (after calls).threshold ≤ r.level then
          (lastStream? calls).toList ++ (if (lastSuccess? calls).isNone then above else [])
        else []) ∧
      (Keeps above calls ↔ NamesLevels calls ∧ SkipsUnset calls) := by
  refine ⟨after_eq calls, receivers_after above calls, fun h => ⟨?_, ?_⟩,
    fun h => keeps_of_namesLevels h.1 h.2 above⟩
  · intro stream levelName hmem
    obtain ⟨before, later, hcalls⟩ := List.append_of_mem hmem
    refine Option.isSome_iff_ne_none.mpr fun hname => ?_
    exact handler?_after_failing hname stream before (h.failure before stream levelName later hcalls hname).1
  · intro before name r later stream hcalls hsuccess hnonneg
    have hreceivers := (h.written before name r later stream 0 hcalls hsuccess hnonneg).1
    rw [receivers_after] at hreceivers
    split at hreceivers
    · next hthreshold =>
      exact ((threshold_after_le_iff hsuccess hnonneg).mp hthreshold).resolve_left (not_not_intro rfl)
    · cases hreceivers

/-- After an unknown level records go to the stream that came with it, and also to one above the package if
no call has succeeded before. With the level of no name a record below a warning is not written. -/
theorem not_keeps_of_unknown_level :
    let failing : Call ℕ := .configure 2 "nope"
    let warning : Log.Record := { logger := "engine", level := Level.warning, template := "m" }
    let info : Log.Record := { logger := "engine", level := Level.info, template := "m" }
    ¬ Keeps [0] [failing] ∧ (after [failing]).receivers [0] (warning.on "engine") = [2, 0] ∧
      ¬ Keeps [0] [.configure 1 "info", failing] ∧
      (after [.configure 1 "info", failing]).receivers [0] (warning.on "engine") = [2] ∧
      ¬ Keeps [0] [.configure 1 "notset", .log "engine" info] ∧
      (after [.configure 1 "notset"]).receivers [0] (info.on "engine") = [] := by
  intro failing warning info
  obtain ⟨-, hfirst, hkeepsFirst⟩ := keeps_iff_namesLevels [0] [failing]
  obtain ⟨-, hsecond, hkeepsSecond⟩ := keeps_iff_namesLevels [0] [.configure 1 "info", failing]
  obtain ⟨-, hthird, -⟩ := keeps_iff_namesLevels [0] [.configure (1 : ℕ) "notset"]
  obtain ⟨-, -, hkeepsThird⟩ := keeps_iff_namesLevels [0] [.configure (1 : ℕ) "notset", .log "engine" info]
  have hunknown : ¬ (Level.named? "nope").isSome := by decide
  refine ⟨fun h => ?_, hfirst "engine" warning, fun h => ?_, hsecond "engine" warning, fun h => ?_,
    hthird "engine" info⟩
  · exact hunknown ((hkeepsFirst.mp h).1 2 "nope" (by simp [failing]))
  · exact hunknown ((hkeepsSecond.mp h).1 2 "nope" (by simp [failing]))
  · have hleast := (hkeepsThird.mp h).2 [.configure 1 "notset"] "engine" info [] 1 rfl rfl (by decide)
    exact absurd hleast (by decide)

end Logging

end PolyPlot
