import PolyPlot.Proofs.Coeffs.Canonical
import PolyPlot.Proofs.Evaluation.Compilation
import PolyPlot.Proofs.Evaluation.Refusal
import PolyPlot.Proofs.Grammar.Refusal

namespace PolyPlot.Expression

open Decimal (Writable)

variable {o : Options} {ε : Float} {text : String} {p : Coeffs Float} {levels : Option ℕ}
  {maxLength : Option ℤ}

/-- A text of blanks only. -/
def Blank (text : String) : Prop :=
  ∀ c ∈ text.toList, Text.isBlank c = true

/-- A text of more characters than a cap allows. -/
def TooLong (maxLength : Option ℤ) (text : String) : Prop :=
  ∃ limit ∈ maxLength, limit < text.length

/-- A vector of finite numbers that is not empty, and has no small entry at its end unless that is its
only one. -/
structure Reduced (ε : Float) (p : Coeffs Float) : Prop where
  ne_nil : p ≠ []
  isFinite : ∀ a ∈ p, a.isFinite = true
  last : 1 < p.length → ∀ a ∈ p.getLast?, ε ≤ a.abs

theorem reduced_canonical (hε : 0 < ε) (hp : p ≠ []) (hfinite : ∀ a ∈ p, a.isFinite = true) :
    Reduced ε (p.canonical ε) := by
  have hkept : ∀ a ∈ p.canonical ε, a.isFinite = true := fun a ha =>
    hfinite a ((Coeffs.canonical_isPrefix hp).subset ha)
  exact ⟨Coeffs.canonical_ne_nil ε p, hkept,
    fun hlength _ ha => Coeffs.le_abs_of_getLast?_canonical hε hkept hlength ha⟩

/-- All that compiling an expression can come to. -/
inductive Outcome (o : Options) (levels : Option ℕ) (text : String) :
    Except Failure (Coeffs Float) → Prop
  | blank (hblank : Blank text) : Outcome o levels text (.error (.refused .empty))
  | tooLong {limit : ℤ} (hblank : ¬ Blank text) (hlimit : limit ∈ o.maxLength)
      (hlong : limit < text.length) (htell : Writable limit) :
      Outcome o levels text (.error (.refused (.tooLong limit)))
  | untoldLength {limit : ℤ} (hblank : ¬ Blank text) (hlimit : limit ∈ o.maxLength)
      (hlong : limit < text.length) (htell : ¬ Writable limit) :
      Outcome o levels text (.error (.fault .tooManyDigits))
  | malformed {e : Error} (hblank : ¬ Blank text) (hlong : ¬ TooLong o.maxLength text)
      (hread : Tree.read levels (normalize text) = .error e) (hkind : e.kind = .malformed) :
      Outcome o levels text (.error (.refused e))
  | tooDeep {t : Tree Float} {n : ℕ} (hblank : ¬ Blank text) (hlong : ¬ TooLong o.maxLength text)
      (hread : Tree.read levels (normalize text) = .ok t) (hn : levels = some n) (hdeep : n < t.height) :
      Outcome o levels text (.error (.refused .nestedTooDeeply))
  | meaningless {t : Tree Float} {e : Error} (hblank : ¬ Blank text)
      (hlong : ¬ TooLong o.maxLength text) (hread : Tree.read levels (normalize text) = .ok t)
      (hnone : ∀ p, t.evaluateUpTo o.limits levels = .ok p → ∃ a ∈ p, a.isFinite = false)
      (htell : levels = none → ∀ m, t.StopsAt o.limits m → Writable o.maxExponent)
      (hkind : e.kind = .meaningless) : Outcome o levels text (.error (.refused e))
  | untoldExponent {t : Tree Float} {m : ℤ} (hblank : ¬ Blank text) (hlong : ¬ TooLong o.maxLength text)
      (hread : Tree.read levels (normalize text) = .ok t) (htell : ¬ Writable o.maxExponent)
      (hstop : t.StopsAt o.limits m) : Outcome o levels text (.error (.fault .tooManyDigits))
  | vector {t : Tree Float} {p : Coeffs Float} (hblank : ¬ Blank text)
      (hlong : ¬ TooLong o.maxLength text) (hread : Tree.read levels (normalize text) = .ok t)
      (hp : t.evaluateUpTo o.limits levels = .ok p) (hfinite : ∀ a ∈ p, a.isFinite = true) :
      Outcome o levels text (.ok (p.canonical o.epsilon))

theorem screen_of_blank (hblank : Blank text) : screen maxLength text = .error (.refused .empty) :=
  if_pos (List.all_eq_true.mpr hblank)

theorem screen_of_tooLong {limit : ℤ} (hblank : ¬ Blank text) (hlong : limit < text.length) :
    screen (some limit) text = (Error.tooLong limit).refuse := by
  unfold screen
  rw [if_neg (mt List.all_eq_true.mp hblank)]
  exact if_pos hlong

theorem screen_eq_ok (hblank : ¬ Blank text) (hlong : ¬ TooLong maxLength text) :
    screen maxLength text = .ok () := by
  unfold screen
  rw [if_neg (mt List.all_eq_true.mp hblank)]
  cases maxLength with
  | none => rfl
  | some limit => exact if_neg fun hlimit => hlong ⟨limit, rfl, hlimit⟩

/-- A text that does not pass the screen is not compiled. -/
theorem compileWith_of_screen {f : Failure} (h : screen o.maxLength text = .error f) :
    compileWith id o.limits levels o.maxLength text = .error f := by
  unfold compileWith rawVector
  rw [h]
  rfl

/-- What has passed the screen and is read is refused or has a vector, as its tree has. -/
theorem outcome_of_read (hε : 0 < o.epsilon) {t : Tree Float} (hblank : ¬ Blank text)
    (hlong : ¬ TooLong o.maxLength text) (hread : Tree.read levels (normalize text) = .ok t) :
    Outcome o levels text (compileWith id o.limits levels o.maxLength text) := by
  have hcompile : compileWith id o.limits levels o.maxLength text =
      (t.evaluateUpTo o.limits levels >>= fun raw => (requireFinite raw).mapError Failure.refused).map
        (Coeffs.canonical o.epsilon) := by
    unfold compileWith rawVector
    rw [screen_eq_ok hblank hlong, hread]
    simp only [Except.mapError, bind, Except.bind, Tree.map_id]
    rfl
  cases hevaluate : t.evaluateUpTo o.limits levels with
  | error f =>
    have hnone : ∀ p, t.evaluateUpTo o.limits levels = .ok p → ∃ a ∈ p, a.isFinite = false := by
      rw [hevaluate]
      nofun
    have hlimits : 0 < o.limits.epsilon := hε
    rw [hevaluate] at hcompile
    cases Tree.unevaluated_of_evaluateUpTo hlimits hevaluate with
    | meaningless hkind =>
      have htell : levels = none → ∀ m, t.StopsAt o.limits m → Writable o.maxExponent := by
        rintro rfl m hstop
        exact hstop.writable hevaluate
      exact hcompile ▸ .meaningless hblank hlong hread hnone htell hkind
    | tooDeep hdeep =>
      cases levels with
      | none => exact absurd hdeep (lt_irrefl _)
      | some n => exact hcompile ▸ .tooDeep hblank hlong hread rfl hdeep
    | untold htell hstop => exact hcompile ▸ .untoldExponent hblank hlong hread htell hstop
  | ok p =>
    rw [hevaluate] at hcompile
    by_cases hfinite : ∀ a ∈ p, a.isFinite = true
    · have hrequire : requireFinite p = .ok p := requireFinite_eq_ok_iff.mpr ⟨hfinite, rfl⟩
      simp only [bind, Except.bind, hrequire] at hcompile
      exact hcompile ▸ .vector hblank hlong hread hevaluate hfinite
    · have hrequire : requireFinite p = .error .coefficientNotFinite :=
        if_neg (mt List.all_eq_true.mp hfinite)
      have hnone : ∀ q, t.evaluateUpTo o.limits levels = .ok q → ∃ a ∈ q, a.isFinite = false := by
        rw [hevaluate]
        intro q hq
        cases hq
        simpa using hfinite
      have htell : levels = none → ∀ m, t.StopsAt o.limits m → Writable o.maxExponent := by
        rintro rfl m hstop
        exact absurd (hstop.evaluate_eq.symm.trans hevaluate) (Error.refuse_ne_ok p)
      simp only [bind, Except.bind, hrequire] at hcompile
      exact hcompile ▸ .meaningless hblank hlong hread hnone htell rfl

/-- What becomes of an expression under a positive tolerance, whatever its text is. -/
theorem outcome_compileWith (hε : 0 < o.epsilon) (levels : Option ℕ) (text : String) :
    Outcome o levels text (compileWith id o.limits levels o.maxLength text) := by
  by_cases hblank : Blank text
  · exact compileWith_of_screen (screen_of_blank hblank) ▸ .blank hblank
  by_cases hlong : TooLong o.maxLength text
  · obtain ⟨limit, hlimit, hlong⟩ := hlong
    have hscreen : screen o.maxLength text = (Error.tooLong limit).refuse := by
      rw [Option.mem_def.mp hlimit, screen_of_tooLong hblank hlong]
    by_cases htell : Writable limit
    · rw [Error.refuse_of_tellable (Error.tellable_tooLong.mpr htell)] at hscreen
      exact compileWith_of_screen hscreen ▸ .tooLong hblank hlimit hlong htell
    · rw [Error.refuse_of_not_tellable (mt Error.tellable_tooLong.mp htell)] at hscreen
      exact compileWith_of_screen hscreen ▸ .untoldLength hblank hlimit hlong htell
  cases hread : Tree.read levels (normalize text) with
  | error e =>
    have hcompile : compileWith id o.limits levels o.maxLength text = .error (.refused e) := by
      unfold compileWith rawVector
      rw [screen_eq_ok hblank hlong, hread]
      rfl
    exact hcompile ▸ .malformed hblank hlong hread (Reading.kind_of_tree hread)
  | ok t => exact outcome_of_read hε hblank hlong hread

/-- The vector of an expression is reduced. -/
theorem reduced_of_compileWith (hε : 0 < o.epsilon)
    (h : compileWith id o.limits levels o.maxLength text = .ok p) : Reduced o.epsilon p := by
  have houtcome := outcome_compileWith hε levels text
  rw [h] at houtcome
  cases houtcome with
  | vector _ _ _ hp hfinite =>
    exact reduced_canonical hε (Tree.evaluateUpTo_eq_ok_iff.mp hp).2.ne_nil hfinite

/-- The limits can be told where an expression is refused for one. -/
structure Options.Tellable (o : Options) : Prop where
  maxExponent : Writable o.maxExponent
  maxLength : ∀ limit ∈ o.maxLength, Writable limit

theorem tellable_default : ({} : Options).Tellable :=
  ⟨by decide +kernel, nofun⟩

/-- Under a positive tolerance an expression is compiled or refused, unless the reason has a limit that cannot
be told. -/
theorem compile_eq_ok_or_refused (hε : 0 < o.epsilon) (n : ℕ) (text : String) :
    (∃ p, compile n o text = .ok p) ∨ (∃ e, compile n o text = .error (.refused e)) ∨
      ¬ o.Tellable ∧ compile n o text = .error (.fault .tooManyDigits) := by
  have houtcome : Outcome o (some n) text (compile n o text) := outcome_compileWith hε (some n) text
  generalize compile n o text = outcome at houtcome ⊢
  cases houtcome with
  | blank | tooLong | malformed | tooDeep | meaningless => exact .inr (.inl ⟨_, rfl⟩)
  | untoldLength _ hlimit _ htell => exact .inr (.inr ⟨fun h => htell (h.maxLength _ hlimit), rfl⟩)
  | untoldExponent _ _ _ htell _ => exact .inr (.inr ⟨fun h => htell h.maxExponent, rfl⟩)
  | vector => exact .inl ⟨_, rfl⟩

theorem parse_eq_ok (hε : 0 < o.epsilon) (ho : o.Tellable) (n : ℕ) (text : String) :
    parse n o text = .ok (compile (n - 1) o text).toOption := by
  unfold parse
  obtain ⟨p, hp⟩ | ⟨e, he⟩ | ⟨hnot, -⟩ := compile_eq_ok_or_refused hε (n - 1) text
  · rw [hp]
    rfl
  · rw [he]
    rfl
  · exact absurd ho hnot

/-- An expression is refused for a reason of a kind. -/
def RefusedAs (kind : Kind) (outcome : Except Failure (Coeffs Float)) : Prop :=
  ∃ e, outcome = .error (.refused e) ∧ e.kind = kind

theorem refusedAs_ok (kind : Kind) (p : Coeffs Float) : ¬ RefusedAs kind (.ok p) := by
  rintro ⟨e, h, -⟩
  cases h

theorem refusedAs_fault (kind : Kind) (f : Fault) : ¬ RefusedAs kind (.error (.fault f)) := by
  rintro ⟨e, h, -⟩
  cases h

theorem refusedAs_error {kind : Kind} {e : Error} :
    RefusedAs kind (.error (.refused e)) ↔ e.kind = kind := by
  constructor
  · rintro ⟨e', h, hkind⟩
    cases h
    exact hkind
  · exact fun hkind => ⟨e, rfl, hkind⟩

/-- What is promised of compiling an expression without a limit on its nesting: it gives a reduced vector of
finite numbers or is refused. It is refused as blank exactly if its text is; as malformed exactly if the text
is not blank but too long, or its normal form is not read; and otherwise as meaningless, exactly if the tree
has no vector of finite numbers. -/
structure Keeps (o : Options) (text : String) (outcome : Except Failure (Coeffs Float)) : Prop where
  reduced_or_refused : (∃ p, outcome = .ok p ∧ Reduced o.epsilon p) ∨ ∃ kind, RefusedAs kind outcome
  blank : RefusedAs .blank outcome ↔ Blank text
  malformed : RefusedAs .malformed outcome ↔
    ¬ Blank text ∧ (TooLong o.maxLength text ∨ ∃ e, Tree.read none (normalize text) = .error e)
  meaningless : RefusedAs .meaningless outcome ↔
    ¬ Blank text ∧ ¬ TooLong o.maxLength text ∧ ∃ t, Tree.read none (normalize text) = .ok t ∧
      ¬ ∃ p, Tree.Evaluates o.limits t p ∧ ∀ a ∈ p, a.isFinite = true

/-- The reason why an expression is refused has a limit with too many digits to be told: the text is too long,
or its evaluation ends at an exponent that is out of range. -/
def Untold (o : Options) (text : String) : Prop :=
  ¬ Blank text ∧
    (TooLong o.maxLength text ∧ (∃ limit ∈ o.maxLength, ¬ Writable limit) ∨
      ¬ TooLong o.maxLength text ∧ ¬ Writable o.maxExponent ∧
        ∃ t m, Tree.read none (normalize text) = .ok t ∧ t.StopsAt o.limits m)

theorem Keeps.ne_fault {outcome : Except Failure (Coeffs Float)} (h : Keeps o text outcome) (f : Fault) :
    outcome ≠ .error (.fault f) := by
  rintro rfl
  rcases h.reduced_or_refused with ⟨p, hp, -⟩ | ⟨kind, e, he, -⟩
  · cases hp
  · cases he

/-- Without a limit on its nesting, an expression comes to a failure of the attempt to tell the reason exactly
if that cannot be told. -/
theorem Outcome.untold_iff {outcome : Except Failure (Coeffs Float)} (h : Outcome o none text outcome) :
    Untold o text ↔ outcome = .error (.fault .tooManyDigits) := by
  cases h with
  | blank hblank => exact iff_of_false (fun h => h.1 hblank) nofun
  | @tooLong limit hblank hlimit hlong htell =>
    refine iff_of_false ?_ nofun
    rintro ⟨-, ⟨-, limit', hlimit', htell'⟩ | ⟨hshort, -⟩⟩
    · obtain rfl := Option.mem_unique hlimit hlimit'
      exact htell' htell
    · exact hshort ⟨limit, hlimit, hlong⟩
  | @untoldLength limit hblank hlimit hlong htell =>
    exact iff_of_true ⟨hblank, .inl ⟨⟨limit, hlimit, hlong⟩, limit, hlimit, htell⟩⟩ rfl
  | malformed hblank hlong hread =>
    refine iff_of_false ?_ nofun
    rintro ⟨-, ⟨hlong', -⟩ | ⟨-, -, t, m, hread', -⟩⟩
    · exact hlong hlong'
    · rw [hread] at hread'
      cases hread'
  | tooDeep _ _ _ hn _ => cases hn
  | meaningless hblank hlong hread hnone htell =>
    refine iff_of_false ?_ nofun
    rintro ⟨-, ⟨hlong', -⟩ | ⟨-, hlimit, t', m, hread', hstop⟩⟩
    · exact hlong hlong'
    · rw [hread] at hread'
      cases hread'
      exact hlimit (htell rfl m hstop)
  | @untoldExponent t m hblank hlong hread htell hstop =>
    exact iff_of_true ⟨hblank, .inr ⟨hlong, htell, t, m, hread, hstop⟩⟩ rfl
  | @vector t p hblank hlong hread hp =>
    refine iff_of_false ?_ nofun
    rintro ⟨-, ⟨hlong', -⟩ | ⟨-, -, t', m, hread', hstop⟩⟩
    · exact hlong hlong'
    · rw [hread] at hread'
      cases hread'
      exact Error.refuse_ne_ok p (hstop.evaluate_eq.symm.trans hp)

/-- What an expression comes to is as promised, unless it is no answer. -/
theorem Outcome.keeps {outcome : Except Failure (Coeffs Float)} (hε : 0 < o.epsilon)
    (h : Outcome o none text outcome) (htold : outcome ≠ .error (.fault .tooManyDigits)) :
    Keeps o text outcome := by
  cases h with
  | blank hblank =>
    exact ⟨.inr ⟨_, _, rfl, rfl⟩, by simp [refusedAs_error, hblank, Error.kind],
      by simp [refusedAs_error, hblank, Error.kind], by simp [refusedAs_error, hblank, Error.kind]⟩
  | @tooLong limit hblank hlimit hlong =>
    have hlong' : TooLong o.maxLength text := ⟨limit, hlimit, hlong⟩
    exact ⟨.inr ⟨_, _, rfl, rfl⟩, by simp [refusedAs_error, hblank, Error.kind],
      by simp [refusedAs_error, hblank, hlong', Error.kind], by simp [refusedAs_error, hlong', Error.kind]⟩
  | untoldLength => exact absurd rfl htold
  | malformed hblank hlong hread hkind =>
    exact ⟨.inr ⟨_, _, rfl, hkind⟩, by simp [refusedAs_error, hblank, hkind],
      by simp [refusedAs_error, hblank, hread, hkind], by simp [refusedAs_error, hread, hkind]⟩
  | tooDeep _ _ _ hn _ => cases hn
  | @meaningless t e hblank hlong hread hnone _ hkind =>
    have hnone' : ¬ ∃ p, Tree.Evaluates o.limits t p ∧ ∀ a ∈ p, a.isFinite = true := by
      rintro ⟨p, hp, hfinite⟩
      obtain ⟨a, ha, hinfinite⟩ := hnone p (Tree.evaluate_eq_ok_iff.mpr hp)
      rw [hfinite a ha] at hinfinite
      cases hinfinite
    exact ⟨.inr ⟨_, _, rfl, hkind⟩, by simp [refusedAs_error, hblank, hkind],
      by simp [refusedAs_error, hlong, hread, hkind],
      iff_of_true (refusedAs_error.mpr hkind) ⟨hblank, hlong, t, hread, hnone'⟩⟩
  | untoldExponent => exact absurd rfl htold
  | @vector t p hblank hlong hread hp hfinite =>
    have hevaluates := Tree.evaluate_eq_ok_iff.mp hp
    have hmeant : ¬ (¬ Blank text ∧ ¬ TooLong o.maxLength text ∧ ∃ t, Tree.read none (normalize text) = .ok t ∧
        ¬ ∃ p, Tree.Evaluates o.limits t p ∧ ∀ a ∈ p, a.isFinite = true) := by
      rintro ⟨-, -, t', hread', hno⟩
      rw [hread] at hread'
      cases hread'
      exact hno ⟨p, hevaluates, hfinite⟩
    exact ⟨.inl ⟨_, rfl, reduced_canonical hε hevaluates.ne_nil hfinite⟩, by simp [refusedAs_ok, hblank],
      by simp [refusedAs_ok, hlong, hread], iff_of_false (refusedAs_ok _ _) hmeant⟩

/-- Without a limit on its nesting, an expression is compiled or refused as promised exactly if the reason can
be told. Otherwise the attempt to tell it fails. -/
theorem compileWith_keeps_iff (o : Options) (hε : 0 < o.epsilon) (text : String) :
    let outcome := compileWith id o.limits none o.maxLength text
    (Keeps o text outcome ↔ ¬ Untold o text) ∧
      (Untold o text → outcome = .error (.fault .tooManyDigits)) := by
  intro outcome
  have houtcome : Outcome o none text outcome := outcome_compileWith hε none text
  have huntold := houtcome.untold_iff
  refine ⟨⟨fun hkeeps h => ?_, fun hnot => ?_⟩, huntold.mp⟩
  · exact hkeeps.ne_fault _ (huntold.mp h)
  · exact houtcome.keeps hε (mt huntold.mpr hnot)

/-- The limit of `2 ^ 16000` has 4817 digits, so the refusal of a negative exponent cannot name it. -/
theorem not_keeps_of_unwritable_limit :
    let o : Options := { maxExponent := 2 ^ 16000 }
    0 < o.epsilon ∧ ¬ Keeps o "x^-1" (compileWith id o.limits none none "x^-1") ∧
      compileWith id o.limits none none "x^-1" = .error (.fault .tooManyDigits) := by
  intro o
  have hε : 0 < o.epsilon := by decide
  let t : Tree Float := .power .x (.negate (.literal 1))
  have hread : Tree.read none (normalize "x^-1") = .ok t := rfl
  have hstop : t.StopsAt o.limits (-1) :=
    .here .x (.negate (.literal 1)) (by decide +kernel) (.inl (by decide))
  have hblank : ¬ Blank "x^-1" := fun h => absurd (h 'x' (by decide)) (by decide)
  have hlong : ¬ TooLong none "x^-1" := by
    rintro ⟨limit, hlimit, -⟩
    cases hlimit
  have htell : ¬ Writable o.maxExponent := by decide +kernel
  have huntold : Untold o "x^-1" := ⟨hblank, .inr ⟨hlong, htell, t, -1, hread, hstop⟩⟩
  obtain ⟨hkeeps, hfault⟩ := compileWith_keeps_iff o hε "x^-1"
  exact ⟨hε, fun h => hkeeps.mp h huntold, hfault huntold⟩

end PolyPlot.Expression
