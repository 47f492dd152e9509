import PolyPlot.Proofs.Evaluation.Outcome
import PolyPlot.Proofs.Report.CrossCheck

namespace PolyPlot.Report

open Expression (Blank Options RefusedAs compileWith normalize refusedAs_error refusedAs_fault
  refusedAs_ok)

variable {text s : String}

/-- What the filter lets through is the normal form, and its characters are those of the grammar. -/
theorem eq_normalize_of_sanitize (h : sanitize text = .ok s) :
    s = normalize text ∧ s ≠ "" ∧ ∀ c ∈ s.toList, isGrammatical c = true := by
  unfold sanitize at h
  dsimp only at h
  split at h
  · cases h
  · next hne =>
    split at h
    · cases h
    · split at h
      · next hall =>
        cases h
        exact ⟨rfl, fun hempty => hne (String.isEmpty_iff.mpr hempty), List.all_eq_true.mp hall⟩
      · cases h

/-- The characters of the grammar are the digits, the letter, the point, the signs and parentheses. -/
theorem isGrammatical_iff {c : Char} :
    isGrammatical c = true ↔ c.isDigit = true ∨ c ∈ "x.+-*/^()".toList := by
  rw [isGrammatical, Bool.or_eq_true, List.contains_iff_mem]

theorem normalize_of_blank (hblank : Blank text) : normalize text = "" := by
  have hfilter : text.toList.filter (fun c => !Text.isBlank c) = [] := by
    rw [List.filter_eq_nil_iff]
    intro c hc
    simp [hblank c hc]
  unfold Expression.normalize Expression.normalChars
  rw [hfilter]
  rfl

/-- A text passes the filter and is read exactly if the compiler refuses it neither as blank nor as
malformed. What passes the filter is the normal form, which the compiler reads as well, so that both have
the same tree; it is not empty and has only characters of the grammar. -/
theorem sanitize_read_iff {o : Options} (hε : 0 < o.epsilon) (text : String) :
    let outcome := compileWith id o.limits none none text
    ((∃ s t, sanitize text = .ok s ∧ Tree.read none s = .ok t) ↔
      ¬ RefusedAs .blank outcome ∧ ¬ RefusedAs .malformed outcome) ∧
    ∀ s, sanitize text = .ok s →
      s = normalize text ∧ s ≠ "" ∧ ∀ c ∈ s.toList, c.isDigit = true ∨ c ∈ "x.+-*/^()".toList := by
  intro outcome
  have hfiltered : ∀ s, sanitize text = .ok s →
      s = normalize text ∧ s ≠ "" ∧ ∀ c ∈ s.toList, c.isDigit = true ∨ c ∈ "x.+-*/^()".toList := by
    intro s hs
    obtain ⟨heq, hne, hall⟩ := eq_normalize_of_sanitize hs
    exact ⟨heq, hne, fun c hc => isGrammatical_iff.mp (hall c hc)⟩
  refine ⟨?_, hfiltered⟩
  have hread : (∃ s t, sanitize text = .ok s ∧ Tree.read none s = .ok t) ↔
      ∃ t, Tree.read none (normalize text) = .ok t := by
    constructor
    · rintro ⟨s, t, hs, ht⟩
      exact ⟨t, (hfiltered s hs).1 ▸ ht⟩
    · rintro ⟨t, ht⟩
      exact ⟨_, t, sanitize_of_read ht, ht⟩
  rw [hread]
  have houtcome : Expression.Outcome { o with maxLength := none } none text outcome :=
    Expression.outcome_compileWith (o := { o with maxLength := none }) hε none text
  clear_value outcome
  cases houtcome with
  | blank hblank =>
    refine iff_of_false ?_ fun h => h.1 (refusedAs_error.mpr rfl)
    rintro ⟨t, ht⟩
    rw [normalize_of_blank hblank] at ht
    cases ht
  | tooLong _ hlimit | untoldLength _ hlimit => cases hlimit
  | malformed _ _ hrefused hkind =>
    refine iff_of_false ?_ fun h => h.2 (refusedAs_error.mpr hkind)
    rintro ⟨t, ht⟩
    cases hrefused.symm.trans ht
  | tooDeep _ _ _ hlevels _ => cases hlevels
  | meaningless _ _ ht _ _ hkind => simp [ht, refusedAs_error, hkind]
  | untoldExponent _ _ ht => simp [ht, refusedAs_fault]
  | vector _ _ ht _ _ => simp [ht, refusedAs_ok]

/-- A quotient by zero is read, and passes the filter, but has no vector. -/
theorem sanitize_read_zero_divisor :
    0 < ({} : Options).epsilon ∧ sanitize "2X² ÷ 0" = .ok "2*x^2/0" ∧
      (∃ s t, sanitize "2X² ÷ 0" = .ok s ∧ Tree.read none s = .ok t) ∧
      ¬ RefusedAs .malformed (compileWith id ({} : Options).limits none none "2X² ÷ 0") := by
  have hε : 0 < ({} : Options).epsilon := by decide
  have hsanitize : sanitize "2X² ÷ 0" = .ok "2*x^2/0" := by decide +kernel
  have hread : ∃ s t, sanitize "2X² ÷ 0" = .ok s ∧ Tree.read none s = .ok t :=
    ⟨_, .binary .divide (.binary .multiply (.literal 2) (.power .x (.literal 2))) (.literal 0), hsanitize, rfl⟩
  exact ⟨hε, hsanitize, hread, ((sanitize_read_iff hε "2X² ÷ 0").1.mp hread).2⟩

end PolyPlot.Report
