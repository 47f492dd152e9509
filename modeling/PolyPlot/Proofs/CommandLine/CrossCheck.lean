import PolyPlot.CommandLine.Report
import PolyPlot.Proofs.Evaluation.Cap
import PolyPlot.Proofs.Printer.Text
import PolyPlot.Proofs.Report.CrossCheck

namespace PolyPlot

namespace Report

open Expression (Options compile normalize)

variable {V : Type} {S : Exact.System V} {levels : ℕ} {o : Options} {ε : Float} {text : String}
  {p : Coeffs Float} {e : Expression.Error}

/-- An analysis that succeeds reports the vector of the expression. -/
theorem compile_of_analyze {places : ℤ} {constant : Float} {points : List Float}
    {answer : Answer Expression.Error Analysis} {a : Analysis}
    (h : analyze levels o places constant points text = .ok answer) (ha : answer.outcome = .ok a) :
    compile (levels - 1) o text = .ok a.coefficients := by
  unfold analyze withVector at h
  split at h
  · cases h
  · cases h
    cases ha
  · next p hp =>
    obtain ⟨b, hb, h⟩ := bind_eq_ok_iff.mp h
    cases h
    cases ha
    unfold Analysis.ofVector at hb
    obtain ⟨formatted, -, hb⟩ := bind_eq_ok_iff.mp hb
    obtain ⟨derivativeFormatted, -, hb⟩ := bind_eq_ok_iff.mp hb
    obtain ⟨integralFormatted, -, hb⟩ := bind_eq_ok_iff.mp hb
    obtain ⟨roots, -, hb⟩ := bind_eq_ok_iff.mp hb
    cases hb
    exact hp

/-- An expression that has a vector has an answer with it, since its text can be written. -/
theorem exists_compilePolynomial (levels : ℕ) (h : compile (levels - 1) o text = .ok p) :
    ∃ metadata, compilePolynomial levels o text = .ok (.ok methodName p metadata) := by
  obtain ⟨formatted, hformatted⟩ := Coeffs.exists_format_of_isFinite o.epsilon (by decide : 4 ≤ 9)
    (Expression.isFinite_of_compile h)
  unfold compilePolynomial withVector
  rw [h]
  dsimp only
  rw [show (defaultPlaces : ℤ) = ((4 : ℕ) : ℤ) from rfl, hformatted]
  exact ⟨_, rfl⟩

theorem compilePolynomial_of_refused (levels : ℕ)
    (h : compile (levels - 1) o text = .error (.refused e)) :
    compilePolynomial levels o text = .ok (.fail "compile_polynomial" e (e.metadata text)) := by
  unfold compilePolynomial withVector
  rw [h]

/-- The expansion of a text that is read is not refused by the reader. -/
theorem verdict_ne_refused {t : Tree Float}
    (hread : Tree.read (some (levels - 1)) (normalize text) = .ok t) (p : Coeffs Float)
    (e : Expression.Error) : verdict S .doubles levels ε p text ≠ .error (.refused e) := by
  intro h
  have hexpansion : expansion S .doubles (levels - 1) text = .error (.refused e) := by
    rcases bind_eq_error_iff.mp h with h | ⟨q, -, h⟩
    · exact h
    · cases h
  simp only [expansion, sanitize_of_read hread, Except.mapError, bind, Except.bind, hread] at hexpansion
  split at hexpansion
  · cases hexpansion
  · split at hexpansion
    · cases hexpansion
    · cases hexpansion

/-- The cross-check compiles the expression to a vector, and does not end with an error of the
compiler. -/
def Follows (S : Exact.System V) (levels : ℕ) (ε : Float) (text : String) (p : Coeffs Float) : Prop :=
  (∃ engine, compilePolynomial (levels - 1) { epsilon := ε } text = .ok engine ∧ engine.outcome = .ok p) ∧
    ∃ check, crossCheck S levels ε text = .ok check ∧ ∀ e, check.outcome ≠ .error (.refused e)

theorem follows_of_compile (h : compile (levels - 2) { epsilon := ε } text = .ok p) :
    Follows S levels ε text p := by
  obtain ⟨metadata, hengine⟩ := exists_compilePolynomial (levels - 1) h
  obtain ⟨raw, hraw, -⟩ := map_eq_ok_iff.mp h
  obtain ⟨-, t, hread, -⟩ := Expression.rawVector_eq_ok_iff.mp hraw
  have hread' : Tree.read (some (levels - 1)) (normalize text) = .ok t := by
    refine Reading.tree_of_le (fun n hn => ⟨_, rfl, ?_⟩) hread
    cases hn
    omega
  refine ⟨⟨_, hengine, rfl⟩, ?_⟩
  unfold crossCheck
  simp only [hengine, bind, Except.bind, Answer.ok]
  cases hverdict : verdict S .doubles levels ε p text with
  | error reason =>
    refine ⟨_, rfl, fun e he => ?_⟩
    cases he
    exact verdict_ne_refused hread' p e hverdict
  | ok found =>
    refine ⟨_, rfl, fun e he => ?_⟩
    cases he

theorem crossCheck_of_refused (h : compile (levels - 2) { epsilon := ε } text = .error (.refused e)) :
    ∃ check, crossCheck S levels ε text = .ok check ∧ check.outcome = .error (.refused e) := by
  have hengine := compilePolynomial_of_refused (levels - 1) h
  unfold crossCheck
  simp only [hengine, bind, Except.bind, Answer.fail]
  exact ⟨_, rfl, rfl⟩

/-- A limit of two digits can be told. -/
theorem crossCheck_of_exponent {n : ℤ} (hn : Decimal.Writable n)
    (h : compile (levels - 2) { epsilon := ε } text = (Expression.Error.exponentOutOfRange n 50).refuse) :
    ∃ check, crossCheck S levels ε text = .ok check ∧
      check.outcome = .error (.refused (.exponentOutOfRange n 50)) := by
  have hcap : Decimal.Writable 50 := Decimal.writable_of_natAbs_le (e := 6) (by decide) (by decide)
  rw [Expression.Error.refuse_of_tellable (Expression.Error.tellable_exponentOutOfRange.mpr ⟨hn, hcap⟩)] at h
  exact crossCheck_of_refused h

/-- Where the expression has no second vector, the cross-check ends with the message on nesting, or with one
on an exponent, which it is where there are levels enough. -/
theorem crossCheck_of_capped (S : Exact.System V) (levels : ℕ) {fits within : Prop}
    (h : Tree.Capped 50 fits within p (compile (levels - 2) { epsilon := ε } text))
    (hnot : ¬ (fits ∧ within)) :
    ∃ e : Expression.Error, (fits → ∃ n, 50 < n ∧ e = .exponentOutOfRange n 50) ∧
      (e = .nestedTooDeeply ∨ ∃ n, 50 < n ∧ e = .exponentOutOfRange n 50) ∧
      ∃ check, crossCheck S levels ε text = .ok check ∧ check.outcome = .error (.refused e) := by
  by_cases hfits : fits
  · obtain ⟨n, hn, hwritable, herror⟩ := h.beyond hfits fun hwithin => hnot ⟨hfits, hwithin⟩
    exact ⟨_, fun _ => ⟨n, hn, rfl⟩, .inr ⟨n, hn, rfl⟩, crossCheck_of_exponent hwritable herror⟩
  · rcases h.deep hfits with herror | ⟨n, hn, hwritable, herror⟩
    · exact ⟨_, fun h => absurd h hfits, .inl rfl, crossCheck_of_refused herror⟩
    · exact ⟨_, fun h => absurd h hfits, .inr ⟨n, hn, rfl⟩, crossCheck_of_exponent hwritable herror⟩

end Report

namespace CommandLine

open Expression (normalize)
open Report (Analysis Follows)

variable {V : Type} {S : Exact.System V} {levels : ℕ} {s : Settings} {a : Arguments}
  {answer : Answer Expression.Error Analysis} {result : Analysis}

/-- The report on an expression that has been analysed and is not drawn. -/
theorem report_of_analyze {check : Json}
    (h : Report.analyze (levels - 1) s.compilerOptions s.precision.formatDecimals a.integralConstant a.points
      a.expression = .ok answer)
    (hresult : answer.outcome = .ok result) (hcheck : a.crossCheck = true) (hplot : a.plot? = none)
    (hmember : crossCheckMember S (levels - 1) s.compilerOptions.epsilon a.expression = .ok check) :
    report S levels s a = .ok { output := printed ([("expression", .text a.expression),
      ("valid", .bool true)] ++ result.members .float ++ [("cross_check", check)]) } := by
  unfold report
  simp only [h, hresult, hcheck, hplot, hmember, bind, Except.bind, Except.map,
    if_true, pure, Except.pure, List.append_nil]

/-- For every expression that a report finds valid, the cross-check follows the analysis exactly if the text
and its tree also fit into a level less, and no power in the expression is above the usual limit, as under
settings with no greater one. Otherwise the compiler of the cross-check refuses the expression, and the
report holds its message: the one on nesting, or one on an exponent, which it is where there are levels
enough. -/
theorem crossCheck_follows_iff
    (h : Report.analyze (levels - 1) s.compilerOptions s.precision.formatDecimals a.integralConstant a.points
      a.expression = .ok answer)
    (hresult : answer.outcome = .ok result) :
    ∃ t, Tree.read (some (levels - 2)) (normalize a.expression) = .ok t ∧
      let fits := Tree.read (some (levels - 3)) (normalize a.expression) = .ok t ∧ t.height ≤ levels - 3
      let within := t.PowersWithin s.compilerOptions.limits 50
      (s.limits.maxExponent ≤ 50 → within) ∧
      (Follows S (levels - 1) s.compilerOptions.epsilon a.expression result.coefficients ↔ fits ∧ within) ∧
      (¬ (fits ∧ within) → a.crossCheck = true → a.plot? = none →
        ∃ e : Expression.Error, (fits → ∃ n, 50 < n ∧ e = .exponentOutOfRange n 50) ∧
          (e = .nestedTooDeeply ∨ ∃ n, 50 < n ∧ e = .exponentOutOfRange n 50) ∧
          report S levels s a = .ok { output := printed (
            [("expression", .text a.expression), ("valid", .bool true)] ++ result.members .float ++
              [("cross_check", .text e.message)]) }) := by
  have hcompile := Report.compile_of_analyze h hresult
  obtain ⟨t, hread, hunder, hcapped⟩ := Expression.compile_capped hcompile 50 (levels - 3)
  refine ⟨t, hread, ?_⟩
  intro fits within
  refine ⟨hunder, ⟨fun hfollows => ?_, fun ⟨hfits, hwithin⟩ => ?_⟩, fun hnot hcheck hplot => ?_⟩
  · by_contra hnot
    obtain ⟨e, -, -, check, hcheck, herror⟩ := Report.crossCheck_of_capped S (levels - 1) hcapped hnot
    obtain ⟨-, check', hcheck', hne⟩ := hfollows
    cases hcheck.symm.trans hcheck'
    exact hne _ herror
  · exact Report.follows_of_compile (hcapped.kept hfits hwithin)
  · obtain ⟨e, hexponent, hcause, check, hok, herror⟩ := Report.crossCheck_of_capped S (levels - 1) hcapped hnot
    refine ⟨e, hexponent, hcause, report_of_analyze h hresult hcheck hplot ?_⟩
    simp only [crossCheckMember, hok, bind, Except.bind, herror]
    rfl

/-- A greater limit in the settings lets a power through that the cross-check refuses. -/
theorem not_follows_of_raised_limit :
    let S := Exact.system none
    ∃ s answer result,
      Settings.load 100 (fun _ => some "limits:\n  max_exponent: 60\n") "config.yml" = .ok s ∧
      s.compilerOptions.epsilon.isFinite = true ∧
      Report.analyze 99 s.compilerOptions s.precision.formatDecimals 0 [] "1^51" = .ok answer ∧
      answer.outcome = .ok result ∧
      ¬ Follows S 99 s.compilerOptions.epsilon "1^51" result.coefficients ∧
      ∃ n, 50 < n ∧ report S 100 s { expression := "1^51", crossCheck := true } = .ok { output := printed (
        [("expression", .text "1^51"), ("valid", .bool true)] ++ result.members .float ++
          [("cross_check", .text (Expression.Error.exponentOutOfRange n 50).message)]) } := by
  intro S
  have hrun : (match Settings.ofText 100 "limits:\n  max_exponent: 60\n" with
      | .ok s =>
        match Report.analyze 99 s.compilerOptions s.precision.formatDecimals 0 [] "1^51" with
        | .ok answer => s.compilerOptions.epsilon.isFinite && answer.outcome.isOk
        | .error _ => false
      | .error _ => false) = true := by decide +kernel
  split at hrun
  · next s hs =>
    split at hrun
    · next answer hanswer =>
      obtain ⟨hfinite, hok⟩ := Bool.and_eq_true_iff.mp hrun
      obtain ⟨result, hresult⟩ : ∃ result, answer.outcome = .ok result := by
        cases houtcome : answer.outcome with
        | ok result => exact ⟨result, rfl⟩
        | error e =>
          rw [houtcome] at hok
          cases hok
      obtain ⟨t, hread, -, hfollows, hreport⟩ := @crossCheck_follows_iff _ S 100 s
        { expression := "1^51", crossCheck := true } answer result hanswer hresult
      have hbeyond : ¬ t.PowersWithin s.compilerOptions.limits 50 := by
        intro hwithin
        cases hread
        have hle := hwithin (.literal 1) (.literal 51) [51] 51 .refl (.literal 51) (by decide +kernel)
        omega
      obtain ⟨e, hexponent, -, hout⟩ := hreport (fun h => hbeyond h.2) rfl rfl
      obtain ⟨n, hn, rfl⟩ := hexponent (by cases hread; exact ⟨rfl, by decide⟩)
      exact ⟨s, answer, result, hs, hfinite, hanswer, hresult, fun h => hbeyond (hfollows.mp h).2, n, hn, hout⟩
    · cases hrun
  · cases hrun

end CommandLine

end PolyPlot
