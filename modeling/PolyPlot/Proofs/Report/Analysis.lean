import PolyPlot.Proofs.Coeffs.Range
import PolyPlot.Proofs.Evaluation.Outcome
import PolyPlot.Proofs.Printer.Text
import PolyPlot.Report.Analysis

namespace PolyPlot

/-- A value without infinite or undefined numbers, for which JSON has no texts. -/
inductive Json.IsFinite : Json → Prop
  | null : IsFinite .null
  | bool (b : Bool) : IsFinite (.bool b)
  | int (n : ℤ) : IsFinite (.int n)
  | float {x : Float} (hx : x.isFinite = true) : IsFinite (.float x)
  | text (s : String) : IsFinite (.text s)
  | array {items : List Json} (hitems : ∀ v ∈ items, IsFinite v) : IsFinite (.array items)
  | object {members : List (String × Json)} (hmembers : ∀ m ∈ members, IsFinite m.2) :
      IsFinite (.object members)

namespace Report

open Expression (Error)
open Double Decimal

variable {places : ℕ} {constant : Float} {points : List Float} {p : Coeffs Float} {a : Analysis}
  {text : String}

/-- No number in a report is infinite or undefined; the value at a point may be missing. -/
structure Analysis.Finite (a : Analysis) : Prop where
  coefficients : ∀ c ∈ a.coefficients, c.isFinite = true
  derivative : ∀ c ∈ a.derivative, c.isFinite = true
  integral : ∀ c ∈ a.integral, c.isFinite = true
  roots : ∀ x ∈ a.roots, x.isFinite = true
  values : ∀ s ∈ a.values, s.x.isFinite = true ∧ ∀ y ∈ s.y, y.isFinite = true

/-- A report without infinite or undefined numbers is written as JSON. -/
theorem Analysis.Finite.isFinite_members (h : a.Finite) : (Json.object (a.members .float)).IsFinite := by
  have hvector {xs : List Float} (hxs : ∀ x ∈ xs, x.isFinite = true) :
      (Json.array (xs.map .float)).IsFinite := by
    refine .array fun v hv => ?_
    obtain ⟨x, hx, rfl⟩ := List.mem_map.mp hv
    exact .float (hxs x hx)
  have hsample : ∀ s ∈ a.values,
      (Json.object [("x", .float s.x), ("y", Json.orNull .float s.y)]).IsFinite := by
    intro s hs
    obtain ⟨hx, hy⟩ := h.values s hs
    have hvalue : (Json.orNull Json.float s.y).IsFinite := by
      cases hs : s.y with
      | none => exact .null
      | some y => exact .float (hy y hs)
    exact .object (List.forall_mem_cons.mpr ⟨.float hx, List.forall_mem_singleton.mpr hvalue⟩)
  have hvalues : (Json.array (a.values.map fun s =>
      .object [("x", .float s.x), ("y", Json.orNull .float s.y)])).IsFinite := by
    refine .array fun v hv => ?_
    obtain ⟨s, hs, rfl⟩ := List.mem_map.mp hv
    exact hsample s hs
  have hcoefficients := hvector h.coefficients
  have hderivative := hvector h.derivative
  have hintegral := hvector h.integral
  have hroots := hvector h.roots
  refine .object ?_
  simp only [Analysis.members, List.forall_mem_cons]
  exact ⟨hcoefficients, .int _, .text _, hderivative, .text _, hintegral, .text _, hroots, hvalues,
    fun m hm => absurd hm List.not_mem_nil⟩

/-- The value at a point is finite or missing. -/
theorem isFinite_sample (p : Coeffs Float) (x : Float) : ∀ y ∈ (sample p x).y, y.isFinite = true := by
  intro y hy
  unfold sample at hy
  dsimp only at hy
  split at hy
  · next hfinite =>
    cases hy
    exact hfinite
  · cases hy

/-- A vector of finite numbers has a report exactly if no coefficient overflows when it is multiplied by its
power. -/
theorem exists_ofVector_iff (hplaces : places ≤ 9) (hconstant : constant.isFinite = true)
    (hp : ∀ c ∈ p, c.isFinite = true) :
    (∃ a, Analysis.ofVector tolerance places constant points p = .ok a) ↔ p.SlopesInRange := by
  rw [← Coeffs.isFinite_derivative_iff (ε := tolerance)]
  constructor
  · rintro ⟨a, h⟩
    obtain ⟨formatted, -, h⟩ := bind_eq_ok_iff.mp h
    obtain ⟨derivativeFormatted, hderivative, -⟩ := bind_eq_ok_iff.mp h
    exact (Coeffs.exists_format_iff hplaces).mp ⟨_, hderivative⟩
  · intro hderivative
    obtain ⟨formatted, hformatted⟩ := (Coeffs.exists_format_iff hplaces).mpr hp
    obtain ⟨derivativeFormatted, hderivative⟩ := (Coeffs.exists_format_iff hplaces).mpr hderivative
    obtain ⟨integralFormatted, hintegral⟩ := (Coeffs.exists_format_iff hplaces).mpr
      (Coeffs.isFinite_integral (ε := tolerance) hconstant hp)
    obtain ⟨roots, hroots, -⟩ := Coeffs.exists_roots hp
    unfold Analysis.ofVector
    simp only [hformatted, hderivative, hintegral, hroots, bind, Except.bind]
    exact ⟨_, rfl⟩

/-- In the report of a vector of finite numbers nothing but a zero is infinite or undefined. -/
theorem finite_of_ofVector (hplaces : places ≤ 9) (hconstant : constant.isFinite = true)
    (hpoints : ∀ x ∈ points, x.isFinite = true) (hp : ∀ c ∈ p, c.isFinite = true)
    (h : Analysis.ofVector tolerance places constant points p = .ok a) :
    (Analysis.Finite { a with roots := [] }) ∧ (a.Finite ↔ p.RootsInRange tolerance) := by
  obtain ⟨formatted, -, h⟩ := bind_eq_ok_iff.mp h
  obtain ⟨derivativeFormatted, hderivative, h⟩ := bind_eq_ok_iff.mp h
  obtain ⟨integralFormatted, -, h⟩ := bind_eq_ok_iff.mp h
  obtain ⟨roots, hroots, h⟩ := bind_eq_ok_iff.mp h
  cases h
  have hvalues : ∀ s ∈ points.map (sample p), s.x.isFinite = true ∧ ∀ y ∈ s.y, y.isFinite = true := by
    intro s hs
    obtain ⟨x, hx, rfl⟩ := List.mem_map.mp hs
    exact ⟨hpoints x hx, isFinite_sample p x⟩
  have hslopes := (Coeffs.exists_format_iff hplaces).mp ⟨_, hderivative⟩
  have hintegral := Coeffs.isFinite_integral (ε := tolerance) hconstant hp
  obtain ⟨found, hfound, hrange⟩ := Coeffs.exists_roots hp
  rw [hroots] at hfound
  cases hfound
  refine ⟨⟨hp, hslopes, hintegral, fun x hx => absurd hx List.not_mem_nil, hvalues⟩, ?_⟩
  rw [← hrange]
  exact ⟨fun hfinite => hfinite.roots, fun hroots => ⟨hp, hslopes, hintegral, hroots, hvalues⟩⟩

/-- All that the analysis of an expression can come to under the usual options. -/
inductive Outcome (levels : ℕ) (text : String) : Except Fault (Answer Error Analysis) → Prop
  | refused {e : Error} (hrefused : Expression.compile (levels - 1) {} text = .error (.refused e)) :
      Outcome levels text (.ok (.fail "analyze_polynomial" e (e.metadata text)))
  | failed {p : Coeffs Float} {fault : Fault} (hp : Expression.compile (levels - 1) {} text = .ok p)
      (hslopes : ¬ p.SlopesInRange) : Outcome levels text (.error fault)
  | report {p : Coeffs Float} {a : Analysis} {metadata : List (String × Json)}
      (hp : Expression.compile (levels - 1) {} text = .ok p) (hslopes : p.SlopesInRange)
      (hrest : Analysis.Finite { a with roots := [] }) (hroots : a.Finite ↔ p.RootsInRange tolerance) :
      Outcome levels text (.ok (.ok methodName a metadata))

theorem outcome_analyze (hconstant : constant.isFinite = true)
    (hpoints : ∀ x ∈ points, x.isFinite = true) (levels : ℕ) (text : String) :
    Outcome levels text (analyze levels {} defaultPlaces constant points text) := by
  have hε : 0 < ({} : Expression.Options).epsilon := by decide
  unfold analyze withVector
  obtain ⟨p, hp⟩ | ⟨e, he⟩ | ⟨hnot, -⟩ := Expression.compile_eq_ok_or_refused hε (levels - 1) text
  · have hfinite : ∀ c ∈ p, c.isFinite = true := (Expression.reduced_of_compileWith hε hp).isFinite
    have hslopes : (∃ a, Analysis.ofVector _ defaultPlaces constant points p = .ok a) ↔ _ :=
      exists_ofVector_iff (by decide) hconstant hfinite
    rw [hp]
    dsimp only
    cases hvector : Analysis.ofVector ({} : Expression.Options).epsilon defaultPlaces constant points p with
    | error fault =>
      refine .failed hp fun hrange => ?_
      obtain ⟨a, ha⟩ := hslopes.mpr hrange
      cases hvector.symm.trans ha
    | ok a =>
      obtain ⟨hrest, hroots⟩ :=
        finite_of_ofVector (by decide) hconstant hpoints hfinite hvector
      exact .report hp (hslopes.mp ⟨a, hvector⟩) hrest hroots
  · rw [he]
    exact .refused he
  · exact absurd Expression.tellable_default hnot

/-- There is an answer, and if that is a report, no number in it is infinite or undefined, so that it is
written as JSON. -/
def Sound (outcome : Except Fault (Answer Error Analysis)) : Prop :=
  ∃ answer, outcome = .ok answer ∧
    ∀ a, answer.outcome = .ok a → a.Finite ∧ (Json.object (a.members .float)).IsFinite

/-- The analysis of an expression fails exactly if some coefficient overflows when it is multiplied by its
power. The report that it gives otherwise is finite but for the zeros, and those are finite exactly if that
of a linear polynomial is in range, and the discriminant of a quadratic one unless it is negative. -/
theorem sound_analyze_iff (hconstant : constant.isFinite = true)
    (hpoints : ∀ x ∈ points, x.isFinite = true) (levels : ℕ) (text : String) :
    let outcome := analyze levels {} defaultPlaces constant points text
    (Sound outcome ↔ ∀ p, Expression.compile (levels - 1) {} text = .ok p →
        p.SlopesInRange ∧ p.RootsInRange ({} : Expression.Options).epsilon) ∧
      ((∃ fault, outcome = .error fault) ↔
        ∃ p, Expression.compile (levels - 1) {} text = .ok p ∧ ¬ p.SlopesInRange) ∧
      ∀ answer a, outcome = .ok answer → answer.outcome = .ok a →
        Analysis.Finite { a with roots := [] } := by
  intro outcome
  have houtcome : Outcome levels text outcome := outcome_analyze hconstant hpoints levels text
  clear_value outcome
  cases houtcome with
  | refused hrefused =>
    refine ⟨by simp [Sound, hrefused, Answer.fail], by simp [hrefused], ?_⟩
    rintro answer b hanswer hb
    cases hanswer
    cases hb
  | failed hp hslopes => simp [Sound, hp, hslopes]
  | @report p a metadata hp hslopes hrest hroots =>
    have hwritten : a.Finite ∧ (Json.object (a.members .float)).IsFinite ↔
        p.RootsInRange ({} : Expression.Options).epsilon :=
      (and_iff_left_of_imp fun h => h.isFinite_members).trans hroots
    refine ⟨?_, ?_, ?_⟩
    · simpa [Sound, hp, hslopes, Answer.ok] using hwritten
    · simp [hp, hslopes]
    · rintro answer b hanswer hb
      cases hanswer
      cases hb
      exact hrest

/-- A discriminant that overflows, and a derivative. -/
theorem not_sound_of_overflow :
    (0 : Float).isFinite = true ∧ (∀ x ∈ ([] : List Float), x.isFinite = true) ∧
      ¬ Sound (analyze 100 {} defaultPlaces 0 [] "(2^50)^12*x^2-(2^50)^12") ∧
      ∃ fault, analyze 100 {} defaultPlaces 0 [] "(2^50)^20*2^23*x^2" = .error fault := by
  have hpoints : ∀ x ∈ ([] : List Float), x.isFinite = true := fun x hx => absurd hx List.not_mem_nil
  let a : Float := ofRat (2 ^ 600)
  let b : Float := ofRat (2 ^ 1023)
  have hquadratic : Expression.compile 99 {} "(2^50)^12*x^2-(2^50)^12" = .ok [-a, 0, a] := by
    decide +kernel
  have hsteep : Expression.compile 99 {} "(2^50)^20*2^23*x^2" = .ok [0, 0, b] := by
    decide +kernel
  obtain ⟨hsound, -⟩ := sound_analyze_iff isFinite_zero hpoints 100 "(2^50)^12*x^2-(2^50)^12"
  obtain ⟨-, hfails, -⟩ := sound_analyze_iff isFinite_zero hpoints 100 "(2^50)^20*2^23*x^2"
  refine ⟨isFinite_zero, hpoints, fun h => ?_, hfails.mpr ⟨_, hsteep, fun h => ?_⟩⟩
  · have hdegree : Coeffs.degree ({} : Expression.Options).epsilon [-a, 0, a] = 2 := by decide +kernel
    have hroots := (hsound.mp h _ hquadratic).2
    unfold Coeffs.RootsInRange at hroots
    rw [hdegree] at hroots
    have hinfinite : ¬ (Coeffs.discriminant a 0 (-a) < 0 ∨
        (Coeffs.discriminant a 0 (-a)).isFinite = true) := by decide +kernel
    exact hinfinite hroots
  · have hslope := h 1 (by simp)
    simp only [List.getElem_cons_succ, List.getElem_cons_zero] at hslope
    have hinfinite : ¬ (b * Scalar.ofInt ((1 + 1 : ℕ) : ℤ)).isFinite = true := by decide +kernel
    exact hinfinite hslope

end Report

end PolyPlot
