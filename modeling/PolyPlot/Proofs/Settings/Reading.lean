import PolyPlot.Proofs.Double.Order
import PolyPlot.Proofs.Settings.Conversion
import PolyPlot.Proofs.Yaml.Writing

namespace PolyPlot.Settings

open Yaml (Value)

/-- A number in the settings: its section, its name and how it is converted. -/
structure Number where
  part : String
  name : String
  conversion : Conversion

/-- The numbers in the order in which they are converted. -/
def numbers : List Number :=
  [⟨"precision", "epsilon", .double⟩, ⟨"precision", "format_decimals", .whole⟩,
    ⟨"limits", "max_exponent", .whole⟩, ⟨"limits", "max_expression_length", .wholeOrNull⟩,
    ⟨"plot", "width", .whole⟩, ⟨"plot", "height", .whole⟩, ⟨"plot", "base_scale", .double⟩,
    ⟨"plot", "zoom", .double⟩, ⟨"plot", "margin", .double⟩, ⟨"plot", "dpi", .whole⟩]

/-- The sections that hold numbers. -/
def sections : List String :=
  ["precision", "limits", "plot"]

variable {β γ : Type} {root members : List (Value × Value)} {document v : Value} {n : Number} {f : Fault}
  {levels : ℕ} {e : Failure} {s : Settings} {p : Precision} {l : Limits}

namespace Number

/-- The value that a document holds for a number. -/
def value? (root : List (Value × Value)) (n : Number) : Option Value :=
  match sectionOf n.part root with
  | .ok members => Value.get? n.name members
  | .error _ => none

/-- How the conversion of a number in a document ends. One that is not set needs none. -/
def attempt (root : List (Value × Value)) (n : Number) : Except Failure Unit :=
  match n.value? root with
  | some v => n.conversion.attempt v
  | none => .ok ()

theorem attempt_eq_fault_iff : n.attempt root = .error (.fault f) ↔
    f = .overflow ∧ ∃ v, n.value? root = some v ∧ n.conversion.Overflows v := by
  unfold attempt
  cases n.value? root with
  | none => simp
  | some v => simp [Conversion.attempt_eq_fault_iff]

theorem refused_or_overflow (h : n.attempt root = .error e) :
    e = .refused .invalidValue ∨ e = .fault .overflow := by
  unfold attempt at h
  split at h
  · exact Conversion.refused_or_overflow h
  · cases h

/-- The conversion of a member comes to that of the number for which it stands. -/
theorem discard_field_bind {part name : String} {conversion : Conversion}
    {convert : Value → Except Failure β} {usual : β} {next : β → Except Failure γ}
    {rest : Except Failure Unit} (hpart : sectionOf part root = .ok members)
    (hconvert : ∀ v, conversion.attempt v = discard (convert v))
    (hrest : ∀ b, discard (next b) = rest) :
    discard (field convert usual name members >>= next) =
      attempt root ⟨part, name, conversion⟩ >>= fun _ => rest := by
  rw [discard_bind fun b _ => hrest b, attempt, value?, hpart, field]
  dsimp only
  cases Value.get? name members with
  | none => rfl
  | some v =>
    dsimp only
    rw [hconvert]

end Number

/-- The numbers are converted in their order once all sections are there. -/
theorem discard_numbersOf (root : List (Value × Value)) :
    discard (numbersOf root) =
      forM sections (fun part => discard (sectionOf part root)) >>= fun _ =>
        forM numbers (Number.attempt root) := by
  simp only [sections, List.forM_cons, List.forM_nil, bind_assoc, pure_bind]
  unfold numbersOf
  refine discard_bind fun precisionPart hprecision => ?_
  refine discard_bind fun limitsPart hlimits => ?_
  refine discard_bind fun plotPart hplot => ?_
  simp only [Precision.ofMembers, Limits.ofMembers, Plot.ofMembers, bind_assoc, pure_bind, numbers,
    List.forM_cons, List.forM_nil]
  repeat refine Number.discard_field_bind (by assumption) (fun _ => rfl) fun _ => ?_
  rfl

theorem refused_of_membersOr {error : Error} (h : membersOr error v = .error e) : e = .refused error := by
  unfold membersOr at h
  split at h
  · cases h
  · split at h
    · cases h
      rfl
    · cases h

theorem refused_of_sectionOf {name : String} (h : sectionOf name root = .error e) :
    e = .refused (.sectionNotMapping name) := by
  unfold sectionOf at h
  split at h
  · exact refused_of_membersOr h
  · cases h

/-- Every section of numbers is a mapping or holds nothing. -/
def HasSections (root : List (Value × Value)) : Prop :=
  ∀ part ∈ sections, ∃ members, sectionOf part root = .ok members

/-- The first number that is not converted is beyond what it is converted to. -/
def FirstOverflows (root : List (Value × Value)) : Prop :=
  ∃ before n after, numbers = before ++ n :: after ∧ (∀ m ∈ before, m.attempt root = .ok ()) ∧
    ∃ v, n.value? root = some v ∧ n.conversion.Overflows v

/-- Reading the numbers is refused, unless the first one that is not converted overflows. -/
theorem refused_or_overflow_of_numbersOf (h : numbersOf root = .error e) :
    (∃ r, e = .refused r) ∨ e = .fault .overflow ∧ HasSections root ∧ FirstOverflows root := by
  rw [← discard_eq_error_iff, discard_numbersOf, bind_eq_error_iff] at h
  rcases h with h | ⟨⟨⟩, hsections, h⟩
  · obtain ⟨-, part, -, -, -, h⟩ := forM_eq_error_iff.mp h
    exact .inl ⟨_, refused_of_sectionOf (discard_eq_error_iff.mp h)⟩
  · have hsections : HasSections root := fun part hpart =>
      discard_eq_ok_iff.mp (forM_eq_ok_iff.mp hsections part hpart)
    obtain ⟨before, n, after, heq, hbefore, h⟩ := forM_eq_error_iff.mp h
    rcases n.refused_or_overflow h with rfl | rfl
    · exact .inl ⟨_, rfl⟩
    · exact .inr ⟨rfl, hsections, before, n, after, heq, hbefore, (Number.attempt_eq_fault_iff.mp h).2⟩

theorem numbersOf_of_firstOverflows (hsections : HasSections root) (hfirst : FirstOverflows root) :
    numbersOf root = .error (.fault .overflow) := by
  obtain ⟨before, n, after, heq, hbefore, hvalue⟩ := hfirst
  rw [← discard_eq_error_iff, discard_numbersOf, bind_eq_error_iff]
  refine .inr ⟨(), forM_eq_ok_iff.mpr fun part hpart => discard_eq_ok_iff.mpr (hsections part hpart), ?_⟩
  exact forM_eq_error_iff.mpr ⟨before, n, after, heq, hbefore, Number.attempt_eq_fault_iff.mpr ⟨rfl, hvalue⟩⟩

/-- The check lets through what is in range, and an undefined tolerance. -/
theorem check_eq_ok_iff : check p l = .ok () ↔
    (0 < p.epsilon ∨ Binary.ofFloat p.epsilon = .undefined) ∧ 0 ≤ l.maxExponent ∧
      ∀ n ∈ l.maxExpressionLength, 0 < n := by
  have hlength : l.maxExpressionLength.any (· ≤ 0) = true ↔ ¬ ∀ n ∈ l.maxExpressionLength, 0 < n := by
    cases l.maxExpressionLength <;> simp
  rw [← Double.not_le_iff Double.isFinite_zero, ← not_lt]
  unfold check
  split
  · next hle => simp [hle]
  · next hle =>
    split
    · next hneg => simp [hneg]
    · next hnonneg =>
      split
      · next hshort => exact iff_of_false nofun fun h => hlength.mp hshort h.2.2
      · next hlong => exact iff_of_true rfl ⟨hle, hnonneg, not_not.mp (mt hlength.mpr hlong)⟩

theorem refused_of_check (h : check p l = .error e) : ∃ r, e = .refused r := by
  unfold check at h
  split at h
  · cases h
    exact ⟨_, rfl⟩
  · split at h
    · cases h
      exact ⟨_, rfl⟩
    · split at h
      · cases h
        exact ⟨_, rfl⟩
      · cases h

theorem versionOf_eq_error_iff : versionOf levels root = .error e ↔
    ∃ v f, Value.get? "version" root = some v ∧ v.write levels = .error f ∧ e = .fault f := by
  unfold versionOf
  cases Value.get? "version" root with
  | none => simp
  | some v =>
    rw [mapError_eq_error_iff]
    constructor
    · rintro ⟨f, hf, rfl⟩
      exact ⟨v, f, rfl, hf, rfl⟩
    · rintro ⟨w, f, hw, hf, rfl⟩
      cases hw
      exact ⟨f, hf, rfl⟩

/-- A document whose first number that is not converted is beyond what it is converted to. -/
def Overflows (document : Value) : Prop :=
  ∃ root, membersOr .rootNotMapping document = .ok root ∧ HasSections root ∧ FirstOverflows root

/-- The version that a document with numbers in range tells. -/
def HoldsVersion (document v : Value) : Prop :=
  ∃ root p l plot, membersOr .rootNotMapping document = .ok root ∧ numbersOf root = .ok (p, l, plot) ∧
    check p l = .ok () ∧ Value.get? "version" root = some v

/-- With so many levels left a value cannot be written, for its nesting or for a whole number in it. -/
def CannotBeWritten (levels : ℕ) (v : Value) (f : Fault) : Prop :=
  f = .tooDeep ∧ levels < v.depth ∨ f = .tooManyDigits ∧ ∃ n ∈ v.integers, ¬ Decimal.Writable n

/-- A document that tells an undefined tolerance. -/
def HoldsUndefinedTolerance (document : Value) : Prop :=
  ∃ root members v x, membersOr .rootNotMapping document = .ok root ∧
    sectionOf "precision" root = .ok members ∧ Value.get? "epsilon" members = some v ∧
    toDouble v = .ok x ∧ Binary.ofFloat x = .undefined

/-- Reading settings from a document is refused, but for numbers that overflow and the version. -/
theorem refused_or_fault_of_ofValue (h : ofValue levels document = .error e) : (∃ r, e = .refused r) ∨
    e = .fault .overflow ∧ Overflows document ∨
    ∃ v f, e = .fault f ∧ HoldsVersion document v ∧ v.write levels = .error f := by
  rcases bind_eq_error_iff.mp h with h | ⟨root, hroot, h⟩
  · exact .inl ⟨_, refused_of_membersOr h⟩
  rcases bind_eq_error_iff.mp h with h | ⟨⟨p, l, plot⟩, hnumbers, h⟩
  · rcases refused_or_overflow_of_numbersOf h with h | ⟨he, hsections, hfirst⟩
    · exact .inl h
    · exact .inr (.inl ⟨he, root, hroot, hsections, hfirst⟩)
  rcases bind_eq_error_iff.mp h with h | ⟨⟨⟩, hcheck, h⟩
  · exact .inl (refused_of_check h)
  rcases bind_eq_error_iff.mp h with h | ⟨version, -, h⟩
  · obtain ⟨v, f, hv, hwrite, rfl⟩ := versionOf_eq_error_iff.mp h
    exact .inr (.inr ⟨v, f, rfl, ⟨root, p, l, plot, hroot, hnumbers, hcheck, hv⟩, hwrite⟩)
  rcases bind_eq_error_iff.mp h with h | ⟨logging, -, h⟩
  · exact .inl ⟨_, refused_of_sectionOf h⟩
  · cases h

theorem ofValue_of_overflows (h : Overflows document) :
    ofValue levels document = .error (.fault .overflow) := by
  obtain ⟨root, hroot, hsections, hfirst⟩ := h
  simp only [ofValue, hroot, numbersOf_of_firstOverflows hsections hfirst, bind, Except.bind]

theorem ofValue_of_holdsVersion (h : HoldsVersion document v) (hwrite : v.write levels = .error f) :
    ofValue levels document = .error (.fault f) := by
  obtain ⟨root, p, l, plot, hroot, hnumbers, hcheck, hv⟩ := h
  have hversion : versionOf levels root = .error (.fault f) :=
    versionOf_eq_error_iff.mpr ⟨v, f, hv, hwrite, rfl⟩
  simp only [ofValue, hroot, hnumbers, hcheck, hversion, bind, Except.bind]

/-- Settings have been checked, and their tolerance is the one that the document tells. -/
theorem of_ofValue (h : ofValue levels document = .ok s) : check s.precision s.limits = .ok () ∧
    ∃ root members, membersOr .rootNotMapping document = .ok root ∧
      sectionOf "precision" root = .ok members ∧
      field toDouble 1e-10 "epsilon" members = .ok s.precision.epsilon := by
  obtain ⟨root, hroot, h⟩ := bind_eq_ok_iff.mp h
  obtain ⟨⟨p, l, plot⟩, hnumbers, h⟩ := bind_eq_ok_iff.mp h
  obtain ⟨⟨⟩, hcheck, h⟩ := bind_eq_ok_iff.mp h
  obtain ⟨version, -, h⟩ := bind_eq_ok_iff.mp h
  obtain ⟨logging, -, h⟩ := bind_eq_ok_iff.mp h
  cases h
  obtain ⟨members, hmembers, hnumbers⟩ := bind_eq_ok_iff.mp hnumbers
  obtain ⟨limitsPart, -, hnumbers⟩ := bind_eq_ok_iff.mp hnumbers
  obtain ⟨plotPart, -, hnumbers⟩ := bind_eq_ok_iff.mp hnumbers
  obtain ⟨p', hprecision, hnumbers⟩ := bind_eq_ok_iff.mp hnumbers
  obtain ⟨l', -, hnumbers⟩ := bind_eq_ok_iff.mp hnumbers
  obtain ⟨plot', -, hnumbers⟩ := bind_eq_ok_iff.mp hnumbers
  cases hnumbers
  obtain ⟨ε, hε, hprecision⟩ := bind_eq_ok_iff.mp hprecision
  obtain ⟨decimals, -, hprecision⟩ := bind_eq_ok_iff.mp hprecision
  cases hprecision
  exact ⟨hcheck, root, members, hroot, hmembers, hε⟩

/-- The tolerance of settings is undefined exactly if the document tells an undefined one. -/
theorem undefined_iff (h : ofValue levels document = .ok s) :
    Binary.ofFloat s.precision.epsilon = .undefined ↔ HoldsUndefinedTolerance document := by
  obtain ⟨-, root, members, hroot, hmembers, hε⟩ := of_ofValue h
  constructor
  · intro hundefined
    unfold field at hε
    split at hε
    · next v hv => exact ⟨root, members, v, _, hroot, hmembers, hv, hε, hundefined⟩
    · rw [← Except.ok.inj hε] at hundefined
      exact absurd hundefined (by decide)
  · rintro ⟨root', members', v, x, hroot', hmembers', hv, hx, hundefined⟩
    cases hroot.symm.trans hroot'
    cases hmembers.symm.trans hmembers'
    simp only [field, hv, hx] at hε
    cases hε
    exact hundefined

/-- Settings in range, or a refusal. -/
def Sound (outcome : Except Failure Settings) : Prop :=
  (∃ s, outcome = .ok s ∧ 0 < s.precision.epsilon ∧ 0 ≤ s.limits.maxExponent ∧
      ∀ n ∈ s.limits.maxExpressionLength, 0 < n) ∨
    ∃ e, outcome = .error (.refused e)

theorem Sound.ne_fault {outcome : Except Failure Settings} (h : Sound outcome) (f : Fault) :
    outcome ≠ .error (.fault f) := by
  rintro rfl
  rcases h with ⟨s, hs, -⟩ | ⟨e, he⟩
  · cases hs
  · cases he

/-- The limits of settings are in range whatever the tolerance is, and it is positive or undefined. -/
theorem inRange_of_ofValue (h : ofValue levels document = .ok s) :
    0 ≤ s.limits.maxExponent ∧ (∀ n ∈ s.limits.maxExpressionLength, 0 < n) ∧
      (0 < s.precision.epsilon ∨ Binary.ofFloat s.precision.epsilon = .undefined) := by
  obtain ⟨hε, hexponent, hlength⟩ := check_eq_ok_iff.mp (of_ofValue h).1
  exact ⟨hexponent, hlength, hε⟩

theorem fault_of_ofValue (h : ofValue levels document = .error (.fault f)) :
    f = .overflow ∧ Overflows document ∨ ∃ v, HoldsVersion document v ∧ CannotBeWritten levels v f := by
  rcases refused_or_fault_of_ofValue h with ⟨r, hr⟩ | ⟨he, hoverflows⟩ | ⟨v, g, hg, hv, hwrite⟩
  · cases hr
  · cases he
    exact .inl ⟨rfl, hoverflows⟩
  · cases hg
    exact .inr ⟨v, hv, Value.cause_of_write hwrite⟩

theorem ofValue_eq_overflow_iff : ofValue levels document = .error (.fault .overflow) ↔ Overflows document := by
  refine ⟨fun h => ?_, ofValue_of_overflows⟩
  rcases fault_of_ofValue h with ⟨-, hoverflows⟩ | ⟨v, -, ⟨hf, -⟩ | ⟨hf, -⟩⟩
  · exact hoverflows
  · cases hf
  · cases hf

/-- A document has an answer unless a number overflows or the version cannot be written. -/
theorem ofValue_ne_fault_iff : (∀ f, ofValue levels document ≠ .error (.fault f)) ↔ ¬ Overflows document ∧
    ∀ v, HoldsVersion document v → v.depth ≤ levels ∧ ∀ n ∈ v.integers, Decimal.Writable n := by
  constructor
  · refine fun hnone => ⟨fun h => hnone _ (ofValue_of_overflows h), fun v hv => ?_⟩
    rw [← Value.exists_write_iff]
    cases hwrite : v.write levels with
    | ok text => exact ⟨text, rfl⟩
    | error f => exact absurd (ofValue_of_holdsVersion hv hwrite) (hnone f)
  · rintro ⟨hconverted, hwritable⟩ f hf
    rcases refused_or_fault_of_ofValue hf with ⟨r, hr⟩ | ⟨-, h⟩ | ⟨v, g, -, hv, hwrite⟩
    · cases hr
    · exact hconverted h
    · obtain ⟨text, htext⟩ := Value.exists_write_iff.mpr (hwritable v hv)
      cases htext.symm.trans hwrite

/-- An answer is sound unless it is settings with a tolerance that is told as undefined. -/
theorem sound_iff_ne_fault : Sound (ofValue levels document) ↔
    (∀ f, ofValue levels document ≠ .error (.fault f)) ∧
      ¬ ((∃ s, ofValue levels document = .ok s) ∧ HoldsUndefinedTolerance document) := by
  constructor
  · refine fun hsound => ⟨hsound.ne_fault, fun ⟨⟨s, hs⟩, hvague⟩ => ?_⟩
    rcases hsound with ⟨s', hs', hε, -⟩ | ⟨e, he⟩
    · cases hs.symm.trans hs'
      exact Double.ofFloat_ne_undefined hε ((undefined_iff hs).mpr hvague)
    · cases hs.symm.trans he
  · rintro ⟨hnone, hdefined⟩
    cases houtcome : ofValue levels document with
    | ok s =>
      obtain ⟨hexponent, hlength, hε⟩ := inRange_of_ofValue houtcome
      have hpositive := hε.resolve_right fun h => hdefined ⟨⟨s, houtcome⟩, (undefined_iff houtcome).mp h⟩
      exact .inl ⟨s, rfl, hpositive, hexponent, hlength⟩
    | error e =>
      rcases refused_or_fault_of_ofValue houtcome with ⟨r, rfl⟩ | ⟨rfl, -⟩ | ⟨v, f, rfl, -⟩
      · exact .inr ⟨r, rfl⟩
      · exact absurd houtcome (hnone .overflow)
      · exact absurd houtcome (hnone f)

/-- Every document gives settings in range or is refused, unless the first number that is not converted
overflows, the version nests too deeply or holds a number with too many digits, or the tolerance is
undefined. The limits of settings are in range whatever the tolerance is, and it is positive or undefined. -/
theorem sound_ofValue_iff (levels : ℕ) (document : Value) :
    let outcome := ofValue levels document
    (Sound outcome ↔ ¬ Overflows document ∧
      (∀ v, HoldsVersion document v → v.depth ≤ levels ∧ ∀ n ∈ v.integers, Decimal.Writable n) ∧
      ¬ ((∃ s, outcome = .ok s) ∧ HoldsUndefinedTolerance document)) ∧
    (outcome = .error (.fault .overflow) ↔ Overflows document) ∧
    (∀ f, outcome = .error (.fault f) → f = .overflow ∨
      ∃ v, HoldsVersion document v ∧ CannotBeWritten levels v f) ∧
    (∀ s, outcome = .ok s → 0 ≤ s.limits.maxExponent ∧ (∀ n ∈ s.limits.maxExpressionLength, 0 < n) ∧
      (0 < s.precision.epsilon ∨ Binary.ofFloat s.precision.epsilon = .undefined)) ∧
    ∀ fileAt path text, fileAt (Path.plain path) = some text → Yaml.read text = .ok document →
      load levels fileAt path = outcome := by
  intro outcome
  refine ⟨?_, ofValue_eq_overflow_iff, fun f hf => (fault_of_ofValue hf).imp_left And.left,
    fun s => inRange_of_ofValue, fun fileAt path text hfile hread => ?_⟩
  · rw [sound_iff_ne_fault, ofValue_ne_fault_iff, and_assoc]
  · simp only [load, hfile, ofText, hread]
    rfl

/-- An infinite width, an undefined tolerance, and versions with too many digits and too many levels. -/
theorem not_sound_of_numbers_out_of_range :
    let wide := Value.mapping [(.text "plot", .mapping [(.text "width", .float Double.infinity)])]
    let vague := Value.mapping [(.text "precision", .mapping [(.text "epsilon", .float Double.undefined)])]
    let long := Value.mapping [(.text "version", .int (10 ^ 4300))]
    let deep := Value.mapping [(.text "version", .list [.list [.list []]])]
    ¬ Sound (ofValue 100 wide) ∧ ¬ Sound (ofValue 100 vague) ∧ ¬ Sound (ofValue 100 long) ∧
      ¬ Sound (ofValue 2 deep) := by
  intro wide vague long deep
  refine ⟨fun h => ?_, fun h => ?_, fun h => ?_, fun h => ?_⟩
  · have hoverflows : Overflows wide := by
      refine ⟨_, rfl, ?_, numbers.take 4, ⟨"plot", "width", .whole⟩, numbers.drop 5, rfl, ?_, _, rfl, false, ?_⟩
      · intro part hpart
        fin_cases hpart <;> exact ⟨_, rfl⟩
      · intro m hm
        fin_cases hm <;> rfl
      · decide
    exact ((sound_ofValue_iff 100 wide).1.mp h).1 hoverflows
  · have hok : (ofValue 100 vague).isOk = true := by decide +kernel
    obtain ⟨s, hs⟩ : ∃ s, ofValue 100 vague = .ok s := by
      generalize ofValue 100 vague = outcome at hok
      cases outcome with
      | ok s => exact ⟨s, rfl⟩
      | error e => cases hok
    have hundefined : HoldsUndefinedTolerance vague :=
      ⟨_, _, _, Double.undefined, rfl, rfl, rfl, rfl, by decide⟩
    exact ((sound_ofValue_iff 100 vague).1.mp h).2.2 ⟨⟨s, hs⟩, hundefined⟩
  · have hversion : HoldsVersion long (.int (10 ^ 4300)) := ⟨_, {}, {}, {}, rfl, rfl, by decide, rfl⟩
    have hwritable := (((sound_ofValue_iff 100 long).1.mp h).2.1 _ hversion).2
    exact absurd (hwritable (10 ^ 4300) (List.mem_singleton_self _)) (by decide +kernel)
  · have hversion : HoldsVersion deep (.list [.list [.list []]]) := ⟨_, {}, {}, {}, rfl, rfl, by decide, rfl⟩
    have hdepth := (((sound_ofValue_iff 2 deep).1.mp h).2.1 _ hversion).1
    exact absurd hdepth (by decide)

end PolyPlot.Settings
