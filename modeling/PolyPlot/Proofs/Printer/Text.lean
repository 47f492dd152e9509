import PolyPlot.Proofs.Answers
import PolyPlot.Proofs.Double.Overflow
import PolyPlot.Proofs.Printer.Term

namespace PolyPlot.Coeffs

open Double Decimal

variable {places power n : ℕ} {p q r : Coeffs Float} {a b : Float}

/-- An entry rounded to places, zero if that brings its magnitude below the tolerance. -/
def roundEntry (ε : Float) (places : ℤ) (a : Float) : Except Fault Float := do
  let magnitude ← Decimal.roundPlaces places a.abs
  return if magnitude < ε then 0 else if a < 0 then -magnitude else magnitude

/-- A finite double whose magnitude is the one nearest to a count of last places. -/
def IsRounded (places : ℕ) (a : Float) : Prop :=
  a.isFinite = true ∧ ∃ k, a.abs = nearest false k (10 ^ places)

theorem isRounded_zero (places : ℕ) : IsRounded places 0 := by
  refine ⟨isFinite_zero, 0, ?_⟩
  rw [nearest_zero]
  decide

theorem lt_zero_iff (ha : a.isFinite = true) : a < 0 ↔ Double.value a < 0 := by
  rw [lt_iff ha isFinite_zero, value_zero]

theorem abs_opposite (ha : a.isFinite = true) : (-a).abs = a.abs := by
  apply abs_eq_of_value (isFinite_neg ha) ha
  rw [value_neg ha, abs_neg]

theorem abs_nearest {k d : ℕ} (hd : 0 < d) (hfinite : (nearest false k d).isFinite = true) :
    (nearest false k d).abs = nearest false k d := by
  obtain ⟨m, e, hparts⟩ := exists_parts_of_nearest hd hfinite
  apply ofFloat_injective
  rw [ofFloat_abs hparts, hparts]

/-- A rounded magnitude is rounded to itself. -/
theorem IsRounded.roundPlaces_abs (hplaces : places ≤ 9) (ha : IsRounded places a) :
    Decimal.roundPlaces places a.abs = .ok a.abs := by
  obtain ⟨hfinite, k, hk⟩ := ha
  obtain ⟨s, m, e, hparts⟩ := isFinite_iff.mp hfinite
  exact roundPlaces_nearest hplaces hk (ofFloat_abs hparts)

/-- A rounded magnitude is below the tolerance only if it is zero. -/
theorem IsRounded.abs_lt_iff (hplaces : places ≤ 9) (ha : IsRounded places a) :
    a.abs < tolerance ↔ Double.value a = 0 := by
  obtain ⟨hfinite, k, hk⟩ := ha
  have hround := isFinite_abs hfinite
  constructor
  · intro hless
    rw [hk] at hround hless
    obtain rfl := (lt_tolerance_iff hplaces hround).mp hless
    rw [nearest_zero] at hk
    rw [← abs_eq_zero, ← value_abs hfinite, hk, value_signedZero]
  · intro hzero
    rw [lt_iff hround isFinite_tolerance, value_abs hfinite, hzero, abs_zero]
    exact value_tolerance_pos

theorem body?_congr (power : ℕ) (h : Decimal.roundPlaces places a.abs = Decimal.roundPlaces places b.abs) :
    body? tolerance places power a = body? tolerance places power b := by
  unfold body?
  rw [h]

/-- An entry and the one it is rounded to, which is printed as the entry is. -/
structure RoundsTo (places : ℕ) (a b : Float) : Prop where
  eq_ok : roundEntry tolerance places a = .ok b
  rounded : IsRounded places b
  body (power : ℕ) : body? tolerance places power a = body? tolerance places power b
  sign : Double.value b ≠ 0 → (a < 0 ↔ b < 0)

/-- Rounding an entry has an answer. -/
theorem exists_roundsTo (hplaces : places ≤ 9) (ha : a.isFinite = true) : ∃ b, RoundsTo places a b := by
  obtain ⟨s, m, e, hparts⟩ := isFinite_iff.mp ha
  obtain ⟨k, -, hfinite, hround⟩ := roundPlaces_eq_ok hplaces (ofFloat_abs hparts)
  have habs := abs_nearest (by positivity) hfinite
  have hnonneg := value_nearest_nonneg (by positivity) hfinite
  have hrounded : IsRounded places (nearest false k (10 ^ places)) := ⟨hfinite, k, habs⟩
  generalize hr : nearest false k (10 ^ places) = r at hfinite hround habs hnonneg hrounded
  have hentry : roundEntry tolerance places a =
      .ok (if r < tolerance then 0 else if a < 0 then -r else r) := by
    unfold roundEntry
    rw [hround]
    rfl
  by_cases hsmall : r < tolerance
  · refine ⟨0, by rw [hentry, if_pos hsmall], isRounded_zero places, fun power => ?_,
      fun hne => absurd value_zero hne⟩
    have hzero := (isRounded_zero places).roundPlaces_abs hplaces
    have hless : (0 : Float).abs < tolerance := by decide
    unfold body?
    rw [hround, hzero]
    simp only [bind, Except.bind, if_pos hsmall, if_pos hless]
  · by_cases hneg : a < 0
    · have habs' : (-r).abs = r := (abs_opposite hfinite).trans habs
      have hopposite : IsRounded places (-r) := ⟨isFinite_neg hfinite, k, habs'.trans hr.symm⟩
      refine ⟨-r, by rw [hentry, if_neg hsmall, if_pos hneg], hopposite, fun power => ?_, fun hne => ?_⟩
      · apply body?_congr
        rw [hround, hopposite.roundPlaces_abs hplaces, habs']
      · rw [value_neg hfinite, neg_ne_zero] at hne
        rw [lt_zero_iff (isFinite_neg hfinite), value_neg hfinite, neg_lt_zero]
        exact iff_of_true hneg (lt_of_le_of_ne hnonneg hne.symm)
    · refine ⟨r, by rw [hentry, if_neg hsmall, if_neg hneg], hrounded, fun power => ?_, fun hne => ?_⟩
      · apply body?_congr
        rw [hround, habs, ← habs, hrounded.roundPlaces_abs hplaces]
      · rw [lt_zero_iff hfinite]
        exact iff_of_false hneg (not_lt.mpr hnonneg)

/-- A term that is printed for an entry. -/
structure Prints (a : Float) (power : ℕ) (t : PrintedTerm) : Prop where
  wellFormed : t.WellFormed
  power_eq : t.power = power
  ne_zero : Double.value a ≠ 0
  negative : t.negative = decide (a < 0)
  magnitude : t.magnitude = a.abs

/-- A rounded entry is left out if it is zero, and otherwise printed as a term. -/
theorem exists_term (hplaces : places ≤ 9) (ha : IsRounded places a) (power : ℕ) :
    (Double.value a = 0 ∧ body? tolerance places power a = .ok none) ∨
      ∃ t, Prints a power t ∧
        body? tolerance places power a = .ok (some (t.bodyText, t.numeral?.isNone)) := by
  have hround := ha.roundPlaces_abs hplaces
  have hsmall := ha.abs_lt_iff hplaces
  obtain ⟨hfinite, k, hk⟩ := ha
  by_cases hzero : Double.value a = 0
  · refine .inl ⟨hzero, ?_⟩
    unfold body?
    rw [hround]
    simp only [bind, Except.bind, if_pos (hsmall.mpr hzero)]
    rfl
  · refine .inr ?_
    have hlarge : ¬ a.abs < tolerance := mt hsmall.mp hzero
    by_cases hunit : (decide (0 < power) && decide ((a.abs - 1).abs < tolerance)) = true
    · obtain ⟨hpower, hone⟩ : 0 < power ∧ (a.abs - 1).abs < tolerance := by simpa using hunit
      have habs : a.abs = 1 := by
        have hround' := isFinite_abs hfinite
        rw [hk] at hone hround'
        rw [hk, (abs_sub_one_lt_iff hplaces hround').mp hone, nearest_one]
      refine ⟨⟨decide (a < 0), none, power⟩, ⟨hpower, rfl, hzero, rfl, habs.symm⟩, ?_⟩
      unfold body?
      rw [hround]
      simp only [bind, Except.bind, if_neg hlarge]
      rw [if_pos hunit]
      rfl
    · obtain ⟨s, m, e, hparts⟩ := isFinite_iff.mp hfinite
      obtain ⟨n, hn, hnumeral, hread⟩ := exists_numeral hplaces hk (ofFloat_abs hparts)
      refine ⟨⟨decide (a < 0), some n, power⟩, ⟨hn, rfl, hzero, rfl, hread⟩, ?_⟩
      unfold body?
      rw [hround]
      simp only [bind, Except.bind, if_neg hlarge]
      rw [if_neg hunit, hnumeral]
      rfl

/-- The terms that are printed for the entries of the powers below `n`, highest first. -/
inductive PrintsAll (p : Coeffs Float) : ℕ → List PrintedTerm → Prop
  | nil : PrintsAll p 0 []
  | skip {n : ℕ} {ts : List PrintedTerm} (hzero : Double.value (p.getD n 0) = 0) (hts : PrintsAll p n ts) :
      PrintsAll p (n + 1) ts
  | cons {n : ℕ} {t : PrintedTerm} {ts : List PrintedTerm} (ht : Prints (p.getD n 0) n t)
      (hts : PrintsAll p n ts) :
      PrintsAll p (n + 1) (t :: ts)

/-- The texts of all terms. -/
def texts : List PrintedTerm → List String
  | [] => []
  | t :: ts => t.firstText :: ts.map PrintedTerm.nextText

/-- The text of a polynomial by its terms, `0` without any. -/
def printed : List PrintedTerm → String
  | [] => "0"
  | t :: ts => PrintedTerm.textOf t ts

theorem Prints.nextText_eq {t : PrintedTerm} (ht : Prints a power t) :
    (if a < 0 then "- " else "+ ") ++ t.bodyText = t.nextText := by
  unfold PrintedTerm.nextText
  rw [ht.negative]
  by_cases h : a < 0 <;> simp [h]

theorem Prints.firstText_eq {t : PrintedTerm} (ht : Prints a power t) :
    firstTerm (decide (a < 0)) t.numeral?.isNone power t.bodyText = t.firstText := by
  rw [PrintedTerm.firstText, ht.negative, ht.power_eq]

/-- The printer writes the terms of a rounded vector. -/
theorem exists_printsAll (hplaces : places ≤ 9) (hp : ∀ i, IsRounded places (p.getD i 0)) (n : ℕ) :
    ∃ ts, PrintsAll p n ts ∧ terms tolerance places p n [] = .ok (texts ts) ∧ ∀ written, written ≠ [] →
      terms tolerance places p n written = .ok (written ++ ts.map PrintedTerm.nextText) := by
  induction n with
  | zero => exact ⟨[], .nil, rfl, fun written _ => by rw [List.map_nil, List.append_nil]; rfl⟩
  | succ n ih =>
    obtain ⟨ts, hts, hfirst, hnext⟩ := ih
    rcases exists_term hplaces (hp n) n with ⟨hzero, hnone⟩ | ⟨t, ht, hsome⟩
    · refine ⟨ts, .skip hzero hts, ?_, fun written hwritten => ?_⟩
      · unfold terms
        simp only [hnone, bind, Except.bind]
        exact hfirst
      · unfold terms
        simp only [hnone, bind, Except.bind]
        exact hnext written hwritten
    · refine ⟨t :: ts, .cons ht hts, ?_, fun written hwritten => ?_⟩
      · unfold terms
        simp only [hsome, bind, Except.bind, List.isEmpty_nil, if_true, List.nil_append]
        rw [ht.firstText_eq, hnext _ (List.cons_ne_nil _ _)]
        rfl
      · have hnonempty : written.isEmpty = false := by simpa using hwritten
        unfold terms
        simp only [hsome, bind, Except.bind, hnonempty]
        rw [if_neg Bool.false_ne_true, ht.nextText_eq, hnext _ (by simp), List.map_cons, List.append_assoc]
        rfl

/-- A rounded vector has a text, which is made of its terms. -/
theorem exists_format (hplaces : places ≤ 9) (hp : ∀ i, IsRounded places (p.getD i 0)) :
    ∃ ts, PrintsAll p p.length ts ∧ format tolerance places p = .ok (printed ts) := by
  obtain ⟨ts, hts, hfirst, -⟩ := exists_printsAll hplaces hp p.length
  refine ⟨ts, hts, ?_⟩
  unfold format
  rw [hfirst]
  cases ts with
  | nil => rfl
  | cons t ts => rfl

section Congruence

/-- Vectors whose entries are printed alike are printed alike. -/
theorem terms_congr (hplaces : places ≤ 9) (hq : ∀ i, IsRounded places (q.getD i 0))
    (hbody : ∀ i power,
      body? tolerance places power (p.getD i 0) = body? tolerance places power (q.getD i 0))
    (hsign : ∀ i, Double.value (q.getD i 0) ≠ 0 → (p.getD i 0 < 0 ↔ q.getD i 0 < 0)) (n : ℕ)
    (written : List String) : terms tolerance places p n written = terms tolerance places q n written := by
  induction n generalizing written with
  | zero => rfl
  | succ n ih =>
    unfold terms
    dsimp only
    rw [hbody n n]
    rcases exists_term hplaces (hq n) n with ⟨-, hnone⟩ | ⟨t, ht, hsome⟩
    · simp only [hnone, bind, Except.bind]
      exact ih written
    · have hlt := hsign n ht.ne_zero
      simp only [hsome, bind, Except.bind, hlt]
      exact ih _

/-- Zeros at the end of a vector are not printed. -/
theorem terms_of_zeros (hplaces : places ≤ 9) (hp : ∀ i, IsRounded places (p.getD i 0))
    (hzero : ∀ i, n ≤ i → Double.value (p.getD i 0) = 0) (k : ℕ) (written : List String) :
    terms tolerance places p (n + k) written = terms tolerance places p n written := by
  induction k with
  | zero => rfl
  | succ k ih =>
    rw [← ih, ← Nat.add_assoc]
    conv_lhs => unfold terms
    rcases exists_term hplaces (hp (n + k)) (n + k) with ⟨-, hnone⟩ | ⟨t, ht, -⟩
    · simp only [hnone, bind, Except.bind]
    · exact absurd (hzero (n + k) (by omega)) ht.ne_zero

theorem value_getD_of_length_le {i : ℕ} (h : p.length ≤ i) : Double.value (p.getD i 0) = 0 := by
  rw [List.getD_eq_default p 0 h, value_zero]

theorem isFinite_getD (hp : ∀ a ∈ p, a.isFinite = true) (i : ℕ) : (p.getD i 0).isFinite = true := by
  rcases Nat.lt_or_ge i p.length with hi | hi
  · rw [List.getD_eq_getElem p 0 hi]
    exact hp _ (List.getElem_mem hi)
  · rw [List.getD_eq_default p 0 hi]
    exact isFinite_zero

/-- Rounded vectors with the same values are printed alike, whatever zeros stand at their ends. -/
theorem format_eq_of_value (hplaces : places ≤ 9) (hp : ∀ i, IsRounded places (p.getD i 0))
    (hq : ∀ i, IsRounded places (q.getD i 0))
    (h : ∀ i, Double.value (p.getD i 0) = Double.value (q.getD i 0)) :
    format tolerance places p = format tolerance places q := by
  have hbody (i power : ℕ) :
      body? tolerance places power (p.getD i 0) = body? tolerance places power (q.getD i 0) := by
    apply body?_congr
    rw [abs_eq_of_value (hp i).1 (hq i).1 (by rw [h i])]
  have hsign (i : ℕ) (_ : Double.value (q.getD i 0) ≠ 0) : p.getD i 0 < 0 ↔ q.getD i 0 < 0 := by
    rw [lt_zero_iff (hp i).1, lt_zero_iff (hq i).1, h i]
  have hterms : terms tolerance places p p.length [] = terms tolerance places q q.length [] := by
    rw [← terms_of_zeros hplaces hp (fun i => value_getD_of_length_le) q.length [],
      ← terms_of_zeros hplaces hq (fun i => value_getD_of_length_le) p.length [], Nat.add_comm q.length]
    exact terms_congr hplaces hq hbody hsign _ []
  unfold format
  rw [hterms]

theorem roundsTo_zero (hplaces : places ≤ 9) : RoundsTo places 0 0 := by
  refine ⟨?_, isRounded_zero places, fun _ => rfl, fun _ => Iff.rfl⟩
  have hless : (0 : Float).abs < tolerance := by decide
  unfold roundEntry
  rw [(isRounded_zero places).roundPlaces_abs hplaces]
  simp only [bind, Except.bind, if_pos hless]
  rfl

theorem mapM_eq_ok_iff {f : Float → Except Fault Float} :
    p.mapM f = .ok r ↔ List.Forall₂ (fun a b => f a = .ok b) p r := by
  induction p generalizing r with
  | nil => simp [pure, Except.pure, eq_comm]
  | cons a p ih =>
    rw [List.mapM_cons, bind_eq_ok_iff]
    constructor
    · rintro ⟨b, hb, h⟩
      obtain ⟨q, hq, h⟩ := bind_eq_ok_iff.mp h
      cases h
      exact .cons hb (ih.mp hq)
    · intro h
      cases h with
      | cons hb hq => exact ⟨_, hb, bind_eq_ok_iff.mpr ⟨_, ih.mpr hq, rfl⟩⟩

theorem exists_forall₂_roundsTo (hplaces : places ≤ 9) (hp : ∀ a ∈ p, a.isFinite = true) :
    ∃ r, List.Forall₂ (RoundsTo places) p r := by
  induction p with
  | nil => exact ⟨[], .nil⟩
  | cons a p ih =>
    rw [List.forall_mem_cons] at hp
    obtain ⟨b, hb⟩ := exists_roundsTo hplaces hp.1
    obtain ⟨r, hr⟩ := ih hp.2
    exact ⟨b :: r, .cons hb hr⟩

/-- Vectors of one length are related entry by entry. -/
theorem forall₂_iff_getD {R : Float → Float → Prop} (hzero : R 0 0) :
    List.Forall₂ R p q ↔ p.length = q.length ∧ ∀ i, R (p.getD i 0) (q.getD i 0) := by
  rw [List.forall₂_iff_get]
  refine and_congr_right fun hlength => ?_
  constructor
  · intro h i
    by_cases hi : i < p.length
    · rw [List.getD_eq_getElem p 0 hi, List.getD_eq_getElem q 0 (hlength ▸ hi)]
      exact h i hi (hlength ▸ hi)
    · rw [List.getD_eq_default p 0 (not_lt.mp hi), List.getD_eq_default q 0 (hlength ▸ not_lt.mp hi)]
      exact hzero
  · intro h i hi hi'
    have hentry := h i
    rwa [List.getD_eq_getElem p 0 hi, List.getD_eq_getElem q 0 hi'] at hentry

/-- The entries of a vector can be rounded, and rounded they are printed as the vector is. -/
theorem exists_roundsTo_format_eq (hplaces : places ≤ 9) (hp : ∀ a ∈ p, a.isFinite = true) :
    ∃ r, List.Forall₂ (RoundsTo places) p r ∧
      format tolerance places p = format tolerance places r := by
  obtain ⟨r, hall⟩ := exists_forall₂_roundsTo hplaces hp
  obtain ⟨-, hentry⟩ := (forall₂_iff_getD (roundsTo_zero hplaces)).mp hall
  refine ⟨r, hall, ?_⟩
  unfold format
  rw [hall.length_eq, terms_congr hplaces (fun i => (hentry i).rounded)
    (fun i => (hentry i).body) fun i => (hentry i).sign]

/-- Rounding all entries has an answer, which is printed as the vector is. -/
theorem exists_rounded (hplaces : places ≤ 9) (hp : ∀ a ∈ p, a.isFinite = true) :
    ∃ r, p.mapM (roundEntry tolerance places) = .ok r ∧ r.length = p.length ∧
      (∀ i, IsRounded places (r.getD i 0)) ∧
      format tolerance places p = format tolerance places r := by
  obtain ⟨r, hall, hformat⟩ := exists_roundsTo_format_eq hplaces hp
  obtain ⟨-, hentry⟩ := (forall₂_iff_getD (roundsTo_zero hplaces)).mp hall
  have hmap := mapM_eq_ok_iff.mpr (hall.imp fun _ _ h => h.eq_ok)
  exact ⟨r, hmap, hall.length_eq.symm, fun i => (hentry i).rounded, hformat⟩

end Congruence

/-- Only a finite entry has a term, or is left out. -/
theorem isFinite_of_body? {t : Option (String × Bool)}
    (h : body? tolerance places power a = .ok t) : a.isFinite = true := by
  by_contra ha
  have habs : ¬ a.abs.isFinite = true := mt isFinite_of_isFinite_abs ha
  have hlarge : ¬ a.abs < tolerance := not_abs_lt_of_not_isFinite ha
  have hdifference : ¬ (a.abs - 1).abs < tolerance :=
    not_abs_lt_of_not_isFinite fun h => habs (isFinite_of_isFinite_sub h).1
  unfold body? at h
  rw [roundPlaces_of_not_isFinite habs] at h
  simp only [bind, Except.bind, if_neg hlarge, decide_eq_false hdifference, Bool.and_false] at h
  rw [if_neg Bool.false_ne_true] at h
  obtain ⟨text, htext, -⟩ := bind_eq_ok_iff.mp h
  obtain ⟨whole, hwhole, -⟩ := bind_eq_ok_iff.mp htext
  exact habs (isFinite_of_wholePart hwhole)

theorem isFinite_of_terms {written ts : List String}
    (h : terms tolerance places p n written = .ok ts) : ∀ i < n, (p.getD i 0).isFinite = true := by
  induction n generalizing written with
  | zero => exact fun i hi => absurd hi (Nat.not_lt_zero i)
  | succ n ih =>
    unfold terms at h
    obtain ⟨t, ht, h⟩ := bind_eq_ok_iff.mp h
    intro i hi
    rcases Nat.lt_succ_iff_lt_or_eq.mp hi with hlt | rfl
    · cases t with
      | none => exact ih h i hlt
      | some t => exact ih h i hlt
    · exact isFinite_of_body? ht

/-- A finite entry has a term or is left out, whatever the tolerance is. -/
theorem exists_body? (ε : Float) (hplaces : places ≤ 9) (ha : a.isFinite = true) (power : ℕ) :
    ∃ t, body? ε places power a = .ok t := by
  obtain ⟨s, m, e, hparts⟩ := isFinite_iff.mp ha
  obtain ⟨k, -, hfinite, hround⟩ := roundPlaces_eq_ok hplaces (ofFloat_abs hparts)
  obtain ⟨m', e', hparts'⟩ := exists_parts_of_nearest (by positivity) hfinite
  obtain ⟨t, -, hnumeral, -⟩ := exists_numeral hplaces rfl hparts'
  unfold body?
  simp only [hround, hnumeral, bind, Except.bind]
  split
  · exact ⟨none, rfl⟩
  · split
    · exact ⟨_, rfl⟩
    · exact ⟨_, rfl⟩

theorem exists_terms (ε : Float) (hplaces : places ≤ 9) (hp : ∀ i, (p.getD i 0).isFinite = true)
    (written : List String) : ∃ ts, terms ε places p n written = .ok ts := by
  induction n generalizing written with
  | zero => exact ⟨written, rfl⟩
  | succ n ih =>
    obtain ⟨t, ht⟩ := exists_body? ε hplaces (hp n) n
    unfold terms
    simp only [ht, bind, Except.bind]
    cases t with
    | none => exact ih written
    | some t => exact ih _

/-- A vector of finite numbers has a text under every tolerance. -/
theorem exists_format_of_isFinite (ε : Float) (hplaces : places ≤ 9) (hp : ∀ a ∈ p, a.isFinite = true) :
    ∃ text, format ε places p = .ok text := by
  obtain ⟨ts, hts⟩ := exists_terms ε hplaces (isFinite_getD hp) (n := p.length) []
  unfold format
  simp only [hts, bind, Except.bind]
  split
  · exact ⟨_, rfl⟩
  · exact ⟨_, rfl⟩

/-- A vector has a text exactly if its entries are finite. -/
theorem exists_format_iff (hplaces : places ≤ 9) :
    (∃ text, format tolerance places p = .ok text) ↔ ∀ a ∈ p, a.isFinite = true := by
  constructor
  · rintro ⟨text, h⟩ a ha
    obtain ⟨ts, hts, -⟩ := bind_eq_ok_iff.mp h
    obtain ⟨i, hi, rfl⟩ := List.getElem_of_mem ha
    rw [← List.getD_eq_getElem p 0 hi]
    exact isFinite_of_terms hts i hi
  · exact exists_format_of_isFinite tolerance hplaces

end PolyPlot.Coeffs
