import PolyPlot.Proofs.Evaluation.Compilation
import PolyPlot.Proofs.Printer.Evaluation

namespace PolyPlot

namespace PrintedTerm

open Coeffs Double Expression

variable {limits : Limits Float} {t : PrintedTerm} {ts : List PrintedTerm} {q v : Coeffs Float} {i : ℕ}
  {u : ℚ}

/-- The tree of a printed polynomial. -/
def treeOf : List PrintedTerm → Tree Numeral
  | [] => .literal ⟨['0'], []⟩
  | t :: ts => chain t.firstTree ts

/-- The vector of a printed polynomial before its canonical form. -/
def vectorOf : List PrintedTerm → Coeffs Float
  | [] => [0]
  | t :: ts => gather t.firstVector ts

theorem syntax_treeOf (hts : ∀ t ∈ ts, t.Sound) :
    Grammar.Syntax .expression (normalChars (printed ts).toList) (treeOf ts) := by
  cases ts with
  | nil =>
    have hzero : Numeral.WellFormed ⟨['0'], []⟩ := ⟨List.cons_ne_nil _ _, by simp, by simp⟩
    have hnormal : normalChars (printed []).toList = Numeral.text ⟨['0'], []⟩ := by decide
    rw [hnormal]
    exact .term (.factor (.primary (.number hzero rfl)))
  | cons t ts =>
    rw [List.forall_mem_cons] at hts
    exact syntax_textOf hts.1.wellFormed fun u hu => (hts.2 u hu).wellFormed

theorem finite_powerTree_iff {k : ℕ} (hk : 0 < k) :
    Finite (powerTree k) ↔ k < 2 ∨ (ofRat k).isFinite = true := by
  match k, hk with
  | 1, _ => exact iff_of_true trivial (.inl one_lt_two)
  | k + 2, _ =>
    rw [powerTree_succ_succ, Finite, Tree.AllLiterals, Tree.AllLiterals, Tree.AllLiterals,
      Decimal.toDouble_text, true_and]
    exact (or_iff_right (by omega)).symm

theorem finite_numeral {n : Numeral} (ht : t.Sound) (hn : t.numeral? = some n) :
    n.toDouble.isFinite = true := by
  have hfinite := ht.finite
  unfold magnitude at hfinite
  rwa [hn] at hfinite

/-- All numbers of a term are finite if the one that says its power is. -/
theorem finite_bodyTree_iff (ht : t.Sound) :
    Finite t.bodyTree ↔ t.power < 2 ∨ (ofRat t.power).isFinite = true := by
  have hwf := ht.wellFormed
  unfold WellFormed at hwf
  unfold bodyTree
  cases hnumeral : t.numeral? with
  | none =>
    rw [hnumeral] at hwf
    exact finite_powerTree_iff hwf
  | some n =>
    have hn := finite_numeral ht hnumeral
    dsimp only
    split
    · next hzero => exact iff_of_true hn (.inl (by omega))
    · next hne =>
      rw [← finite_powerTree_iff (Nat.pos_of_ne_zero hne)]
      exact and_iff_right hn

theorem finite_firstTree_iff (t : PrintedTerm) : Finite t.firstTree ↔ Finite t.bodyTree := by
  unfold firstTree bodyTree
  cases t.negative with
  | false => rfl
  | true =>
    cases t.numeral? with
    | none => rfl
    | some n => by_cases hzero : t.power = 0 <;> simp [hzero, Finite, Tree.AllLiterals]

/-- A power that is read as one the limits allow; the constant and `x` by itself are not read. -/
def Readable (limits : Limits Float) (k : ℕ) : Prop :=
  (k < 2 ∨ (ofRat k).isFinite = true) ∧ Allowed limits k

theorem finite_treeOf_iff (hts : ∀ t ∈ ts, t.Sound) :
    Finite (treeOf ts) ↔ ∀ t ∈ ts, t.power < 2 ∨ (ofRat t.power).isFinite = true := by
  cases ts with
  | nil =>
    have hzero : (Numeral.toDouble ⟨['0'], []⟩).isFinite = true := by decide
    exact iff_of_true hzero (by simp)
  | cons t ts =>
    rw [List.forall_mem_cons] at hts ⊢
    rw [treeOf, finite_chain_iff, finite_firstTree_iff, finite_bodyTree_iff hts.1]
    exact and_congr_right fun _ => forall₂_congr fun u hu => finite_bodyTree_iff (hts.2 u hu)

theorem evaluates_treeOf_iff (hts : ∀ t ∈ ts, t.Sound) (hfinite : Finite (treeOf ts)) :
    Tree.Evaluates limits ((treeOf ts).map Numeral.toDouble) v ↔
      (∀ t ∈ ts, Allowed limits t.power) ∧ v = vectorOf ts := by
  cases ts with
  | nil =>
    have hzero : (treeOf []).map Numeral.toDouble = .literal 0 := by
      rw [treeOf, Tree.map]
      exact congrArg _ (by decide)
    rw [hzero, evaluates_literal_iff]
    exact (and_iff_right (by simp)).symm
  | cons t ts =>
    rw [List.forall_mem_cons] at hts ⊢
    obtain ⟨hfirst, hrest⟩ := finite_chain_iff.mp hfinite
    rw [treeOf, evaluates_chain_iff hts.2 hrest]
    constructor
    · rintro ⟨hallowed, q, hq, rfl⟩
      obtain ⟨hpower, rfl⟩ := (evaluates_first_iff hts.1 hfirst).mp hq
      exact ⟨⟨hpower, hallowed⟩, rfl⟩
    · rintro ⟨⟨hpower, hallowed⟩, rfl⟩
      exact ⟨hallowed, _, (evaluates_first_iff hts.1 hfirst).mpr ⟨hpower, rfl⟩, rfl⟩

/-- The vector of a printed polynomial, if there is one: its powers are doubles and allowed ones. -/
theorem compileWith_printed_iff (hts : ∀ t ∈ ts, t.Sound) :
    compileWith id limits none none (printed ts) = .ok v ↔ (∀ t ∈ ts, Readable limits t.power) ∧
      (∀ a ∈ vectorOf ts, a.isFinite = true) ∧ (vectorOf ts).canonical limits.epsilon = v := by
  rw [compileWith_eq_ok_iff (syntax_treeOf hts)]
  constructor
  · rintro ⟨hfinite, raw, hraw, hall, hv⟩
    obtain ⟨hallowed, rfl⟩ := (evaluates_treeOf_iff hts hfinite).mp hraw
    exact ⟨fun t ht => ⟨(finite_treeOf_iff hts).mp hfinite t ht, hallowed t ht⟩, hall, hv⟩
  · rintro ⟨hreadable, hall, hv⟩
    have hfinite := (finite_treeOf_iff hts).mpr fun t ht => (hreadable t ht).1
    have hevaluates := (evaluates_treeOf_iff hts hfinite).mpr ⟨fun t ht => (hreadable t ht).2, rfl⟩
    exact ⟨hfinite, _, hevaluates, hall, hv⟩

theorem entry_gather_of_ne (hts : ∀ t ∈ ts, t.Sound) (hi : ∀ t ∈ ts, i ≠ readPower t.power)
    (hq : Entry q i u) :
    Entry (gather q ts) i u := by
  induction ts generalizing q with
  | nil => exact hq
  | cons t ts ih =>
    rw [List.forall_mem_cons] at hts hi
    have hjoin := entry_join hts.1 hq fun h => absurd h hi.1
    rw [if_neg hi.1] at hjoin
    rw [gather_cons]
    exact ih hts.2 hi.2 hjoin

/-- The entry of a power that no term is read with is zero. -/
theorem entry_vectorOf_of_ne (hts : ∀ t ∈ ts, t.Sound) (hi : ∀ t ∈ ts, i ≠ readPower t.power) :
    Entry (vectorOf ts) i 0 := by
  cases ts with
  | nil =>
    have hzero := entry_monomial isFinite_zero 0 i
    rwa [value_zero, ite_self] at hzero
  | cons t ts =>
    rw [List.forall_mem_cons] at hts hi
    have hfirst := entry_firstVector hts.1 i
    rw [if_neg hi.1] at hfirst
    exact entry_gather_of_ne hts.2 hi.2 hfirst

end PrintedTerm

namespace Coeffs

open Double PrintedTerm

variable {limits : Limits Float} {p q : Coeffs Float} {a : Float} {t : PrintedTerm} {ts : List PrintedTerm}
  {i k n : ℕ} {u : ℚ}

theorem Prints.sound (ha : a.isFinite = true) (ht : Prints a k t) : t.Sound := by
  refine ⟨ht.wellFormed, ?_, ?_⟩
  · rw [ht.magnitude]
    exact isFinite_abs ha
  · rw [ht.magnitude, value_abs ha]
    exact abs_ne_zero.mpr ht.ne_zero

theorem Prints.value_coefficient (ha : a.isFinite = true) (ht : Prints a k t) :
    Double.value t.coefficient = Double.value a := by
  rw [(ht.sound ha).value_coefficient, ht.negative, ht.magnitude, value_abs ha]
  split
  · next hneg =>
    rw [decide_eq_true_iff, lt_zero_iff ha] at hneg
    rw [abs_of_neg hneg, neg_neg]
  · next hnonneg =>
    rw [decide_eq_true_iff, lt_zero_iff ha, not_lt] at hnonneg
    exact abs_of_nonneg hnonneg

/-- Each term is that of an entry other than zero. -/
theorem PrintsAll.prints (h : PrintsAll p n ts) (ht : t ∈ ts) :
    t.power < n ∧ Prints (p.getD t.power 0) t.power t := by
  induction h with
  | nil => cases ht
  | skip _ _ ih =>
    obtain ⟨hlt, hprints⟩ := ih ht
    exact ⟨Nat.lt_succ_of_lt hlt, hprints⟩
  | cons hfirst _ ih =>
    rcases List.mem_cons.mp ht with rfl | ht
    · rw [hfirst.power_eq]
      exact ⟨Nat.lt_succ_self _, hfirst⟩
    · obtain ⟨hlt, hprints⟩ := ih ht
      exact ⟨Nat.lt_succ_of_lt hlt, hprints⟩

/-- Each entry other than zero has a term. -/
theorem PrintsAll.exists_mem (h : PrintsAll p n ts) (hk : k < n) (hne : Double.value (p.getD k 0) ≠ 0) :
    ∃ t ∈ ts, t.power = k := by
  induction h with
  | nil => cases hk
  | skip hzero _ ih =>
    rcases Nat.lt_succ_iff_lt_or_eq.mp hk with hlt | rfl
    · exact ih hlt
    · exact absurd hzero hne
  | cons hfirst _ ih =>
    rcases Nat.lt_succ_iff_lt_or_eq.mp hk with hlt | rfl
    · obtain ⟨t, ht, hpower⟩ := ih hlt
      exact ⟨t, List.mem_cons_of_mem _ ht, hpower⟩
    · exact ⟨_, List.mem_cons_self, hfirst.power_eq⟩

/-- The first term is that of the last entry other than zero. -/
theorem PrintsAll.tail (h : PrintsAll p n (t :: ts)) :
    PrintsAll p t.power ts ∧ ∀ i, t.power < i → i < n → Double.value (p.getD i 0) = 0 := by
  generalize hall : t :: ts = all at h
  induction h with
  | nil => cases hall
  | skip hzero _ ih =>
    obtain ⟨htail, hbehind⟩ := ih hall
    refine ⟨htail, fun i hi hin => ?_⟩
    rcases Nat.lt_succ_iff_lt_or_eq.mp hin with hlt | rfl
    · exact hbehind i hi hlt
    · exact hzero
  | cons hfirst hts _ =>
    cases hall
    rw [hfirst.power_eq]
    exact ⟨hts, fun i hi hin => absurd hin (by omega)⟩

theorem PrintsAll.sound (hp : ∀ i, (p.getD i 0).isFinite = true) (h : PrintsAll p n ts) :
    ∀ t ∈ ts, t.Sound :=
  fun _ ht => (h.prints ht).2.sound (hp _)

theorem PrintsAll.ne_readPower (h : PrintsAll p n ts) (hread : ∀ t ∈ ts, readPower t.power = t.power)
    (hi : n ≤ i) :
    ∀ t ∈ ts, i ≠ readPower t.power := by
  intro t ht
  have hlt := (h.prints ht).1
  rw [hread t ht]
  omega

/-- Where all powers are read as they are, the terms set the entries they are printed for. -/
theorem PrintsAll.entry_gather (hp : ∀ i, (p.getD i 0).isFinite = true) (h : PrintsAll p n ts)
    (hread : ∀ t ∈ ts, readPower t.power = t.power) (hi : i < n) (hq : Entry q i 0) :
    Entry (gather q ts) i (Double.value (p.getD i 0)) := by
  induction h generalizing q with
  | nil => cases hi
  | skip hzero hts ih =>
    rcases Nat.lt_succ_iff_lt_or_eq.mp hi with hlt | rfl
    · exact ih hread hlt hq
    · rw [hzero]
      exact entry_gather_of_ne (hts.sound hp) (hts.ne_readPower hread le_rfl) hq
  | cons hfirst hts ih =>
    have hsound := hfirst.sound (hp _)
    rw [List.forall_mem_cons] at hread
    have hjoin := entry_join hsound hq fun _ => rfl
    rw [hread.1, hfirst.power_eq] at hjoin
    rw [gather_cons]
    rcases Nat.lt_succ_iff_lt_or_eq.mp hi with hlt | rfl
    · rw [if_neg hlt.ne] at hjoin
      exact ih hread.2 hlt hjoin
    · rw [if_pos rfl, hfirst.value_coefficient (hp _)] at hjoin
      exact entry_gather_of_ne (hts.sound hp) (hts.ne_readPower hread.2 le_rfl) hjoin

/-- The vector that is read has the values of the vector that was printed, where all powers are read as
they are. -/
theorem PrintsAll.entry_vectorOf (hp : ∀ i, (p.getD i 0).isFinite = true) (h : PrintsAll p p.length ts)
    (hread : ∀ t ∈ ts, readPower t.power = t.power) (i : ℕ) :
    Entry (vectorOf ts) i (Double.value (p.getD i 0)) := by
  have hout (hi : ∀ t ∈ ts, i ≠ readPower t.power) (hzero : Double.value (p.getD i 0) = 0) :
      Entry (vectorOf ts) i (Double.value (p.getD i 0)) := by
    rw [hzero]
    exact entry_vectorOf_of_ne (h.sound hp) hi
  rcases Nat.lt_or_ge i p.length with hlt | hge
  · cases ts with
    | nil =>
      refine hout (by simp) (by_contra fun hne => ?_)
      obtain ⟨t, ht, -⟩ := h.exists_mem hlt hne
      cases ht
    | cons t ts =>
      obtain ⟨htail, hbehind⟩ := h.tail
      have hsound := h.sound hp
      have hfirst := entry_firstVector (hsound t List.mem_cons_self) i
      have hthere := hread t List.mem_cons_self
      have hrest : ∀ u ∈ ts, readPower u.power = u.power := fun u hu => hread u (List.mem_cons_of_mem t hu)
      rw [hthere] at hfirst
      rcases Nat.lt_trichotomy i t.power with hbelow | rfl | habove
      · rw [if_neg hbelow.ne] at hfirst
        exact htail.entry_gather hp hrest hbelow hfirst
      · rw [if_pos rfl, (h.prints List.mem_cons_self).2.value_coefficient (hp _)] at hfirst
        exact entry_gather_of_ne (htail.sound hp) (htail.ne_readPower hrest le_rfl) hfirst
      · refine hout (List.forall_mem_cons.mpr ⟨?_, htail.ne_readPower hrest habove.le⟩)
          (hbehind i habove hlt)
        rw [hthere]
        exact habove.ne'
  · exact hout (h.ne_readPower hread hge) (value_getD_of_length_le hge)

theorem PrintsAll.isFinite_vectorOf (hp : ∀ i, (p.getD i 0).isFinite = true)
    (h : PrintsAll p p.length ts) (hread : ∀ t ∈ ts, readPower t.power = t.power) :
    ∀ a ∈ vectorOf ts, a.isFinite = true := by
  intro a ha
  obtain ⟨i, hi, rfl⟩ := List.getElem_of_mem ha
  have hfinite := (h.entry_vectorOf hp hread i).finite
  rwa [List.getD_eq_getElem _ _ hi] at hfinite

end Coeffs

end PolyPlot
