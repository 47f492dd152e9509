import PolyPlot.Proofs.Evaluation.Relation
import PolyPlot.Proofs.Printer.Entry
import PolyPlot.Proofs.Printer.Text

namespace PolyPlot.PrintedTerm

open Coeffs Double

variable {limits : Limits Float} {t : PrintedTerm} {ts : List PrintedTerm} {k : ℕ} {q v : Coeffs Float}

/-- The whole number that a power is read as is allowed; `x` by itself is no power. -/
def Allowed (limits : Limits Float) (k : ℕ) : Prop :=
  k < 2 ∨ (readPower k : ℤ) ≤ limits.maxExponent

/-- All numbers in a tree are finite. -/
abbrev Finite (d : Tree Numeral) : Prop :=
  d.AllLiterals fun n => n.toDouble.isFinite = true

theorem exponent_ofRat (hfinite : (ofRat k).isFinite = true) :
    Tree.exponent [ofRat k] = .ok (readPower k : ℤ) := by
  have hscalar : Scalar.isFinite (ofRat (k : ℚ)) = true := hfinite
  unfold Tree.exponent
  dsimp only
  rw [if_pos hscalar, floor_add_half_ofRat hfinite]
  rfl

theorem powerTree_succ_succ (k : ℕ) :
    powerTree (k + 2) = .power .x (.literal ⟨Decimal.text (k + 2), []⟩) :=
  rfl

theorem evaluates_powerTree_iff (hk : 0 < k) (hfinite : Finite (powerTree k)) :
    Tree.Evaluates limits ((powerTree k).map Numeral.toDouble) q ↔
      Allowed limits k ∧ q = monomial (readPower k) 1 := by
  match k, hk with
  | 1, _ =>
    have hone : readPower 1 = 1 := readPower_of_le (by decide)
    rw [hone]
    constructor
    · intro h
      cases h
      exact ⟨.inl one_lt_two, rfl⟩
    · rintro ⟨-, rfl⟩
      exact .x
  | k + 2, _ =>
    rw [powerTree_succ_succ] at hfinite ⊢
    obtain ⟨-, hnumeral⟩ := hfinite
    have hfinite' : (ofRat ((k + 2 : ℕ) : ℚ)).isFinite = true := Decimal.toDouble_text (k + 2) ▸ hnumeral
    have hexponent := exponent_ofRat hfinite'
    have hmap : (Tree.power .x (.literal ⟨Decimal.text (k + 2), []⟩)).map Numeral.toDouble =
        .power .x (.literal (ofRat ((k + 2 : ℕ) : ℚ))) := by
      rw [Tree.map, Tree.map, Tree.map, Decimal.toDouble_text]
    rw [hmap]
    constructor
    · intro h
      cases h with
      | power hb he hn hr =>
        cases hb
        cases he
        rw [hexponent] at hn
        cases hn
        obtain ⟨⟨-, hmost⟩, rfl⟩ := Tree.raise_eq_ok_iff.mp hr
        exact ⟨.inr hmost, power_x _⟩
    · rintro ⟨hallowed, rfl⟩
      have hmost := hallowed.resolve_left (by omega)
      exact .power .x (.literal _) hexponent
        (Tree.raise_eq_ok_iff.mpr ⟨⟨Int.natCast_nonneg _, hmost⟩, (power_x _).symm⟩)

/-- The number in front of the power of a term, with the sign of a first term. -/
def coefficient (t : PrintedTerm) : Float :=
  if t.negative then -t.magnitude else t.magnitude

/-- The vector of a first term. Where a sign stands before a power, zeros are negated with it. -/
def firstVector (t : PrintedTerm) : Coeffs Float :=
  if t.negative ∧ t.numeral? = none then (monomial (readPower t.power) 1).negate
  else monomial (readPower t.power) t.coefficient

/-- A vector with the vector of a further term added to it or subtracted from it. -/
def join (q : Coeffs Float) (t : PrintedTerm) : Coeffs Float :=
  if t.negative then q.subtract (monomial (readPower t.power) t.magnitude)
  else q.add (monomial (readPower t.power) t.magnitude)

/-- A vector with further terms. -/
def gather (q : Coeffs Float) (ts : List PrintedTerm) : Coeffs Float :=
  ts.foldl join q

theorem gather_cons (q : Coeffs Float) (t : PrintedTerm) (ts : List PrintedTerm) :
    gather q (t :: ts) = gather (join q t) ts :=
  rfl

/-- A term that makes sense: its magnitude is a finite number other than zero. -/
structure Sound (t : PrintedTerm) : Prop where
  wellFormed : t.WellFormed
  finite : t.magnitude.isFinite = true
  ne_zero : Double.value t.magnitude ≠ 0

theorem readPower_zero : readPower 0 = 0 :=
  readPower_of_le (by decide)

theorem allowed_zero : Allowed limits 0 :=
  .inl two_pos

theorem evaluates_literal_iff {a : Float} : Tree.Evaluates limits (.literal a) q ↔ q = [a] := by
  constructor
  · intro h
    cases h
    rfl
  · rintro rfl
    exact .literal a

/-- A coefficient times a power of `x`. -/
theorem evaluates_product_iff {d : Tree Numeral} {a : Float}
    (hd : ∀ p, Tree.Evaluates limits (d.map Numeral.toDouble) p ↔ p = [a]) (ha : a.isFinite = true)
    (hne : Double.value a ≠ 0) (hk : 0 < k) (hfinite : Finite (powerTree k)) :
    Tree.Evaluates limits (Tree.map Numeral.toDouble (.binary .multiply d (powerTree k))) q ↔
      Allowed limits k ∧ q = monomial (readPower k) a := by
  rw [Tree.map]
  constructor
  · intro h
    cases h with
    | binary hleft hright hr =>
      obtain rfl := (hd _).mp hleft
      obtain ⟨hallowed, rfl⟩ := (evaluates_powerTree_iff hk hfinite).mp hright
      cases hr
      exact ⟨hallowed, multiply_monomial ha hne _⟩
  · rintro ⟨hallowed, rfl⟩
    refine .binary ((hd _).mpr rfl) ((evaluates_powerTree_iff hk hfinite).mpr ⟨hallowed, rfl⟩) ?_
    rw [Tree.combine, multiply_monomial ha hne]

theorem evaluates_body_iff (ht : t.Sound) (hfinite : Finite t.bodyTree) :
    Tree.Evaluates limits (t.bodyTree.map Numeral.toDouble) q ↔
      Allowed limits t.power ∧ q = monomial (readPower t.power) t.magnitude := by
  obtain ⟨hwf, hmagnitude, hne⟩ := ht
  unfold WellFormed at hwf
  unfold magnitude at hmagnitude hne ⊢
  unfold bodyTree at hfinite ⊢
  cases hnumeral : t.numeral? with
  | none =>
    rw [hnumeral] at hwf hfinite
    exact evaluates_powerTree_iff hwf hfinite
  | some n =>
    rw [hnumeral] at hmagnitude hne hfinite
    dsimp only at hmagnitude hne hfinite ⊢
    rcases Nat.eq_zero_or_pos t.power with hzero | hpos
    · rw [if_pos hzero, hzero, readPower_zero, Tree.map, evaluates_literal_iff]
      exact (and_iff_right allowed_zero).symm
    · rw [if_neg hpos.ne'] at hfinite ⊢
      exact evaluates_product_iff (fun p => evaluates_literal_iff) hmagnitude hne hpos hfinite.2

theorem evaluates_negate_iff {d : Tree Float} {p : Coeffs Float}
    (hd : ∀ q, Tree.Evaluates limits d q ↔ Allowed limits k ∧ q = p) :
    Tree.Evaluates limits (.negate d) q ↔ Allowed limits k ∧ q = p.negate := by
  constructor
  · intro h
    cases h with
    | negate hp =>
      obtain ⟨hallowed, rfl⟩ := (hd _).mp hp
      exact ⟨hallowed, rfl⟩
  · rintro ⟨hallowed, rfl⟩
    exact .negate ((hd _).mpr ⟨hallowed, rfl⟩)

theorem evaluates_first_iff (ht : t.Sound) (hfinite : Finite t.firstTree) :
    Tree.Evaluates limits (t.firstTree.map Numeral.toDouble) q ↔
      Allowed limits t.power ∧ q = t.firstVector := by
  unfold firstTree at hfinite ⊢
  unfold firstVector coefficient
  cases hnegative : t.negative with
  | false =>
    rw [hnegative] at hfinite
    simpa using evaluates_body_iff ht hfinite
  | true =>
    obtain ⟨hwf, hmagnitude, hne⟩ := ht
    rw [hnegative] at hfinite
    unfold WellFormed at hwf
    unfold magnitude at hmagnitude hne ⊢
    cases hnumeral : t.numeral? with
    | none =>
      rw [hnumeral] at hwf hfinite
      have hpower (p : Coeffs Float) := @evaluates_powerTree_iff limits _ p hwf hfinite
      have hnegate := evaluates_negate_iff (q := q) hpower
      simpa [Tree.map] using hnegate
    | some n =>
      rw [hnumeral] at hmagnitude hne hfinite
      have hopposite (p : Coeffs Float) :
          Tree.Evaluates limits (.negate (.literal n.toDouble)) p ↔ p = [-n.toDouble] := by
        have hliteral (q : Coeffs Float) :
            Tree.Evaluates limits (.literal n.toDouble) q ↔ Allowed limits 0 ∧ q = [n.toDouble] :=
          evaluates_literal_iff.trans (and_iff_right allowed_zero).symm
        exact (evaluates_negate_iff hliteral).trans (and_iff_right allowed_zero)
      have hsome : ¬ (True ∧ some n = none) := by simp
      simp only [if_true] at hmagnitude hne hfinite ⊢
      rw [if_neg hsome]
      rcases Nat.eq_zero_or_pos t.power with hzero | hpos
      · rw [if_pos hzero, hzero, readPower_zero, and_iff_right allowed_zero]
        exact hopposite q
      · rw [if_neg hpos.ne'] at hfinite ⊢
        exact evaluates_product_iff hopposite (isFinite_neg hmagnitude)
          (by rw [value_neg hmagnitude]; exact neg_ne_zero.mpr hne) hpos hfinite.2

theorem evaluates_join_iff {d : Tree Numeral} (ht : t.Sound) (hfinite : Finite t.bodyTree) :
    Tree.Evaluates limits (Tree.map Numeral.toDouble (.binary t.operator d t.bodyTree)) v ↔
      Allowed limits t.power ∧ ∃ q, Tree.Evaluates limits (d.map Numeral.toDouble) q ∧ v = join q t := by
  have hbody (p : Coeffs Float) := @evaluates_body_iff limits t p ht hfinite
  have hcombine (q : Coeffs Float) :
      Tree.combine limits t.operator q (monomial (readPower t.power) t.magnitude) = .ok (join q t) := by
    unfold operator join
    split <;> rfl
  rw [Tree.map]
  constructor
  · intro h
    cases h with
    | binary hleft hright hr =>
      obtain ⟨hallowed, rfl⟩ := (hbody _).mp hright
      rw [hcombine] at hr
      cases hr
      exact ⟨hallowed, _, hleft, rfl⟩
  · rintro ⟨hallowed, q, hleft, rfl⟩
    exact .binary hleft ((hbody _).mpr ⟨hallowed, rfl⟩) (hcombine q)

theorem chain_cons (d : Tree Numeral) (t : PrintedTerm) (ts : List PrintedTerm) :
    chain d (t :: ts) = chain (.binary t.operator d t.bodyTree) ts :=
  rfl

theorem finite_chain_iff {d : Tree Numeral} :
    Finite (chain d ts) ↔ Finite d ∧ ∀ t ∈ ts, Finite t.bodyTree := by
  induction ts generalizing d with
  | nil => simp [chain]
  | cons t ts ih =>
    rw [chain_cons, ih, List.forall_mem_cons, ← and_assoc]
    rfl

/-- A chain of terms has the vector that its terms are gathered in. -/
theorem evaluates_chain_iff {d : Tree Numeral} (hts : ∀ t ∈ ts, t.Sound)
    (hfinite : ∀ t ∈ ts, Finite t.bodyTree) :
    Tree.Evaluates limits ((chain d ts).map Numeral.toDouble) v ↔
      (∀ t ∈ ts, Allowed limits t.power) ∧
        ∃ q, Tree.Evaluates limits (d.map Numeral.toDouble) q ∧ v = gather q ts := by
  induction ts generalizing d with
  | nil => simp [chain, gather]
  | cons t ts ih =>
    rw [List.forall_mem_cons] at hts hfinite ⊢
    rw [chain_cons, ih hts.2 hfinite.2]
    constructor
    · rintro ⟨hallowed, q', hq', rfl⟩
      obtain ⟨hfirst, q, hq, rfl⟩ := (evaluates_join_iff hts.1 hfinite.1).mp hq'
      exact ⟨⟨hfirst, hallowed⟩, q, hq, rfl⟩
    · rintro ⟨⟨hfirst, hallowed⟩, q, hq, rfl⟩
      exact ⟨hallowed, _, (evaluates_join_iff hts.1 hfinite.1).mpr ⟨hfirst, q, hq, rfl⟩, rfl⟩

section Entries

variable {p : Coeffs Float} {i n : ℕ} {u : ℚ}

theorem Sound.isFinite_coefficient (ht : t.Sound) : t.coefficient.isFinite = true := by
  unfold coefficient
  split
  · exact isFinite_neg ht.finite
  · exact ht.finite

theorem Sound.value_coefficient (ht : t.Sound) :
    Double.value t.coefficient =
      if t.negative then -Double.value t.magnitude else Double.value t.magnitude := by
  unfold coefficient
  split
  · exact value_neg ht.finite
  · rfl

theorem entry_firstVector (ht : t.Sound) (i : ℕ) :
    Entry t.firstVector i (if i = readPower t.power then Double.value t.coefficient else 0) := by
  unfold firstVector
  split
  · next hminus =>
    have hentry := (entry_monomial isFinite_one (readPower t.power) i).negate
    have hmagnitude : t.magnitude = 1 := by
      unfold magnitude
      rw [hminus.2]
    rw [ht.value_coefficient, hminus.1, if_pos rfl, hmagnitude]
    have hsplit : -(if i = readPower t.power then Double.value 1 else 0) =
        if i = readPower t.power then -Double.value 1 else 0 := by
      split <;> simp
    rwa [hsplit] at hentry
  · exact entry_monomial ht.isFinite_coefficient _ _

/-- A further term changes only the entry of the power it is read with, and that one exactly if it was
zero. -/
theorem entry_join (ht : t.Sound) (hq : Entry q i u) (h : i = readPower t.power → u = 0) :
    Entry (join q t) i (if i = readPower t.power then Double.value t.coefficient else u) := by
  have hterm := entry_monomial ht.finite (readPower t.power) i
  have hzero : u = 0 ∨ (if i = readPower t.power then Double.value t.magnitude else 0) = 0 := by
    by_cases hi : i = readPower t.power
    · exact .inl (h hi)
    · exact .inr (if_neg hi)
  rw [ht.value_coefficient]
  unfold join
  cases t.negative with
  | false =>
    have hsum := hq.add hterm hzero
    by_cases hi : i = readPower t.power
    · simpa [hi, h hi] using hsum
    · simpa [hi] using hsum
  | true =>
    have hdifference := hq.subtract hterm hzero
    by_cases hi : i = readPower t.power
    · simpa [hi, h hi] using hdifference
    · simpa [hi] using hdifference

end Entries

end PolyPlot.PrintedTerm
