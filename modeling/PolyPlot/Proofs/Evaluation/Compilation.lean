import PolyPlot.Expression.Compilation
import PolyPlot.Proofs.Evaluation.Relation
import PolyPlot.Proofs.Grammar.Completeness
import PolyPlot.Proofs.Grammar.Refusal

namespace PolyPlot

theorem Tree.map_id {α : Type} (t : Tree α) : t.map id = t := by
  induction t with
  | literal v => rfl
  | x => rfl
  | negate t ih => rw [map, ih]
  | binary op a b iha ihb => rw [map, iha, ihb]
  | power b e ihb ihe => rw [map, ihb, ihe]

namespace Expression

variable {α : Type} [Scalar α] {literal : Float → α} {limits : Limits α} {levels : Option Nat}
  {maxLength : Option Int} {text : String} {p q : Coeffs α}

theorem requireFinite_eq_ok_iff :
    requireFinite p = .ok q ↔ (∀ a ∈ p, Scalar.isFinite a = true) ∧ p = q := by
  unfold requireFinite
  rw [← List.all_eq_true]
  split
  · next h => simp [h]
  · next h => simp [h]

/-- A text has a vector before its canonical form exactly if it passes the screen, is read as a tree,
and that has a vector of finite numbers. -/
theorem rawVector_eq_ok_iff : rawVector literal limits levels maxLength text = .ok p ↔
    screen maxLength text = .ok () ∧ ∃ t, Tree.read levels (normalize text) = .ok t ∧
      (t.map literal).evaluateUpTo limits levels = .ok p ∧ ∀ a ∈ p, Scalar.isFinite a = true := by
  unfold rawVector
  constructor
  · intro h
    obtain ⟨_, hscreen, h⟩ := bind_eq_ok_iff.mp h
    obtain ⟨t, hread, h⟩ := bind_eq_ok_iff.mp h
    obtain ⟨raw, hevaluate, h⟩ := bind_eq_ok_iff.mp h
    obtain ⟨hfinite, rfl⟩ := requireFinite_eq_ok_iff.mp (mapError_eq_ok_iff.mp h)
    exact ⟨hscreen, t, mapError_eq_ok_iff.mp hread, hevaluate, hfinite⟩
  · rintro ⟨hscreen, t, hread, hevaluate, hfinite⟩
    have hrequire : requireFinite p = .ok p := requireFinite_eq_ok_iff.mpr ⟨hfinite, rfl⟩
    exact bind_eq_ok_iff.mpr ⟨(), hscreen, bind_eq_ok_iff.mpr ⟨t,
      mapError_eq_ok_iff.mpr hread, bind_eq_ok_iff.mpr ⟨p, hevaluate, mapError_eq_ok_iff.mpr hrequire⟩⟩⟩

/-- A text whose normal form has a syntax tree is not blank. -/
theorem screen_of_derives {symbol : Grammar.Symbol} {d : Tree Numeral}
    (hd : Grammar.Syntax symbol (normalChars text.toList) d) : screen none text = .ok () := by
  unfold screen
  rw [if_neg]
  intro hblank
  have hfilter : text.toList.filter (fun c => !Text.isBlank c) = [] := by simpa using hblank
  apply hd.ne_nil
  unfold normalChars
  rw [hfilter]
  rfl

/-- The vector of a text whose normal form has a syntax tree. -/
theorem compileWith_eq_ok_iff {limits : Limits Float} {d : Tree Numeral} {v : Coeffs Float}
    (hd : Grammar.Syntax .expression (normalChars text.toList) d) :
    compileWith id limits none none text = .ok v ↔
      d.AllLiterals (fun n => n.toDouble.isFinite) ∧
        ∃ raw, Tree.Evaluates limits (d.map Numeral.toDouble) raw ∧
        (∀ a ∈ raw, a.isFinite = true) ∧ raw.canonical limits.epsilon = v := by
  have hnormal : (normalize text).toList = normalChars text.toList := by
    rw [normalize, String.toList_ofList]
  have hevaluate (t : Tree Float) (raw : Coeffs Float) :
      (t.map id).evaluateUpTo limits none = .ok raw ↔ Tree.Evaluates limits t raw := by
    rw [Tree.map_id, Tree.evaluateUpTo_eq_ok_iff]
    simp
  unfold compileWith
  rw [map_eq_ok_iff]
  constructor
  · rintro ⟨raw, hraw, hv⟩
    obtain ⟨-, t, hread, hevaluates, hfinite⟩ := rawVector_eq_ok_iff.mp hraw
    obtain ⟨d', hd', hliterals, rfl⟩ := Grammar.read_eq_ok_iff.mp hread
    rw [hnormal] at hd'
    obtain rfl := hd.unique hd'
    exact ⟨hliterals, raw, (hevaluate _ _).mp hevaluates, hfinite, hv⟩
  · rintro ⟨hliterals, raw, hevaluates, hfinite, hv⟩
    have hread : Tree.read none (normalize text) = .ok (d.map Numeral.toDouble) :=
      Grammar.read_eq_ok_iff.mpr ⟨d, hnormal.symm ▸ hd, hliterals, rfl⟩
    have hraw := rawVector_eq_ok_iff.mpr
      ⟨screen_of_derives hd, _, hread, (hevaluate _ _).mpr hevaluates, hfinite⟩
    exact ⟨raw, hraw, hv⟩

end Expression

end PolyPlot
