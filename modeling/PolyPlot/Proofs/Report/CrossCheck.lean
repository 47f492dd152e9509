import PolyPlot.Proofs.Coeffs.Tolerance
import PolyPlot.Proofs.Evaluation.Compilation
import PolyPlot.Proofs.Exact.Agreement
import PolyPlot.Proofs.Exact.System
import PolyPlot.Report.CrossCheck

namespace PolyPlot

namespace Report

open Expression (normalize rawVector compileWith)
open Grammar (Derives Symbol)

/-- A text of the grammar has none but the characters that are let through. -/
theorem isGrammatical_of_derives {α : Type} {value? : Numeral → Option α} {symbol : Symbol}
    {s : List Char} {t : Tree α} (h : Derives value? symbol s t) : ∀ c ∈ s, isGrammatical c = true := by
  have hsigns : Grammar.signs.all isGrammatical = true := by decide
  exact h.forall_mem (fun c hc => by simp [isGrammatical, hc]) (List.all_eq_true.mp hsigns)

theorem mem_of_occursIn {pattern s : List Char} (h : occursIn pattern s = true) :
    ∀ c ∈ pattern, c ∈ s := by
  induction s with
  | nil =>
    rw [occursIn, List.isEmpty_iff] at h
    simp [h]
  | cons d s ih =>
    rw [occursIn, Bool.or_eq_true] at h
    intro c hc
    rcases h with h | h
    · exact (List.isPrefixOf_iff_prefix.mp h).subset hc
    · exact List.mem_cons_of_mem d (ih h c hc)

/-- Every blocked pattern has a character that is not of the grammar. -/
theorem exists_not_isGrammatical {pattern : String} (h : pattern ∈ blockedPatterns) :
    ∃ c ∈ pattern.toList, isGrammatical c = false := by
  simp only [blockedPatterns, List.mem_cons, List.not_mem_nil, or_false] at h
  rcases h with rfl | rfl | rfl | rfl
  · exact ⟨'_', by decide, rfl⟩
  · exact ⟨'i', by decide, rfl⟩
  · exact ⟨'e', by decide, rfl⟩
  · exact ⟨'e', by decide, rfl⟩

/-- The filter lets through every text whose normal form can be read. -/
theorem sanitize_of_read {limit : Option Nat} {text : String} {t : Tree Float}
    (hread : Tree.read limit (normalize text) = .ok t) : sanitize text = .ok (normalize text) := by
  have hderives := Grammar.derives_of_tree hread
  have hgrammatical := isGrammatical_of_derives hderives
  have hblocked : (blockedPatterns.find? fun p => occursIn p.toList (normalize text).toList) = none := by
    rw [List.find?_eq_none]
    intro pattern hpattern hoccurs
    obtain ⟨c, hc, hnot⟩ := exists_not_isGrammatical hpattern
    rw [hgrammatical c (mem_of_occursIn hoccurs c hc)] at hnot
    cases hnot
  have hne : (normalize text).isEmpty = false := by
    rw [Bool.eq_false_iff]
    intro hempty
    rw [String.isEmpty_iff.mp hempty] at hread
    cases limit <;> cases hread
  have hall : (normalize text).toList.all isGrammatical = true := List.all_eq_true.mpr hgrammatical
  simp [sanitize, hne, hblocked, hall]

variable {limits : Limits ℚ} {levels : ℕ} {maxLength : Option ℤ} {text : String} {raw c : Coeffs ℚ}
  {V : Type} {S : Exact.System V}

end Report

end PolyPlot
