import Mathlib.Tactic.IntervalCases
import PolyPlot.Json.Reader
import PolyPlot.Json.Writer

namespace PolyPlot.Json

variable {n : Nat} {c : Char} {rest opening : List Char}

/-- A character is visible ASCII or a blank. -/
def IsVisible (c : Char) : Prop :=
  0x20 ≤ c.toNat ∧ c.toNat < 0x7F

instance : DecidablePred IsVisible :=
  fun c => inferInstanceAs (Decidable (0x20 ≤ c.toNat ∧ c.toNat < 0x7F))

/-- The units of sixteen bits that stand for a character. -/
def units (c : Char) : List Nat :=
  if c.toNat < 0x10000 then [c.toNat]
  else [0xD800 + (c.toNat - 0x10000) / 0x400, 0xDC00 + (c.toNat - 0x10000) % 0x400]

theorem hexValue?_hexDigit (hn : n < 16) : hexValue? (hexDigit n) = some n := by
  interval_cases n <;> rfl

/-- The four digits of a unit write it. -/
theorem hexUnit?_digits (hn : n < 0x10000) :
    hexUnit? (hexDigit (n / 4096 % 16)) (hexDigit (n / 256 % 16)) (hexDigit (n / 16 % 16)) (hexDigit (n % 16)) =
      some n := by
  have hsum : 4096 * (n / 4096 % 16) + 256 * (n / 256 % 16) + 16 * (n / 16 % 16) + n % 16 = n := by omega
  simp only [hexUnit?, hexValue?_hexDigit (Nat.mod_lt _ (by decide : 0 < 16)), bind, Option.bind, pure, hsum]

theorem toNat_lt (c : Char) : c.toNat < 0x110000 := by
  have hvalid : c.toNat.isValidChar := c.valid
  unfold Nat.isValidChar at hvalid
  omega

/-- The digits of a unit put it in front of what is read behind them. -/
theorem readUnits_unitEscape (hn : n < 0x10000) (hrest : rest ≠ []) :
    readUnits opening (unitEscape n ++ rest) =
      (readUnits opening rest).map fun (units, after) => (n :: units, after) := by
  obtain ⟨c, r, rfl⟩ := List.exists_cons_of_ne_nil hrest
  simp only [unitEscape, List.cons_append, List.nil_append]
  exact readUnits.eq_3 _ _ _ _ _ n c r (hexUnit?_digits hn)

/-- A letter behind a backslash stands for a character. -/
theorem readUnits_escaped {e : Char} (he : escaped? c = some e) :
    readUnits opening ('\\' :: c :: rest) =
      (readUnits opening rest).map fun (units, after) => (e.toNat :: units, after) := by
  have hc : c ≠ 'u' := by
    rintro rfl
    cases he
  rw [readUnits, he]
  · exact fun _ _ _ _ _ h => absurd h hc
  · exact hc

/-- A visible character that is not escaped stands for itself. -/
theorem readUnits_cons (hc : IsVisible c) (hquote : c ≠ '"') (hslash : c ≠ '\\') :
    readUnits opening (c :: rest) =
      (readUnits opening rest).map fun (units, after) => (c.toNat :: units, after) := by
  rw [readUnits, if_neg (Nat.not_lt_of_le hc.1)]
  · exact hquote
  all_goals intros; contradiction

theorem map_units (u v : List Nat) (r : Except Refusal (List Nat × List Char)) :
    (r.map fun (units, after) => (v ++ units, after)).map (fun (units, after) => (u ++ units, after)) =
      r.map fun (units, after) => (u ++ v ++ units, after) := by
  cases r with
  | error _ => rfl
  | ok _ => simp [Except.map]

/-- What is written for a character is read as its units. -/
theorem readUnits_escape (c : Char) (hrest : rest ≠ []) :
    readUnits opening (escape c ++ rest) =
      (readUnits opening rest).map fun (more, after) => (units c ++ more, after) := by
  unfold escape
  split
  · exact readUnits_escaped rfl
  · exact readUnits_escaped rfl
  · exact readUnits_escaped rfl
  · exact readUnits_escaped rfl
  · exact readUnits_escaped rfl
  · exact readUnits_escaped rfl
  · exact readUnits_escaped rfl
  · next hquote hslash _ _ _ _ _ =>
    dsimp only
    split
    · next hvisible =>
      have hunits : units c = [c.toNat] := if_pos (by omega)
      rw [hunits]
      exact readUnits_cons hvisible hquote hslash
    · split
      · next hsmall =>
        have hunits : units c = [c.toNat] := if_pos hsmall
        rw [hunits]
        exact readUnits_unitEscape hsmall hrest
      · next hlarge =>
        have hlast := toNat_lt c
        have hunits : units c = [0xD800 + (c.toNat - 0x10000) / 0x400, 0xDC00 + (c.toNat - 0x10000) % 0x400] :=
          if_neg hlarge
        have hlow : unitEscape (0xDC00 + (c.toNat - 0x10000) % 0x400) ++ rest ≠ [] := by simp [unitEscape]
        rw [hunits, List.append_assoc, readUnits_unitEscape (by omega) hlow,
          readUnits_unitEscape (by omega) hrest]
        exact map_units [_] [_] _

/-- The units of a text end at its closing quote. -/
theorem readUnits_flatMap (s rest : List Char) :
    readUnits opening (s.flatMap escape ++ '"' :: rest) = .ok (s.flatMap units, rest) := by
  induction s with
  | nil => rw [List.flatMap_nil, List.nil_append, readUnits, List.flatMap_nil]
  | cons c s ih =>
    rw [List.flatMap_cons, List.append_assoc, readUnits_escape c (by simp), ih]
    rfl

theorem joinSurrogates_cons (hn : n < 0xD800 ∨ 0xE000 ≤ n) (us : List Nat) :
    joinSurrogates (n :: us) = Char.ofNat n :: joinSurrogates us := by
  have hsingle : joinSurrogates.single n = Char.ofNat n := if_neg (by omega)
  cases us with
  | nil => exact congrArg (fun c => [c]) hsingle
  | cons low us => rw [joinSurrogates, if_neg (by omega), hsingle]

theorem joinSurrogates_pair {a b : Nat} (ha : a < 0x400) (hb : b < 0x400) (us : List Nat) :
    joinSurrogates ((0xD800 + a) :: (0xDC00 + b) :: us) =
      Char.ofNat (0x10000 + a * 0x400 + b) :: joinSurrogates us := by
  rw [joinSurrogates, if_pos (by omega), Nat.add_sub_cancel_left, Nat.add_sub_cancel_left]

/-- The units of a text are joined to the text. -/
theorem joinSurrogates_flatMap (s : List Char) : joinSurrogates (s.flatMap units) = s := by
  induction s with
  | nil => rfl
  | cons c s ih =>
    have hlast := toNat_lt c
    rw [List.flatMap_cons, units]
    split
    · next hsmall =>
      have hvalid : c.toNat.isValidChar := c.valid
      unfold Nat.isValidChar at hvalid
      rw [List.singleton_append, joinSurrogates_cons (by omega), Char.ofNat_toNat, ih]
    · next hlarge =>
      have hjoined : 0x10000 + (c.toNat - 0x10000) / 0x400 * 0x400 + (c.toNat - 0x10000) % 0x400 = c.toNat := by
        omega
      rw [List.cons_append, List.singleton_append, joinSurrogates_pair (by omega) (by omega), hjoined,
        Char.ofNat_toNat, ih]

/-- A string is read back from what is written for it. -/
theorem readString_quoted (s : String) (rest : List Char) :
    readString (quoted s ++ rest) = .ok (s, rest) := by
  have hquoted : quoted s ++ rest = '"' :: (s.toList.flatMap escape ++ '"' :: rest) := by
    simp [quoted]
  rw [hquoted, readString, readUnits_flatMap]
  simp only [Except.map, joinSurrogates_flatMap, String.ofList_toList]

end PolyPlot.Json
