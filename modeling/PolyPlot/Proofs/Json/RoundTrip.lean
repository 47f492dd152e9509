import PolyPlot.Proofs.Json.Members
import PolyPlot.Proofs.Json.Number

namespace PolyPlot.Json

open Decimal

variable {c : Char} {s rest : List Char} {v : Json} {items : List Json} {members : List (String × Json)}
  {key : String} {budget : Nat}

/-- A value that JSON text can write: its doubles are finite, and no object in it has a key twice. -/
inductive Proper : Json → Prop
  | null : Proper null
  | bool (b : Bool) : Proper (bool b)
  | int (n : ℤ) : Proper (int n)
  | float {x : Float} (hx : x.isFinite = true) : Proper (float x)
  | text (s : String) : Proper (text s)
  | array {items : List Json} (hitems : ∀ v ∈ items, Proper v) : Proper (array items)
  | object {members : List (String × Json)} (hkeys : (members.map Prod.fst).Nodup)
      (hmembers : ∀ m ∈ members, Proper m.2) : Proper (object members)

/-- A value is read back from its text and the text behind it, whatever that is. -/
def ReadsBack (v : Json) : Prop :=
  ∀ budget rest, EndsValue rest → 2 * (lineChars v).length ≤ budget + 1 →
    readValue budget (lineChars v ++ rest) = .ok (v, rest)

/-- A text begins a value: with neither a blank nor a bracket that closes. -/
def BeginsValue (s : List Char) : Prop :=
  ∃ c r, s = c :: r ∧ isSpace c = false ∧ c ≠ ']'

theorem beginsValue_cons (hspace : isSpace c = false) (hclosing : c ≠ ']') : BeginsValue (c :: rest) :=
  ⟨c, rest, rfl, hspace, hclosing⟩

theorem BeginsValue.append (h : BeginsValue s) (rest : List Char) : BeginsValue (s ++ rest) := by
  obtain ⟨c, r, rfl, hspace, hclosing⟩ := h
  exact beginsValue_cons hspace hclosing

theorem BeginsValue.skipSpace_eq (h : BeginsValue s) : skipSpace s = s := by
  obtain ⟨c, r, rfl, hspace, -⟩ := h
  exact List.dropWhile_cons_of_neg (by rw [hspace]; decide)

theorem BeginsNumber.append (h : BeginsNumber s) (rest : List Char) : BeginsNumber (s ++ rest) := by
  obtain ⟨negative, c, r, rfl, hc⟩ := h
  exact ⟨negative, c, r ++ rest, by rw [List.append_assoc, List.cons_append], hc⟩

theorem BeginsNumber.beginsValue (h : BeginsNumber s) : BeginsValue s := by
  obtain ⟨negative, c, r, rfl, hc⟩ := h
  cases negative with
  | true => exact beginsValue_cons (by decide) (by decide)
  | false =>
    have hc' : c ≠ ' ' ∧ c ≠ '\t' ∧ c ≠ '\n' ∧ c ≠ '\r' ∧ c ≠ ']' := by
      refine ⟨?_, ?_, ?_, ?_, ?_⟩ <;> (rintro rfl; cases hc)
    refine beginsValue_cons ?_ hc'.2.2.2.2
    simp [isSpace, hc'.1, hc'.2.1, hc'.2.2.1, hc'.2.2.2.1]

theorem floatChars_of_isFinite {x : Float} (hx : x.isFinite = true) : floatChars x = writtenChars x := by
  obtain ⟨negative, m, e, hparts⟩ := Double.isFinite_iff.mp hx
  unfold floatChars
  rw [hparts]

theorem Proper.beginsValue (hv : v.Proper) : BeginsValue (lineChars v) := by
  cases hv with
  | null => exact ⟨'n', _, rfl, by decide, by decide⟩
  | bool b => cases b <;> exact ⟨_, _, rfl, by decide, by decide⟩
  | int n => exact (beginsNumber_intText n).beginsValue
  | float hx =>
    rw [lineChars, floatChars_of_isFinite hx]
    exact (beginsNumber_writtenChars hx).beginsValue
  | text s => exact ⟨'"', _, rfl, by decide, by decide⟩
  | array => exact ⟨'[', _, rfl, by decide, by decide⟩
  | object => exact ⟨'{', _, rfl, by decide, by decide⟩

theorem readScalar_of_beginsNumber (h : BeginsNumber s) : readScalar s = readNumber s := by
  obtain ⟨negative, c, r, rfl, hc⟩ := h
  have hc' : c ≠ 'n' ∧ c ≠ 't' ∧ c ≠ 'f' ∧ c ≠ 'N' ∧ c ≠ 'I' ∧ c ≠ '-' := by
    refine ⟨?_, ?_, ?_, ?_, ?_, ?_⟩ <;> (rintro rfl; cases hc)
  cases negative with
  | true => rw [sign, if_pos rfl, List.singleton_append, readScalar] <;> simp [hc']
  | false => rw [sign, if_neg (by decide), List.nil_append, readScalar] <;> simp [hc']

/-- A number is read where neither a bracket, a quote nor a name begins. -/
theorem readValue_of_beginsNumber (h : BeginsNumber s) (budget : Nat) :
    readValue (budget + 1) s = readNumber s := by
  rw [← readScalar_of_beginsNumber h]
  obtain ⟨negative, c, r, rfl, hc⟩ := h
  cases negative with
  | true => rw [sign, if_pos rfl, List.singleton_append, readValue] <;> simp
  | false =>
    have hc' : c ≠ '"' ∧ c ≠ '[' ∧ c ≠ '{' := by
      refine ⟨?_, ?_, ?_⟩ <;> (rintro rfl; cases hc)
    rw [sign, if_neg (by decide), List.nil_append, readValue] <;> simp [hc']

theorem Proper.length_pos (hv : v.Proper) : 0 < (lineChars v).length := by
  obtain ⟨c, r, hchars, -, -⟩ := hv.beginsValue
  rw [hchars]
  exact Nat.succ_pos _

/-- A value has a text, so some of the budget is there. -/
theorem readsBack_of_succ (hv : v.Proper)
    (h : ∀ budget rest, EndsValue rest → 2 * (lineChars v).length ≤ budget + 2 →
      readValue (budget + 1) (lineChars v ++ rest) = .ok (v, rest)) : ReadsBack v := by
  intro budget rest hrest hbudget
  have hpos := hv.length_pos
  obtain ⟨b, rfl⟩ : ∃ b, budget = b + 1 := Nat.exists_eq_succ_of_ne_zero (by omega)
  exact h b rest hrest hbudget

section Items

theorem itemsLine_cons_cons (v w : Json) (items : List Json) : lineChars.itemsLine (v :: w :: items) =
    lineChars v ++ ',' :: ' ' :: lineChars.itemsLine (w :: items) := by
  rw [lineChars.itemsLine]
  simp

theorem beginsValue_itemsLine (hv : v.Proper) (items : List Json) :
    BeginsValue (lineChars.itemsLine (v :: items)) := by
  cases items with
  | nil =>
    rw [lineChars.itemsLine]
    exact hv.beginsValue
  | cons w items =>
    rw [itemsLine_cons_cons]
    exact hv.beginsValue.append _

/-- The text of items with a bracket behind is read back item by item. -/
theorem readItems_itemsLine (hitems : ∀ w ∈ v :: items, w.Proper) (hback : ∀ w ∈ v :: items, ReadsBack w)
    (rest : List Char) (hbudget : 2 * (lineChars.itemsLine (v :: items)).length ≤ budget) :
    readItems budget (lineChars.itemsLine (v :: items) ++ ']' :: rest) = .ok (v :: items, rest) := by
  induction items generalizing v budget with
  | nil =>
    have hpos := (hitems v List.mem_cons_self).length_pos
    have hclosed : EndsValue (']' :: rest) := endsValue_cons (by simp)
    rw [lineChars.itemsLine] at hbudget ⊢
    obtain ⟨b, rfl⟩ : ∃ b, budget = b + 1 := Nat.exists_eq_succ_of_ne_zero (by omega)
    rw [readItems, hback v List.mem_cons_self b _ hclosed (by omega)]
    rfl
  | cons w items ih =>
    have hpos := (hitems v List.mem_cons_self).length_pos
    rw [itemsLine_cons_cons, List.length_append, List.length_cons, List.length_cons] at hbudget
    obtain ⟨b, rfl⟩ : ∃ b, budget = b + 1 := Nat.exists_eq_succ_of_ne_zero (by omega)
    have hmore := (beginsValue_itemsLine (hitems w (by simp)) items).append (']' :: rest)
    have hnext := ih (fun u hu => hitems u (List.mem_cons_of_mem v hu))
      (fun u hu => hback u (List.mem_cons_of_mem v hu)) (by omega : _ ≤ b)
    have hopen : EndsValue (',' :: ' ' :: (lineChars.itemsLine (w :: items) ++ ']' :: rest)) :=
      endsValue_cons (by simp)
    have hcomma : skipSpace (',' :: ' ' :: (lineChars.itemsLine (w :: items) ++ ']' :: rest)) =
        ',' :: ' ' :: (lineChars.itemsLine (w :: items) ++ ']' :: rest) := rfl
    have hblank : skipSpace (' ' :: (lineChars.itemsLine (w :: items) ++ ']' :: rest)) =
        lineChars.itemsLine (w :: items) ++ ']' :: rest := hmore.skipSpace_eq
    rw [itemsLine_cons_cons, List.append_assoc, List.cons_append, List.cons_append, readItems,
      hback v List.mem_cons_self b _ hopen (by omega)]
    simp only [bind, Except.bind, hcomma, hblank, hnext]

theorem readsBack_array (hitems : ∀ v ∈ items, v.Proper) (hback : ∀ v ∈ items, ReadsBack v) :
    ReadsBack (array items) := by
  refine readsBack_of_succ (.array hitems) fun budget rest _ hbudget => ?_
  rw [lineChars] at hbudget ⊢
  cases items with
  | nil => rfl
  | cons v items =>
    have hlength : 2 * (lineChars.itemsLine (v :: items)).length ≤ budget := by
      simp only [List.length_cons, List.length_append] at hbudget
      omega
    have hread := readItems_itemsLine hitems hback rest hlength
    have hfirst := (beginsValue_itemsLine (hitems v List.mem_cons_self) items).append (']' :: rest)
    have hskip := hfirst.skipSpace_eq
    obtain ⟨c, r, hchars, -, hclosing⟩ := hfirst
    have htext : '[' :: lineChars.itemsLine (v :: items) ++ [']'] ++ rest = '[' :: c :: r := by
      rw [← hchars]
      simp
    rw [hchars] at hread hskip
    rw [htext, readValue, hskip]
    split
    · next hclosed =>
      cases hclosed
      exact absurd rfl hclosing
    · rw [hread]
      rfl

end Items

section Members

theorem membersLine_singleton (key : String) (v : Json) :
    lineChars.membersLine [(key, v)] = quoted key ++ ':' :: ' ' :: lineChars v := by
  rw [lineChars.membersLine]

theorem membersLine_cons_cons (key : String) (v : Json) (m : String × Json) (members : List (String × Json)) :
    lineChars.membersLine ((key, v) :: m :: members) =
      quoted key ++ ':' :: ' ' :: (lineChars v ++ ',' :: ' ' :: lineChars.membersLine (m :: members)) := by
  rw [lineChars.membersLine]
  · simp
  · simp

theorem beginsValue_membersLine (m : String × Json) (members : List (String × Json)) (rest : List Char) :
    ∃ r, lineChars.membersLine (m :: members) ++ rest = '"' :: r := by
  obtain ⟨key, v⟩ := m
  cases members with
  | nil =>
    rw [membersLine_singleton]
    exact ⟨_, rfl⟩
  | cons m' members =>
    rw [membersLine_cons_cons]
    exact ⟨_, rfl⟩

section Member

variable {read : List (String × Json)} (hv : v.Proper) (hback : ReadsBack v) (hkey : key ∉ read.map Prod.fst)
  (hbudget : 2 * (lineChars v).length ≤ budget + 1)

include hv hback hkey hbudget

/-- The last member of an object comes behind those already read. -/
theorem readMembers_last (rest : List Char) :
    readMembers (budget + 1) read (quoted key ++ ':' :: ' ' :: (lineChars v ++ '}' :: rest)) =
      .ok (read ++ [(key, v)], rest) := by
  have hclosed : EndsValue ('}' :: rest) := endsValue_cons (by simp)
  have hcolon (s : List Char) : skipSpace (':' :: s) = ':' :: s := rfl
  have hblank : skipSpace (' ' :: (lineChars v ++ '}' :: rest)) = lineChars v ++ '}' :: rest :=
    (hv.beginsValue.append _).skipSpace_eq
  rw [readMembers, readString_quoted]
  simp only [bind, Except.bind, hcolon, hblank, hback budget _ hclosed hbudget, put_eq_append hkey]
  rfl

/-- A member in front of a comma comes behind those already read, and the next one is read. -/
theorem readMembers_next (rest : List Char) :
    readMembers (budget + 1) read (quoted key ++ ':' :: ' ' :: (lineChars v ++ ',' :: ' ' :: '"' :: rest)) =
      readMembers budget (read ++ [(key, v)]) ('"' :: rest) := by
  have hopen : EndsValue (',' :: ' ' :: '"' :: rest) := endsValue_cons (by simp)
  have hcolon (s : List Char) : skipSpace (':' :: s) = ':' :: s := rfl
  have hblank : skipSpace (' ' :: (lineChars v ++ ',' :: ' ' :: '"' :: rest)) =
      lineChars v ++ ',' :: ' ' :: '"' :: rest := (hv.beginsValue.append _).skipSpace_eq
  rw [readMembers, readString_quoted]
  simp only [bind, Except.bind, hcolon, hblank, hback budget _ hopen hbudget, put_eq_append hkey]
  rfl

end Member

theorem not_mem_keys_of_nodup {read : List (String × Json)} {m : String × Json}
    (hkeys : ((read ++ m :: members).map Prod.fst).Nodup) : m.1 ∉ read.map Prod.fst := by
  rw [List.map_append, List.nodup_append] at hkeys
  exact fun hmem => hkeys.2.2 m.1 hmem m.1 (by simp) rfl

/-- The text of members with a bracket behind is read back member by member, behind those already read. -/
theorem readMembers_membersLine (read : List (String × Json)) {m : String × Json}
    (hkeys : ((read ++ m :: members).map Prod.fst).Nodup)
    (hmembers : ∀ m' ∈ m :: members, m'.2.Proper) (hback : ∀ m' ∈ m :: members, ReadsBack m'.2)
    (rest : List Char) (hbudget : 2 * (lineChars.membersLine (m :: members)).length ≤ budget) :
    readMembers budget read (lineChars.membersLine (m :: members) ++ '}' :: rest) =
      .ok (read ++ m :: members, rest) := by
  induction members generalizing read m budget with
  | nil =>
    have hkey := not_mem_keys_of_nodup hkeys
    have hv := hmembers m List.mem_cons_self
    obtain ⟨key, v⟩ := m
    rw [membersLine_singleton] at hbudget ⊢
    simp only [List.length_append, List.length_cons] at hbudget
    obtain ⟨b, rfl⟩ : ∃ b, budget = b + 1 := Nat.exists_eq_succ_of_ne_zero (by omega)
    rw [List.append_assoc, List.cons_append, List.cons_append]
    exact readMembers_last hv (hback _ List.mem_cons_self) hkey (by dsimp only; omega) rest
  | cons m' members ih =>
    have hkey := not_mem_keys_of_nodup hkeys
    have hv := hmembers m List.mem_cons_self
    have hkeys' : ((read ++ [m] ++ m' :: members).map Prod.fst).Nodup := by
      rwa [List.append_assoc]
    obtain ⟨key, v⟩ := m
    rw [membersLine_cons_cons] at hbudget ⊢
    simp only [List.length_append, List.length_cons] at hbudget
    obtain ⟨b, rfl⟩ : ∃ b, budget = b + 1 := Nat.exists_eq_succ_of_ne_zero (by omega)
    have hnext := ih (read ++ [(key, v)]) hkeys' (fun u hu => hmembers u (List.mem_cons_of_mem _ hu))
      (fun u hu => hback u (List.mem_cons_of_mem _ hu)) (by omega : _ ≤ b)
    obtain ⟨r, hr⟩ := beginsValue_membersLine m' members ('}' :: rest)
    have htext : quoted key ++ ':' :: ' ' :: (lineChars v ++ ',' :: ' ' ::
        lineChars.membersLine (m' :: members)) ++ '}' :: rest =
          quoted key ++ ':' :: ' ' :: (lineChars v ++ ',' :: ' ' :: '"' :: r) := by
      rw [← hr]
      simp
    rw [hr] at hnext
    rw [htext, readMembers_next hv (hback _ List.mem_cons_self) hkey (by dsimp only; omega), hnext,
      List.append_assoc]
    rfl

theorem readsBack_object (hkeys : (members.map Prod.fst).Nodup) (hmembers : ∀ m ∈ members, m.2.Proper)
    (hback : ∀ m ∈ members, ReadsBack m.2) : ReadsBack (object members) := by
  refine readsBack_of_succ (.object hkeys hmembers) fun budget rest _ hbudget => ?_
  rw [lineChars] at hbudget ⊢
  cases members with
  | nil => rfl
  | cons m members =>
    have hlength : 2 * (lineChars.membersLine (m :: members)).length ≤ budget := by
      simp only [List.length_cons, List.length_append] at hbudget
      omega
    have hread := readMembers_membersLine [] hkeys hmembers hback rest hlength
    obtain ⟨r, hr⟩ := beginsValue_membersLine m members ('}' :: rest)
    have htext : '{' :: lineChars.membersLine (m :: members) ++ ['}'] ++ rest = '{' :: '"' :: r := by
      rw [← hr]
      simp
    have hskip : skipSpace ('"' :: r) = '"' :: r := rfl
    rw [hr] at hread
    rw [htext, readValue, hskip]
    change (readMembers budget [] ('"' :: r)).map _ = _
    rw [hread]
    rfl

end Members

theorem readsBack_int (n : ℤ) : ReadsBack (int n) := by
  refine readsBack_of_succ (.int n) fun budget rest hrest _ => ?_
  rw [lineChars, readValue_of_beginsNumber ((beginsNumber_intText n).append rest), readNumber_intText n hrest]

theorem readsBack_float {x : Float} (hx : x.isFinite = true) : ReadsBack (float x) := by
  refine readsBack_of_succ (.float hx) fun budget rest hrest _ => ?_
  rw [lineChars, floatChars_of_isFinite hx,
    readValue_of_beginsNumber ((beginsNumber_writtenChars hx).append rest), readNumber_writtenChars hx hrest]

theorem readsBack_text (s : String) : ReadsBack (text s) := by
  refine readsBack_of_succ (.text s) fun budget rest _ _ => ?_
  have hread := readString_quoted s rest
  rw [lineChars]
  change (readString (quoted s ++ rest)).map _ = _
  rw [hread]
  rfl

/-- A value is read back from its text and the text behind it. -/
theorem Proper.readsBack (hv : v.Proper) : ReadsBack v := by
  induction hv with
  | null => exact readsBack_of_succ .null fun _ _ _ _ => rfl
  | bool b =>
    refine readsBack_of_succ (.bool b) fun _ _ _ _ => ?_
    cases b <;> rfl
  | int n => exact readsBack_int n
  | float hx => exact readsBack_float hx
  | text s => exact readsBack_text s
  | array hitems ih => exact readsBack_array hitems ih
  | object hkeys hmembers ih => exact readsBack_object hkeys hmembers ih

end PolyPlot.Json
