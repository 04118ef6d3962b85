import Haulage.Proofs.Json.Tokens

/-!
# Objects of texts read back

An object whose values are all texts is read back from its compact form. Where a key occurs more
than once its last value counts, as for any object that is read.

- `takes_readValue_string`: a text is read back.
- `exists_readMembers`: so are the further members of an object.
- `read_compact_texts`: so is the object.
-/

set_option autoImplicit false

namespace Haulage.Json

open Value

/-- Members whose values are texts. -/
def textMembers (entries : List (String × String)) : Members :=
  entries.map fun e => (e.1, .string e.2)

/-- A text is read back. -/
theorem takes_readValue_string (fuel allowed : Nat) (s : String) :
    Takes (readValue (fuel + 1) allowed) (stringChars s) (.string s) := by
  intro rest place
  have hquote := skipGap_cons (c := '"') rfl ((s.toList.flatMap escapedChar ++ ['"']) ++ rest) place
  obtain ⟨after, hbody⟩ := takes_readStringBody s rest (place.after '"')
  refine ⟨after, ?_⟩
  have hchars : stringChars s ++ rest =
      '"' :: ((s.toList.flatMap escapedChar ++ ['"']) ++ rest) := rfl
  have hdigit : Numeric.isDecimalDigit '"' = false := rfl
  rw [readValue, hchars, hquote]
  simp only [Char.reduceEq, if_false, if_true, hdigit, Bool.false_eq_true, Cursor.advance, hbody]
  rfl

section Members

variable {fuel allowed : Nat}

/-- A member is bound, and reading goes on behind it. -/
theorem exists_readMembers_member (fuel allowed : Nat) (first : Bool) (e : String × String)
    (soFar : Members) (rest : List Char) (place : Position) :
    ∃ after, readMembers (fuel + 2) allowed first soFar
        ⟨memberHead first [] e.1 ++ (stringChars e.2 ++ rest), place⟩ =
      readMembers (fuel + 1) allowed false (soFar.set e.1 (.string e.2)) ⟨rest, after⟩ := by
  obtain ⟨opened, closed, behind, hkey, hbody, hcolon⟩ :=
    exists_memberHead first isGap_nil e.1 (stringChars e.2 ++ rest) place
  obtain ⟨after, hvalue⟩ := takes_readValue_string fuel allowed e.2 rest behind
  refine ⟨after, ?_⟩
  rw [readMembers]
  simp only [hkey, hbody, hcolon, hvalue]

/-- The further members of an object are bound in turn. -/
theorem exists_readMembers (entries : List (String × String)) (soFar : Members)
    (hfuel : entries.length < fuel) (rest : List Char) (place : Position) :
    ∃ after, readMembers fuel allowed false soFar
        ⟨compactMembers (textMembers entries) ++ rest, place⟩ =
      .ok (.object (soFar.update (textMembers entries)), ⟨rest, after⟩) := by
  -- each member costs one unit of fuel, and its value needs one more
  induction entries generalizing soFar fuel place with
  | nil =>
      obtain ⟨fuel, rfl⟩ := Nat.exists_eq_succ_of_ne_zero (Nat.ne_of_gt hfuel)
      obtain ⟨after, hdone⟩ := exists_nextKey_done false isGap_nil rest place
      refine ⟨after, ?_⟩
      rw [readMembers, textMembers, List.map_nil, compactMembers]
      simp only [List.nil_append] at hdone
      simp only [List.cons_append, List.nil_append, hdone]
      rfl
  | cons e more ih =>
      obtain ⟨fuel, rfl⟩ : ∃ n, fuel = n + 2 :=
        ⟨fuel - 2, by rw [List.length_cons] at hfuel; omega⟩
      obtain ⟨behind, hmember⟩ := exists_readMembers_member fuel allowed false e soFar
        (compactMembers (textMembers more) ++ rest) place
      obtain ⟨after, hmore⟩ :=
        ih (soFar.set e.1 (.string e.2)) (Nat.lt_of_succ_lt_succ hfuel) behind
      have hupdate : soFar.update (textMembers (e :: more)) =
          (soFar.set e.1 (.string e.2)).update (textMembers more) := rfl
      refine ⟨after, ?_⟩
      rw [hupdate, ← hmore, ← hmember]
      simp [textMembers, compactMembers, compactChars, memberHead, memberLead]

end Members

/-- The characters of an object of texts behind its opening brace. -/
def textsBody : List (String × String) → List Char
  | [] => ['\x7d']
  | e :: more =>
    memberHead true [] e.1 ++ (stringChars e.2 ++ compactMembers (textMembers more))

theorem toList_compact_texts (entries : List (String × String)) :
    (Value.object (textMembers entries)).compact.toList = '\x7b' :: textsBody entries := by
  cases entries with
  | nil => rfl
  | cons e more =>
      simp [compact, textMembers, compactChars, textsBody, memberHead, memberLead]

theorem length_le_compactMembers (entries : List (String × String)) :
    entries.length ≤ (compactMembers (textMembers entries)).length := by
  induction entries with
  | nil => exact Nat.zero_le _
  | cons e more ih =>
      simp only [textMembers] at ih
      simp only [textMembers, List.map_cons, compactMembers, List.length_append, List.length_cons]
      omega

/-- All members of an object of texts are read back. -/
theorem exists_readMembers_texts (allowed : Nat) (entries : List (String × String))
    (place : Position) :
    ∃ after, readMembers (2 * ((textsBody entries).length + 1) + 1) allowed true []
        ⟨textsBody entries, place⟩ =
      .ok (.object (Members.update [] (textMembers entries)), ⟨[], after⟩) := by
  cases entries with
  | nil =>
      obtain ⟨after, hdone⟩ := exists_nextKey_done true isGap_nil [] place
      refine ⟨after, ?_⟩
      simp only [List.nil_append] at hdone
      rw [readMembers]
      simp only [textsBody, hdone]
      rfl
  | cons e more =>
      have hlength := length_le_compactMembers more
      generalize hfuel : 2 * ((textsBody (e :: more)).length + 1) + 1 = fuel
      obtain ⟨fuel, rfl⟩ : ∃ n, fuel = n + 2 := ⟨fuel - 2, by omega⟩
      have henough : more.length < fuel + 1 := by
        simp only [textsBody, List.length_append] at hfuel
        omega
      obtain ⟨behind, hmember⟩ := exists_readMembers_member fuel allowed true e []
        (compactMembers (textMembers more)) place
      obtain ⟨after, hmore⟩ := exists_readMembers more (Members.set [] e.1 (.string e.2)) henough []
        behind
      rw [List.append_nil] at hmore
      exact ⟨after, hmember.trans hmore⟩

/-- An object of texts is read back from its compact form. -/
theorem read_compact_texts (entries : List (String × String)) :
    read (Value.object (textMembers entries)).compact =
      .ok (.object (Members.update [] (textMembers entries))) := by
  have hopen := skipGap_cons (c := '\x7b') rfl (textsBody entries) ⟨1, 0⟩
  have hdigit : Numeric.isDecimalDigit '\x7b' = false := rfl
  obtain ⟨after, hmembers⟩ :=
    exists_readMembers_texts (deepest - 1) entries (Position.after ⟨1, 0⟩ '\x7b')
  have hvalue : readValue (2 * ((textsBody entries).length + 1) + 2) deepest
      ⟨'\x7b' :: textsBody entries, ⟨1, 0⟩⟩ =
        .ok (.object (Members.update [] (textMembers entries)), ⟨[], after⟩) := by
    rw [readValue, hopen]
    simp only [Char.reduceEq, if_false, if_true, hdigit, Bool.false_eq_true]
    exact hmembers
  rw [read, Cursor.start, toList_compact_texts]
  simp only [Cursor.fuel, List.length_cons]
  rw [hvalue]
  simp only [readEnd_nil]
  rfl

end Haulage.Json
