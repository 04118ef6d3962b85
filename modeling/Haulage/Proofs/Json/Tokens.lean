import Haulage.Json.Reader
import Haulage.Json.Value
import Mathlib.Tactic.SplitIfs

/-!
# Reading what was printed, token by token

A printed token is read back wherever it stands and whatever follows it, and the cursor then stands
right behind it. Where exactly that is on the page does not matter to what is read, so each
statement leaves the place open.

- `Takes`: a reader takes a value from the front of a text.
- `exists_skipGap`: blanks are passed over.
- `takes_readStringBody`: an escaped string is read back.
- `exists_memberHead`: so is the head of a member, its key and colon.
-/

set_option autoImplicit false

namespace Haulage.Json

open Haulage.Text

/-- A reader takes a value from the characters at the front of any text, wherever that text
stands. -/
def Takes {α : Type} (read : Cursor → Reading α) (chars : List Char) (v : α) : Prop :=
  ∀ rest place, ∃ after, read ⟨chars ++ rest, place⟩ = .ok (v, ⟨rest, after⟩)

/-! ## Blanks -/

/-- Characters that may stand between tokens. -/
def IsGap (gap : List Char) : Prop :=
  ∀ c ∈ gap, Cursor.isGap c = true

theorem isGap_nil : IsGap [] := by
  intro c hc
  cases hc

theorem isGap_space : IsGap [' '] := by
  intro c hc
  rw [List.mem_singleton.mp hc]
  rfl

theorem isGap_newline (level : Nat) : IsGap (Value.newline level) := by
  intro c hc
  rcases List.mem_cons.mp hc with rfl | hc
  · rfl
  · rw [List.eq_of_mem_replicate hc]
    rfl

theorem skipGap_cons {c : Char} (hc : Cursor.isGap c = false) (rest : List Char)
    (place : Position) : Cursor.skipGap ⟨c :: rest, place⟩ = ⟨c :: rest, place⟩ := by
  rw [Cursor.skipGap, hc, if_neg Bool.false_ne_true]

/-- Blanks are passed over up to the next token. -/
theorem exists_skipGap {gap : List Char} (hgap : IsGap gap) {c : Char}
    (hc : Cursor.isGap c = false) (rest : List Char) (place : Position) :
    ∃ after, Cursor.skipGap ⟨gap ++ c :: rest, place⟩ = ⟨c :: rest, after⟩ := by
  induction gap generalizing place with
  | nil => exact ⟨place, skipGap_cons hc rest place⟩
  | cons b gap ih =>
      have hb : Cursor.isGap b = true := hgap b List.mem_cons_self
      obtain ⟨after, h⟩ := ih (fun c hc => hgap c (List.mem_cons_of_mem _ hc)) (place.after b)
      exact ⟨after, by rw [List.cons_append, Cursor.skipGap, if_pos hb, h]⟩

/-- Nothing is left of a text that has been read to its end. -/
theorem readEnd_nil (place : Position) : readEnd ⟨[], place⟩ = .ok () := by
  rw [readEnd, Cursor.skipGap]

/-! ## Strings -/

theorem afterBytes?_succ_cons {c : Char} (hline : c ≠ '\n') (hsize : c.utf8Size = 1)
    (place : Position) (n : Nat) (rest : List Char) :
    place.afterBytes? (n + 1) (c :: rest) =
      Position.afterBytes? ⟨place.line, place.column + 1⟩ n rest := by
  rw [Position.afterBytes?, if_neg hline, hsize, if_pos (by omega)]
  rfl

theorem hexDigit_isPlain : ∀ n, n < 16 → hexDigit n ≠ '\n' ∧ (hexDigit n).utf8Size = 1 := by
  decide

/-- Four hexadecimal digits of which the first two are zero are read as the value of
the other two. -/
theorem exists_readHex {high low : Nat} (hhigh : high < 16) (hlow : low < 16) (rest : List Char)
    (place : Position) :
    ∃ after, readHex ⟨'0' :: '0' :: hexDigit high :: hexDigit low :: rest, place⟩ =
      .ok (high * 16 + low, ⟨rest, after⟩) := by
  have hzero : hexValue? '0' = some 0 := rfl
  obtain ⟨hhighLine, hhighSize⟩ := hexDigit_isPlain high hhigh
  obtain ⟨hlowLine, hlowSize⟩ := hexDigit_isPlain low hlow
  have hplace : ∃ after, place.afterBytes? 4 ('0' :: '0' :: hexDigit high :: hexDigit low :: rest) =
      some after := by
    rw [afterBytes?_succ_cons (by decide) rfl, afterBytes?_succ_cons (by decide) rfl,
      afterBytes?_succ_cons hhighLine hhighSize, afterBytes?_succ_cons hlowLine hlowSize,
      Position.afterBytes?]
    exact ⟨_, rfl⟩
  obtain ⟨after, hafter⟩ := hplace
  refine ⟨after, ?_⟩
  simp [readHex, hafter, hzero, hexValue?_hexDigit high hhigh, hexValue?_hexDigit low hlow]

/-- A character that is escaped by its code is read back. -/
theorem exists_readEscape_code {c : Char} (hc : c.toNat < 0x20) (rest : List Char)
    (place : Position) :
    ∃ after, readEscape
        ⟨'u' :: '0' :: '0' :: hexDigit (c.toNat / 16) :: hexDigit (c.toNat % 16) :: rest, place⟩ =
      .ok (c, ⟨rest, after⟩) := by
  have hshort : shortEscape? 'u' = none := rfl
  have hhigh : c.toNat / 16 < 16 := by omega
  have hlow : c.toNat % 16 < 16 := by omega
  have hvalue : c.toNat / 16 * 16 + c.toNat % 16 = c.toNat := by omega
  obtain ⟨after, hhex⟩ := exists_readHex hhigh hlow rest (place.after 'u')
  rw [hvalue] at hhex
  refine ⟨after, ?_⟩
  simp only [readEscape, hshort, if_true, Cursor.advance, readUnicodeEscape, hhex]
  rw [if_neg (by omega), if_pos (by omega), Char.ofNat_toNat]

/-- The three forms in which a character stands in a string: a short escape, an escape by its code,
and the character itself. -/
theorem escapedChar_cases (c : Char) :
    (∃ letter, escapedChar c = ['\\', letter] ∧ shortEscape? letter = some c) ∨
      (escapedChar c = ['\\', 'u', '0', '0', hexDigit (c.toNat / 16), hexDigit (c.toNat % 16)] ∧
        c.toNat < 0x20) ∨
      escapedChar c = [c] ∧ c ≠ '"' ∧ c ≠ '\\' ∧ ¬c.toNat < 0x20 := by
  rw [escapedChar]
  split_ifs with hquote hback hbackspace hfeed hnewline hreturn htab hcode
  · exact .inl ⟨'"', rfl, by rw [hquote]; rfl⟩
  · exact .inl ⟨'\\', rfl, by rw [hback]; rfl⟩
  · exact .inl ⟨'b', rfl, by rw [hbackspace]; rfl⟩
  · exact .inl ⟨'f', rfl, by rw [hfeed]; rfl⟩
  · exact .inl ⟨'n', rfl, by rw [hnewline]; rfl⟩
  · exact .inl ⟨'r', rfl, by rw [hreturn]; rfl⟩
  · exact .inl ⟨'t', rfl, by rw [htab]; rfl⟩
  · exact .inr (.inl ⟨rfl, hcode⟩)
  · exact .inr (.inr ⟨rfl, hquote, hback, hcode⟩)

section StringBody

variable (soFar : List Char) (rest : List Char) (place : Position)

theorem readStringBody_quote :
    readStringBody soFar ⟨'"' :: rest, place⟩ =
      .ok (String.ofList soFar.reverse, ⟨rest, place.after '"'⟩) := by
  rw [readStringBody]
  rfl

theorem readStringBody_escape {e : Char} {next : Cursor}
    (h : readEscape ⟨rest, place.after '\\'⟩ = .ok (e, next)) :
    readStringBody soFar ⟨'\\' :: rest, place⟩ = readStringBody (e :: soFar) next := by
  rw [readStringBody]
  simp only [Cursor.advance, Char.reduceEq, if_false, if_true]
  split
  · rename_i e' h'
    rw [h] at h'
    cases h'
  · rename_i e' next' h'
    rw [h] at h'
    cases h'
    rfl

theorem readStringBody_plain {c : Char} (hquote : c ≠ '"') (hback : c ≠ '\\')
    (hcode : ¬c.toNat < 0x20) :
    readStringBody soFar ⟨c :: rest, place⟩ =
      readStringBody (c :: soFar) ⟨rest, place.after c⟩ := by
  rw [readStringBody]
  simp only [hquote, hback, hcode, if_false]
  rfl

/-- The escaped form of a character is read as that character. -/
theorem exists_readStringBody_escapedChar (c : Char) :
    ∃ after, readStringBody soFar ⟨escapedChar c ++ rest, place⟩ =
      readStringBody (c :: soFar) ⟨rest, after⟩ := by
  rcases escapedChar_cases c with ⟨letter, hform, hletter⟩ | ⟨hform, hcode⟩ |
    ⟨hform, hquote, hback, hcode⟩
  · have hescape : readEscape ⟨letter :: rest, place.after '\\'⟩ =
        .ok (c, ⟨rest, (place.after '\\').after letter⟩) := by
      simp only [readEscape, hletter]
      rfl
    exact ⟨_, by rw [hform]; exact readStringBody_escape soFar _ place hescape⟩
  · obtain ⟨after, hescape⟩ := exists_readEscape_code hcode rest (place.after '\\')
    exact ⟨after, by rw [hform]; exact readStringBody_escape soFar _ place hescape⟩
  · exact ⟨_, by rw [hform]; exact readStringBody_plain soFar rest place hquote hback hcode⟩

theorem exists_readStringBody (s : List Char) :
    ∃ after, readStringBody soFar ⟨s.flatMap escapedChar ++ '"' :: rest, place⟩ =
      .ok (String.ofList (soFar.reverse ++ s), ⟨rest, after⟩) := by
  induction s generalizing soFar place with
  | nil => exact ⟨_, by rw [List.append_nil]; exact readStringBody_quote soFar rest place⟩
  | cons c more ih =>
      obtain ⟨behind, hc⟩ := exists_readStringBody_escapedChar soFar
        (more.flatMap escapedChar ++ '"' :: rest) place c
      obtain ⟨after, hmore⟩ := ih (c :: soFar) behind
      refine ⟨after, ?_⟩
      rw [List.flatMap_cons, List.append_assoc, hc, hmore, List.reverse_cons, List.append_assoc]
      rfl

end StringBody

/-- A printed string is read back from behind its opening quote. -/
theorem takes_readStringBody (s : String) :
    Takes (readStringBody []) (s.toList.flatMap escapedChar ++ ['"']) s := by
  intro rest place
  obtain ⟨after, h⟩ := exists_readStringBody [] rest place s.toList
  refine ⟨after, ?_⟩
  rw [List.append_assoc]
  rw [List.reverse_nil, List.nil_append, String.ofList_toList] at h
  exact h

/-! ## Members of objects -/

/-- What comes before the key of a member: blanks, and a comma unless the member is the first. -/
def memberLead (first : Bool) (gap : List Char) : List Char :=
  if first then gap else ',' :: gap

/-- A member up to its colon. -/
def memberHead (first : Bool) (gap : List Char) (key : String) : List Char :=
  memberLead first gap ++ (stringChars key ++ [':'])

theorem exists_nextKey (first : Bool) {gap : List Char} (hgap : IsGap gap) (rest : List Char)
    (place : Position) :
    ∃ after, nextKey first ⟨memberLead first gap ++ '"' :: rest, place⟩ =
      .ok (.key ⟨rest, after⟩) := by
  cases first with
  | true =>
      obtain ⟨quote, hskip⟩ := exists_skipGap hgap (c := '"') rfl rest place
      refine ⟨quote.after '"', ?_⟩
      simp only [nextKey, memberLead, if_true, hskip]
      rfl
  | false =>
      have hcomma := skipGap_cons (c := ',') rfl (gap ++ '"' :: rest) place
      obtain ⟨quote, hskip⟩ := exists_skipGap hgap (c := '"') rfl rest (place.after ',')
      refine ⟨quote.after '"', ?_⟩
      simp only [nextKey, memberLead, Bool.false_eq_true, if_false, List.cons_append, hcomma,
        Cursor.advance, hskip]
      rfl

theorem exists_nextKey_done (first : Bool) {gap : List Char} (hgap : IsGap gap) (rest : List Char)
    (place : Position) :
    ∃ after, nextKey first ⟨gap ++ '\x7d' :: rest, place⟩ = .ok (.done ⟨rest, after⟩) := by
  obtain ⟨brace, hskip⟩ := exists_skipGap hgap (c := '\x7d') rfl rest place
  refine ⟨brace.after '\x7d', ?_⟩
  simp only [nextKey, hskip]
  rfl

theorem exists_readColon (rest : List Char) (place : Position) :
    ∃ after, readColon ⟨':' :: rest, place⟩ = .ok ⟨rest, after⟩ := by
  refine ⟨place.after ':', ?_⟩
  simp only [readColon, skipGap_cons (c := ':') rfl rest place]
  rfl

/-- The head of a member is read back: that there is one, its key and its colon. -/
theorem exists_memberHead (first : Bool) {gap : List Char} (hgap : IsGap gap) (key : String)
    (rest : List Char) (place : Position) :
    ∃ opened closed after,
      nextKey first ⟨memberHead first gap key ++ rest, place⟩ = .ok (.key opened) ∧
      readStringBody [] opened = .ok (key, closed) ∧ readColon closed = .ok ⟨rest, after⟩ := by
  obtain ⟨start, hkey⟩ := exists_nextKey first hgap
    ((key.toList.flatMap escapedChar ++ ['"']) ++ ':' :: rest) place
  obtain ⟨behind, hbody⟩ := takes_readStringBody key (':' :: rest) start
  obtain ⟨after, hcolon⟩ := exists_readColon rest behind
  refine ⟨_, _, after, ?_, hbody, hcolon⟩
  rw [← hkey, memberHead, stringChars]
  simp only [List.append_assoc, List.cons_append, List.nil_append]

end Haulage.Json
