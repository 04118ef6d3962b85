import Haulage.Copy.Columns
import Haulage.Files.Streams

/-!
# Characters of fields

The fields of a line are made of the characters of the line, and what is joined from them holds no
other character than theirs and the separator. Parts that do not hold the separator are found again
in what is joined from them. Blanks at the end of a line belong to the last field, where trimming
removes them.

- `mem_of_mem_splitChars`, `eq_or_mem_of_mem_joinChars`: where characters come from.
- `split_join`: splitting what was joined.
- `trimmedFields_append_blanks`, `trimmedFields_dropEnd`: blanks and line ends are not seen in the
  trimmed fields of a line.
-/

set_option autoImplicit false

namespace Haulage.Text

theorem mem_of_mem_splitChars {sep c : Char} {s part : List Char} (hpart : part ∈ splitChars sep s)
    (hc : c ∈ part) : c ∈ s := by
  induction s generalizing part with
  | nil =>
      rw [splitChars, List.mem_singleton] at hpart
      exact hpart ▸ hc
  | cons a rest ih =>
      rw [splitChars] at hpart
      split at hpart
      · rcases List.mem_cons.mp hpart with rfl | hpart
        · cases hc
        · exact List.mem_cons_of_mem _ (ih hpart hc)
      · split at hpart
        · rename_i hnil
          exact absurd hnil (splitChars_ne_nil sep rest)
        · rename_i first parts heq
          rw [heq] at ih
          rcases List.mem_cons.mp hpart with rfl | hpart
          · rcases List.mem_cons.mp hc with rfl | hc
            · exact List.mem_cons_self
            · exact List.mem_cons_of_mem _ (ih List.mem_cons_self hc)
          · exact List.mem_cons_of_mem _ (ih (List.mem_cons_of_mem _ hpart) hc)

theorem not_mem_of_mem_splitChars {sep : Char} {s part : List Char}
    (hpart : part ∈ splitChars sep s) : sep ∉ part := by
  induction s generalizing part with
  | nil =>
      rw [splitChars, List.mem_singleton] at hpart
      rw [hpart]
      exact List.not_mem_nil
  | cons a rest ih =>
      rw [splitChars] at hpart
      split at hpart
      · rcases List.mem_cons.mp hpart with rfl | hpart
        · exact List.not_mem_nil
        · exact ih hpart
      · rename_i ha
        split at hpart
        · rename_i hnil
          exact absurd hnil (splitChars_ne_nil sep rest)
        · rename_i first parts heq
          rw [heq] at ih
          rcases List.mem_cons.mp hpart with rfl | hpart
          · rw [List.mem_cons, not_or]
            exact ⟨fun e => ha e.symm, ih List.mem_cons_self⟩
          · exact ih (List.mem_cons_of_mem _ hpart)

theorem splitChars_of_not_mem {sep : Char} {s : List Char} (h : sep ∉ s) :
    splitChars sep s = [s] := by
  induction s with
  | nil => rfl
  | cons a rest ih =>
      rw [List.mem_cons, not_or] at h
      rw [splitChars, if_neg fun e => h.1 e.symm, ih h.2]

/-- The parts on both sides of a separator. -/
theorem splitChars_append (sep : Char) (s rest : List Char) :
    splitChars sep (s ++ sep :: rest) = splitChars sep s ++ splitChars sep rest := by
  induction s with
  | nil => rw [List.nil_append, splitChars, splitChars, if_pos rfl, List.singleton_append]
  | cons a s ih =>
      rw [List.cons_append, splitChars, splitChars, ih]
      by_cases ha : a = sep
      · rw [if_pos ha, if_pos ha, List.cons_append]
      · rw [if_neg ha, if_neg ha]
        cases hparts : splitChars sep s with
        | nil => exact absurd hparts (splitChars_ne_nil sep s)
        | cons part parts => rfl

/-- What comes before the first separator is the first part. -/
theorem splitChars_append_cons {sep : Char} {part : List Char} (h : sep ∉ part) (rest : List Char) :
    splitChars sep (part ++ sep :: rest) = part :: splitChars sep rest := by
  rw [splitChars_append, splitChars_of_not_mem h, List.singleton_append]

/-- Parts that hold no separator are found again once they are joined. -/
theorem splitChars_joinChars {sep : Char} {parts : List (List Char)} (hne : parts ≠ [])
    (h : ∀ part ∈ parts, sep ∉ part) : splitChars sep (joinChars sep parts) = parts := by
  fun_induction joinChars sep parts with
  | case1 => exact absurd rfl hne
  | case2 part => exact splitChars_of_not_mem (h part List.mem_cons_self)
  | case3 part next parts ih =>
      rw [splitChars_append_cons (h part List.mem_cons_self),
        ih (List.cons_ne_nil _ _) fun p hp => h p (List.mem_cons_of_mem _ hp)]

theorem eq_or_mem_of_mem_joinChars {sep c : Char} {parts : List (List Char)}
    (h : c ∈ joinChars sep parts) : c = sep ∨ ∃ part ∈ parts, c ∈ part := by
  fun_induction joinChars sep parts with
  | case1 => cases h
  | case2 part => exact .inr ⟨part, List.mem_cons_self, h⟩
  | case3 part next parts ih =>
      rcases List.mem_append.mp h with h | h
      · exact .inr ⟨part, List.mem_cons_self, h⟩
      · rcases List.mem_cons.mp h with rfl | h
        · exact .inl rfl
        · rcases ih h with h | ⟨p, hp, h⟩
          · exact .inl h
          · exact .inr ⟨p, List.mem_cons_of_mem _ hp, h⟩

theorem not_mem_of_mem_split {sep : Char} {s part : String} (h : part ∈ split sep s) :
    sep ∉ part.toList := by
  obtain ⟨chars, hchars, rfl⟩ := List.mem_map.mp h
  rw [String.toList_ofList]
  exact not_mem_of_mem_splitChars hchars

/-- Texts that hold no separator are found again once they are joined. -/
theorem split_join {sep : Char} {parts : List String} (hne : parts ≠ [])
    (h : ∀ part ∈ parts, sep ∉ part.toList) : split sep (join sep parts) = parts := by
  have hfree : ∀ part ∈ parts.map String.toList, sep ∉ part := by
    intro part hpart
    obtain ⟨p, hp, rfl⟩ := List.mem_map.mp hpart
    exact h p hp
  rw [split, join, String.toList_ofList, splitChars_joinChars (by simpa using hne) hfree,
    List.map_map]
  exact List.map_id'' (fun p => String.ofList_toList) parts

/-- A character that is no separator joins the last part. -/
theorem splitChars_append_singleton {sep c : Char} (hc : c ≠ sep) (s : List Char) :
    ∃ front last, splitChars sep s = front ++ [last] ∧
      splitChars sep (s ++ [c]) = front ++ [last ++ [c]] := by
  induction s with
  | nil => exact ⟨[], [], rfl, by simp [splitChars, hc]⟩
  | cons a rest ih =>
      obtain ⟨front, last, h₁, h₂⟩ := ih
      rw [List.cons_append, splitChars, splitChars, h₁, h₂]
      by_cases ha : a = sep
      · exact ⟨[] :: front, last, by simp [ha], by simp [ha]⟩
      · cases front with
        | nil => exact ⟨[], a :: last, by simp [ha], by simp [ha]⟩
        | cons part front => exact ⟨(a :: part) :: front, last, by simp [ha], by simp [ha]⟩

/-- A blank at the end is trimmed. -/
theorem trimChars_append_blank {c : Char} (hc : isBlank c = true) (s : List Char) :
    trimChars (s ++ [c]) = trimChars s := by
  simp only [trimChars, trimStartChars]
  rw [List.dropWhile_append]
  split
  · rename_i hnil
    rw [List.isEmpty_iff] at hnil
    simp [hnil, hc]
  · simp [trimEndChars, hc]

end Haulage.Text

namespace Haulage

open Haulage.Text

theorem newline_not_mem_fieldAt {line : String} (h : '\n' ∉ line.toList) (i : Nat) :
    '\n' ∉ (fieldAt (fields line) i).toList := by
  rw [fieldAt, List.getD_eq_getElem?_getD]
  cases hi : (fields line)[i]? with
  | none => simp
  | some field =>
      intro hn
      obtain ⟨part, hpart, rfl⟩ := List.mem_map.mp (List.mem_of_getElem? hi)
      rw [Option.getD_some, String.toList_ofList] at hn
      exact h (mem_of_mem_splitChars hpart hn)

/-- The kept columns of a line hold no newline when the line holds none. -/
theorem ColumnSelector.newline_not_mem_apply (s : ColumnSelector) {line : String}
    (h : '\n' ∉ line.toList) : '\n' ∉ (s.apply line).toList := by
  rw [s.apply_eq_join, join, String.toList_ofList]
  intro hn
  rcases eq_or_mem_of_mem_joinChars hn with hsep | ⟨part, hpart, hn⟩
  · simp at hsep
  · obtain ⟨field, hfield, rfl⟩ := List.mem_map.mp hpart
    obtain ⟨i, -, rfl⟩ := List.mem_map.mp hfield
    exact newline_not_mem_fieldAt h i hn

/-- A blank at the end of a line is not seen in its trimmed fields. -/
theorem trimmedFields_append_blank {c : Char} (hc : isBlank c = true) (s : List Char) :
    trimmedFields (String.ofList (s ++ [c])) = trimmedFields (String.ofList s) := by
  have hcomma : c ≠ ',' := by
    rintro rfl
    cases hc
  obtain ⟨front, last, h₁, h₂⟩ := splitChars_append_singleton hcomma s
  have hlast : trim (String.ofList (last ++ [c])) = trim (String.ofList last) := by
    rw [trim, trim, String.toList_ofList, String.toList_ofList, trimChars_append_blank hc]
  simp only [trimmedFields, fields, split, String.toList_ofList, h₁, h₂, List.map_append,
    List.map_cons, List.map_nil, hlast]

/-- Blanks at the end of a line are not seen in its trimmed fields. -/
theorem trimmedFields_append_blanks {blanks : List Char} (h : ∀ c ∈ blanks, isBlank c = true)
    (s : List Char) :
    trimmedFields (String.ofList (s ++ blanks)) = trimmedFields (String.ofList s) := by
  induction blanks generalizing s with
  | nil => rw [List.append_nil]
  | cons c blanks ih =>
      rw [List.append_cons, ih fun d hd => h d (List.mem_cons_of_mem _ hd),
        trimmedFields_append_blank (h c List.mem_cons_self)]

/-- A line has the same trimmed fields with and without its end. -/
theorem trimmedFields_dropEnd (s : List Char) :
    trimmedFields (String.ofList (Lines.dropEnd s)) = trimmedFields (String.ofList s) := by
  rw [Lines.dropEnd]
  split
  · rename_i hnewline
    obtain ⟨body, rfl⟩ := List.getLast?_eq_some_iff.mp hnewline
    rw [List.dropLast_concat, trimmedFields_append_blank (by decide)]
    dsimp only
    split
    · rename_i hreturn
      obtain ⟨front, rfl⟩ := List.getLast?_eq_some_iff.mp hreturn
      rw [List.dropLast_concat, trimmedFields_append_blank (by decide)]
    · rfl
  · rfl

end Haulage
