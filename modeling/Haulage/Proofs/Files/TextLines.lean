import Haulage.Proofs.Files.Lines
import Haulage.Proofs.Text.Split

/-!
# Lines of a text and lines of its bytes

A file is cut into lines byte by byte, and each line is decoded by itself. When the file holds a
text, these are the lines of the text: no newline byte is part of another character, so cutting the
bytes cuts the text in the same places.

- `lines_of_splitChars`: the lines of a text, given its parts between newlines.
- `lines_append_newline`, `lines_of_open`: the first line of a text.
- `ofBytes_encode`: the lines of a file that holds a text.
- `ofBytes_encode_append`: the lines of a file in which other bytes come behind a text.
-/

set_option autoImplicit false

namespace Haulage

open Haulage.Text Haulage.Utf8

theorem Text.joinChars_cons {sep : Char} (part : List Char) {parts : List (List Char)}
    (hne : parts ≠ []) : joinChars sep (part :: parts) = part ++ sep :: joinChars sep parts := by
  cases parts with
  | nil => exact absurd rfl hne
  | cons next more => rfl

namespace Lines

/-- The parts before a newline are lines; what comes after the last newline is one when it is not
empty. -/
theorem lines_of_splitChars {text : String} {front : List (List Char)} {last : List Char}
    (h : splitChars '\n' text.toList = front ++ [last]) :
    Text.lines text = front.map (fun part => readBack (String.ofList part)) ++
      if last.isEmpty then [] else [String.ofList last] := by
  have hcut : ∀ part : List Char, readBack (String.ofList part) =
      String.ofList (if part.getLast? = some '\r' then part.dropLast else part) := by
    intro part
    rw [readBack, String.toList_ofList, dropEnd_append_newline]
  simp only [Text.lines, h, List.reverse_append, List.reverse_singleton, List.singleton_append,
    List.reverse_reverse, hcut]

/-- What comes before the first newline is the first line. -/
theorem lines_append_newline {part : List Char} (hpart : '\n' ∉ part) (rest : List Char) :
    Text.lines (String.ofList (part ++ '\n' :: rest)) =
      readBack (String.ofList part) :: Text.lines (String.ofList rest) := by
  rcases List.eq_nil_or_concat (splitChars '\n' rest) with hnil | ⟨front, last, hsplit⟩
  · exact absurd hnil (splitChars_ne_nil _ _)
  · rw [List.concat_eq_append] at hsplit
    have hwhole : splitChars '\n' (part ++ '\n' :: rest) = (part :: front) ++ [last] := by
      rw [splitChars_append_cons hpart, hsplit, List.cons_append]
    rw [lines_of_splitChars (by rw [String.toList_ofList, hwhole]),
      lines_of_splitChars (by rw [String.toList_ofList, hsplit]), List.map_cons, List.cons_append]

/-- Without a newline there is one line, or none when there is no character. -/
theorem lines_of_open {part : List Char} (hpart : '\n' ∉ part) :
    Text.lines (String.ofList part) = if part.isEmpty then [] else [String.ofList part] := by
  have hsplit : splitChars '\n' (String.ofList part).toList = [] ++ [part] := by
    rw [String.toList_ofList, splitChars_of_not_mem hpart, List.nil_append]
  rw [lines_of_splitChars hsplit, List.map_nil, List.nil_append]

/-- The same of the bytes of the parts. -/
theorem ofBytes_encodeChars_joinChars {front : List (List Char)} {last : List Char}
    (hfront : ∀ part ∈ front, '\n' ∉ part) (hlast : '\n' ∉ last) :
    ofBytes (encodeChars (joinChars '\n' (front ++ [last]))) =
      (front.map fun part => .ok (readBack (String.ofList part))) ++
        if last.isEmpty then [] else [.ok (String.ofList last)] := by
  induction front with
  | nil =>
      rw [List.nil_append, joinChars, List.map_nil, List.nil_append]
      by_cases hempty : last = []
      · subst hempty
        rfl
      · have hbytes : encodeChars last ≠ [] := by
          rw [← String.toList_ofList (l := last), ← encode, ne_eq, encode_eq_nil_iff]
          simpa using hempty
        have hopen : (0x0A : UInt8) ∉ encodeChars last :=
          fun e => hlast (newline_mem_encodeChars_iff.mp e)
        rw [ofBytes, raw_of_open hopen hbytes, List.map_singleton, ofRaw, decodeChars_encodeChars]
        simp [dropEnd_of_newline_not_mem hlast, hempty]
  | cons part front ih =>
      have hpart : (0x0A : UInt8) ∉ encodeChars part :=
        fun e => hfront part List.mem_cons_self (newline_mem_encodeChars_iff.mp e)
      have hline : ofRaw (encodeChars part ++ [0x0A]) = .ok (readBack (String.ofList part)) := by
        rw [← ofRaw_encode_append_newline, encode, String.toList_ofList]
      have hbytes : encodeChars (joinChars '\n' (part :: (front ++ [last]))) =
          encodeChars part ++ [0x0A] ++ encodeChars (joinChars '\n' (front ++ [last])) := by
        rw [joinChars_cons part (by simp), encodeChars_append, encodeChars_cons,
          utf8EncodeChar_newline, List.append_assoc]
      -- the part with its newline is a line, and the rest is cut by itself
      rw [List.cons_append, hbytes, ofBytes, raw_append (.inr (by simp)), raw_append_newline hpart,
        List.map_append, ← ofBytes, ih fun p hp => hfront p (List.mem_cons_of_mem _ hp)]
      simp [hline]

/-- The lines of a file that holds a text are the lines of the text. -/
theorem ofBytes_encode (text : String) : ofBytes (encode text) = (Text.lines text).map .ok := by
  rcases List.eq_nil_or_concat (splitChars '\n' text.toList) with hnil | ⟨front, last, hsplit⟩
  · exact absurd hnil (splitChars_ne_nil _ _)
  · rw [List.concat_eq_append] at hsplit
    have hfree : ∀ part ∈ front ++ [last], '\n' ∉ part := by
      intro part hpart
      rw [← hsplit] at hpart
      exact not_mem_of_mem_splitChars hpart
    have hbytes : encode text = encodeChars (joinChars '\n' (front ++ [last])) := by
      rw [encode, ← hsplit, joinChars_splitChars]
    rw [hbytes, ofBytes_encodeChars_joinChars (fun part hpart => hfree part (by simp [hpart]))
      (hfree last (by simp)), lines_of_splitChars hsplit]
    cases last <;> simp

/-- Behind a text that ends in a newline the lines of other bytes follow. -/
theorem ofBytes_encode_append {text : String} (hend : text.toList.getLast? = some '\n')
    (rest : Bytes) :
    ofBytes (encode text ++ rest) = (Text.lines text).map .ok ++ ofBytes rest := by
  obtain ⟨chars, hchars⟩ := List.getLast?_eq_some_iff.mp hend
  have hclosed : (encode text).getLast? = some 0x0A := by
    rw [encode, hchars, encodeChars_append]
    exact List.getLast?_concat
  rw [ofBytes, raw_append (.inr hclosed), List.map_append, ← ofBytes, ← ofBytes, ofBytes_encode]

end Lines

end Haulage
