/-!
# Texts

Case folding touches the 26 ASCII letters only, and the digits are those of the ASCII range. The
blank characters are the 25 characters of the Unicode property White_Space; trimming removes them
from the ends of a text and nowhere else.

A text with `n` separators has `n + 1` parts, so the empty text has one empty part. Joining the
parts with the separator gives the text back.
-/

set_option autoImplicit false

namespace Haulage.Text

/-! ## ASCII letters and digits -/

/-- The text with the letters A to Z replaced by a to z; all other characters stay. -/
def lowerAscii (s : String) : String :=
  String.ofList (s.toList.map Char.toLower)

/-- The text with the letters a to z replaced by A to Z; all other characters stay. -/
def upperAscii (s : String) : String :=
  String.ofList (s.toList.map Char.toUpper)

/-- Equality of two texts up to the case of ASCII letters. -/
def sameIgnoringCase (a b : String) : Bool :=
  a.toList.map Char.toLower == b.toList.map Char.toLower

theorem sameIgnoringCase_iff {a b : String} :
    sameIgnoringCase a b = true ↔ lowerAscii a = lowerAscii b := by
  simp [sameIgnoringCase, lowerAscii, ← String.toList_inj]

/-- The value of an ASCII hexadecimal digit of either case. -/
def hexValue? (c : Char) : Option Nat :=
  if '0' ≤ c ∧ c ≤ '9' then some (c.toNat - '0'.toNat)
  else if 'a' ≤ c ∧ c ≤ 'f' then some (c.toNat - 'a'.toNat + 10)
  else if 'A' ≤ c ∧ c ≤ 'F' then some (c.toNat - 'A'.toNat + 10)
  else none

/-- Whether a character is an ASCII hexadecimal digit. -/
def isHexDigit (c : Char) : Bool :=
  (hexValue? c).isSome

/-- The lower-case hexadecimal digit of a value below sixteen. -/
def hexDigit (n : Nat) : Char :=
  if n < 10 then Char.ofNat ('0'.toNat + n) else Char.ofNat ('a'.toNat + (n - 10))

theorem hexValue?_hexDigit : ∀ n, n < 16 → hexValue? (hexDigit n) = some n := by
  decide

/-- The lower-case hexadecimal digits of a number, at least one of them. -/
def hexChars (n : Nat) : List Char :=
  if n < 16 then [hexDigit n] else hexChars (n / 16) ++ [hexDigit (n % 16)]

/-! ## Blanks -/

/-- Whether a character has the Unicode property White_Space. -/
def isBlank (c : Char) : Bool :=
  let n := c.toNat
  (0x09 ≤ n && n ≤ 0x0D) || n == 0x20 || n == 0x85 || n == 0xA0 || n == 0x1680 ||
    (0x2000 ≤ n && n ≤ 0x200A) || n == 0x2028 || n == 0x2029 || n == 0x202F || n == 0x205F ||
    n == 0x3000

/-- The characters after the leading blanks. -/
def trimStartChars (s : List Char) : List Char :=
  s.dropWhile isBlank

/-- The characters before the trailing blanks. -/
def trimEndChars (s : List Char) : List Char :=
  (s.reverse.dropWhile isBlank).reverse

/-- The characters without the blanks at both ends. -/
def trimChars (s : List Char) : List Char :=
  trimEndChars (trimStartChars s)

/-- The text without the blanks at its end. -/
def trimEnd (s : String) : String :=
  String.ofList (trimEndChars s.toList)

/-- The text without the blanks at both ends. -/
def trim (s : String) : String :=
  String.ofList (trimChars s.toList)

@[simp] theorem toList_trim (s : String) : (trim s).toList = trimChars s.toList := by
  simp [trim]

/-- Whether a text holds blanks only. -/
def isBlankText (s : String) : Bool :=
  s.toList.all isBlank

/-! ## Splitting and joining -/

/-- The parts between the separators of a character sequence. -/
def splitChars (sep : Char) : List Char → List (List Char)
  | [] => [[]]
  | c :: rest =>
    if c = sep then [] :: splitChars sep rest
    else
      match splitChars sep rest with
      | [] => [[c]]
      | part :: parts => (c :: part) :: parts

/-- The parts with the separator between neighbours. -/
def joinChars (sep : Char) : List (List Char) → List Char
  | [] => []
  | [part] => part
  | part :: next :: parts => part ++ sep :: joinChars sep (next :: parts)

theorem splitChars_ne_nil (sep : Char) (s : List Char) : splitChars sep s ≠ [] := by
  cases s with
  | nil => simp [splitChars]
  | cons c rest =>
    unfold splitChars
    split
    · simp
    · split <;> simp

/-- Joining the parts of a sequence gives the sequence. -/
theorem joinChars_splitChars (sep : Char) (s : List Char) :
    joinChars sep (splitChars sep s) = s := by
  induction s with
  | nil => rfl
  | cons c rest ih =>
    have hne := splitChars_ne_nil sep rest
    unfold splitChars
    split
    · rename_i h
      cases hs : splitChars sep rest with
      | nil => exact absurd hs hne
      | cons part parts => rw [hs] at ih; simp [joinChars, ih, h]
    · cases hs : splitChars sep rest with
      | nil => exact absurd hs hne
      | cons part parts =>
        rw [hs] at ih
        cases parts with
        | nil => simpa [joinChars] using ih
        | cons next more => simpa [joinChars] using ih

/-- The parts between the separators of a text. -/
def split (sep : Char) (s : String) : List String :=
  (splitChars sep s.toList).map String.ofList

/-- The parts with the separator between neighbours, as one text. -/
def join (sep : Char) (parts : List String) : String :=
  String.ofList (joinChars sep (parts.map String.toList))

/-- The parts before and after the first separator. -/
def splitFirst? (sep : Char) (s : String) : Option (String × String) :=
  let cs := s.toList
  match cs.dropWhile (· != sep) with
  | [] => none
  | _ :: after => some (String.ofList (cs.takeWhile (· != sep)), String.ofList after)

/-- The characters after a leading word, when the sequence starts with it. -/
def dropLead? : List Char → List Char → Option (List Char)
  | [], s => some s
  | _ :: _, [] => none
  | l :: lead, c :: s => if l = c then dropLead? lead s else none

/-- The text after a leading word, when the text starts with it. -/
def dropLeadText? (lead s : String) : Option String :=
  (dropLead? lead.toList s.toList).map String.ofList

theorem length_of_dropLead? {lead s rest : List Char} (h : dropLead? lead s = some rest) :
    s.length = lead.length + rest.length := by
  induction lead generalizing s with
  | nil => simp [dropLead?] at h; simp [h]
  | cons l lead ih =>
    cases s with
    | nil => simp [dropLead?] at h
    | cons c s =>
      simp only [dropLead?] at h
      split at h
      · have := ih h
        simp only [List.length_cons]
        omega
      · simp at h

/-- The characters before and after the first occurrence of a word. -/
def splitAtWord? (word : List Char) : List Char → Option (List Char × List Char)
  | [] => (dropLead? word []).map fun rest => ([], rest)
  | c :: s =>
    match dropLead? word (c :: s) with
    | some rest => some ([], rest)
    | none => (splitAtWord? word s).map fun (before, after) => (c :: before, after)

/-- Whether a word occurs in a character sequence. -/
def occursIn (word : List Char) : List Char → Bool
  | [] => word.isEmpty
  | c :: s => (dropLead? word (c :: s)).isSome || occursIn word s

/-- Whether a word occurs in a text. -/
def contains (s word : String) : Bool :=
  occursIn word.toList s.toList

/-- The lines of a text: split at each newline, one carriage return before it dropped, and no line
after a final newline. -/
def lines (s : String) : List String :=
  let parts := splitChars '\n' s.toList
  let cut (l : List Char) : String :=
    String.ofList (if l.getLast? = some '\r' then l.dropLast else l)
  match parts.reverse with
  | [] => []
  | last :: before =>
    (before.reverse.map cut) ++ (if last.isEmpty then [] else [String.ofList last])

end Haulage.Text
