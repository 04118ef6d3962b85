import Haulage.Json.Cursor
import Haulage.Json.Value
import Haulage.Text.Basic

/-!
# JSON strings, numbers and words

Strings take the eight short escapes and `\u` with four hexadecimal digits, where surrogates must
come in pairs. Numbers that are integers of 64 bits stay exact. For any other number the digits that
fit in 64 bits are scaled by a power of ten in floating point, one rounding for the digits and one
for the scaling.
-/

set_option autoImplicit false

namespace Haulage.Json

open Haulage.Numeric Haulage.Text

/-! ## Strings -/

/-- Reads four hexadecimal digits; they are measured in bytes, so that a flaw has the
place after them. -/
def readHex (cur : Cursor) : Reading Nat :=
  match cur.place.afterBytes? 4 cur.rest with
  | none => .error ⟨.endInString, cur.last⟩
  | some after =>
    match (cur.rest.take 4).map hexValue? with
    | [some a, some b, some c, some d] =>
      .ok (((a * 16 + b) * 16 + c) * 16 + d, ⟨cur.rest.drop 4, after⟩)
    | _ => .error ⟨.invalidEscape, after⟩

/-- Requires one character of a surrogate pair's second escape. -/
def expectPairChar (expected : Char) (cur : Cursor) : Except Flaw Cursor :=
  match cur.rest with
  | [] => cur.fail .endInString
  | c :: rest =>
    if c = expected then .ok (cur.advance c rest)
    else .error ⟨.unexpectedEndOfHexEscape, cur.ahead⟩

/-- Reads the digits of a `\u` escape, and the second escape of a surrogate pair. -/
def readUnicodeEscape (cur : Cursor) : Reading Char :=
  match readHex cur with
  | .error e => .error e
  | .ok (high, cur) =>
    if 0xDC00 ≤ high ∧ high ≤ 0xDFFF then cur.fail .loneSurrogate
    else if high < 0xD800 ∨ 0xDBFF < high then .ok (Char.ofNat high, cur)
    else
      match expectPairChar '\\' cur with
      | .error e => .error e
      | .ok cur =>
        match expectPairChar 'u' cur with
        | .error e => .error e
        | .ok cur =>
          match readHex cur with
          | .error e => .error e
          | .ok (low, cur) =>
            if low < 0xDC00 ∨ 0xDFFF < low then cur.fail .loneSurrogate
            else .ok (Char.ofNat ((high - 0xD800) * 0x400 + (low - 0xDC00) + 0x10000), cur)

/-- The character of a short escape. -/
def shortEscape? (c : Char) : Option Char :=
  if c = '"' then some '"'
  else if c = '\\' then some '\\'
  else if c = '/' then some '/'
  else if c = 'b' then some '\x08'
  else if c = 'f' then some '\x0c'
  else if c = 'n' then some '\n'
  else if c = 'r' then some '\r'
  else if c = 't' then some '\t'
  else none

/-- Reads an escape after its backslash. -/
def readEscape (cur : Cursor) : Reading Char :=
  match cur.rest with
  | [] => cur.fail .endInString
  | c :: rest =>
    match shortEscape? c with
    | some e => .ok (e, cur.advance c rest)
    | none =>
      if c = 'u' then readUnicodeEscape (cur.advance c rest) else cur.failAhead .invalidEscape

theorem readHex_length {cur next : Cursor} {n : Nat} (h : readHex cur = .ok (n, next)) :
    next.rest.length < cur.rest.length := by
  unfold readHex at h
  split at h
  · cases h
  · split at h
    · rename_i heq
      have hlen := congrArg List.length heq
      simp at hlen
      cases h
      simp only [List.length_drop]
      omega
    · cases h

theorem expectPairChar_length {c : Char} {cur next : Cursor}
    (h : expectPairChar c cur = .ok next) : next.rest.length < cur.rest.length := by
  unfold expectPairChar at h
  split at h
  · simp [Cursor.fail] at h
  · rename_i heq
    split at h
    · cases h; simp [Cursor.advance, heq]
    · cases h

theorem readUnicodeEscape_length {cur next : Cursor} {c : Char}
    (h : readUnicodeEscape cur = .ok (c, next)) : next.rest.length < cur.rest.length := by
  unfold readUnicodeEscape at h
  split at h
  · cases h
  · rename_i high cur₁ h₁
    have l₁ := readHex_length h₁
    split at h
    · simp [Cursor.fail] at h
    · split at h
      · simp only [Except.ok.injEq, Prod.mk.injEq] at h
        obtain ⟨-, rfl⟩ := h
        exact l₁
      · split at h
        · cases h
        · rename_i cur₂ h₂
          have l₂ := expectPairChar_length h₂
          split at h
          · cases h
          · rename_i cur₃ h₃
            have l₃ := expectPairChar_length h₃
            split at h
            · cases h
            · rename_i low cur₄ h₄
              have l₄ := readHex_length h₄
              split at h
              · simp [Cursor.fail] at h
              · simp only [Except.ok.injEq, Prod.mk.injEq] at h
                obtain ⟨-, rfl⟩ := h
                omega

theorem readEscape_length {cur next : Cursor} {c : Char} (h : readEscape cur = .ok (c, next)) :
    next.rest.length < cur.rest.length := by
  unfold readEscape at h
  split at h
  · simp [Cursor.fail] at h
  · rename_i heq
    split at h
    · cases h; simp [Cursor.advance, heq]
    · split at h
      · have := readUnicodeEscape_length h
        simp only [Cursor.advance, heq, List.length_cons] at this ⊢
        omega
      · simp [Cursor.failAhead] at h

/-- Reads the rest of a string up to its closing quote; the characters so far come in reverse. -/
def readStringBody (soFar : List Char) (cur : Cursor) : Reading String :=
  match _hr : cur.rest with
  | [] => cur.fail .endInString
  | c :: rest =>
    if c = '"' then .ok (String.ofList soFar.reverse, cur.advance c rest)
    else if c = '\\' then
      match _he : readEscape (cur.advance c rest) with
      | .error e => .error e
      | .ok (e, next) => readStringBody (e :: soFar) next
    else if c.toNat < 0x20 then .error ⟨.controlCharacter, cur.place.after c⟩
    else readStringBody (c :: soFar) (cur.advance c rest)
termination_by cur.rest.length
decreasing_by
  · have := readEscape_length _he
    simp only [Cursor.advance, _hr, List.length_cons] at this ⊢
    omega
  · simp [Cursor.advance, _hr]

/-! ## Words -/

/-- Reads the remaining characters of a word. -/
def readWord : List Char → Cursor → Except Flaw Cursor
  | [], cur => .ok cur
  | expected :: more, cur =>
    match cur.rest with
    | [] => cur.fail .endInValue
    | c :: rest =>
      if c = expected then readWord more (cur.advance c rest)
      else .error ⟨.expectedIdent, cur.ahead⟩

/-! ## Numbers -/

/-- The largest value of 64 unsigned bits. -/
def largestWord : Nat :=
  Nat.pow 2 64 - 1

/-- Appends digits to a significand while it fits in 64 bits; gives the digits left over. -/
def absorbDigits (significand : Nat) : List Char → Nat × List Char
  | [] => (significand, [])
  | c :: rest =>
    let next := significand * 10 + digitOf c
    if next ≤ largestWord then absorbDigits next rest else (significand, c :: rest)

/-- The digits ahead and the cursor after them. -/
def takeDigits (cur : Cursor) : List Char × Cursor :=
  let digits := cur.rest.takeWhile isDecimalDigit
  (digits, ⟨cur.rest.dropWhile isDecimalDigit, ⟨cur.place.line, cur.place.column + digits.length⟩⟩)

/-- The units of the double nearest to a power of ten. -/
def tenPowerUnits (n : Nat) : Nat :=
  Binary64.roundedUnits (Nat.pow 10 n * Binary64.unitsPerOne) 1

/-- Scales a count of units by a power of ten; nothing when the result is infinite. Steps of
`10 ^ 308` bring the exponent into the range of the powers that are doubles. -/
def scaleUnits? : Nat → Nat → Int → Option Nat
  | fuel, units, exponent =>
    if exponent.natAbs ≤ 308 then
      (if 0 ≤ exponent then Binary64.mulUnits units (tenPowerUnits exponent.natAbs)
        else Binary64.divUnits units (tenPowerUnits exponent.natAbs)).units?
    else if units = 0 then some 0
    else if 0 ≤ exponent then none
    else
      match fuel with
      | 0 => some 0
      | fuel + 1 =>
        (Binary64.divUnits units (tenPowerUnits 308)).units?.bind fun scaled =>
          scaleUnits? fuel scaled (exponent + 308)

/-- The real number of a significand and a power of ten, or a flaw where the cursor stands. -/
def realNumber (negative : Bool) (significand : Nat) (exponent : Int) (cur : Cursor) :
    Reading Number :=
  match scaleUnits? 4 (Binary64.roundedUnits (significand * Binary64.unitsPerOne) 1) exponent with
  | none => cur.fail .numberOutOfRange
  | some units => .ok (.real (.finite negative units), cur)

/-- Number of digits of an exponent that are read before it exceeds 31 bits; nothing if
it never does. -/
def exponentOverflow? (value read : Nat) : List Char → Option Nat
  | [] => none
  | c :: rest =>
    let next := value * 10 + digitOf c
    if Nat.pow 2 31 - 1 < next then some (read + 1) else exponentOverflow? next (read + 1) rest

/-- Reads an exponent after its letter and scales the significand by it. -/
def readExponent (negative : Bool) (significand : Nat) (start : Int) (cur : Cursor) :
    Reading Number :=
  let (minus, cur) :=
    match cur.rest with
    | '+' :: rest => (false, cur.advance '+' rest)
    | '-' :: rest => (true, cur.advance '-' rest)
    | _ => (false, cur)
  match cur.rest with
  | [] => cur.fail .endInValue
  | c :: _ =>
    if isDecimalDigit c then
      let (digits, after) := takeDigits cur
      match exponentOverflow? 0 0 digits with
      | some read =>
        if significand ≠ 0 ∧ minus = false then
          .error ⟨.numberOutOfRange, ⟨cur.place.line, cur.place.column + read⟩⟩
        else .ok (.real (.finite negative 0), after)
      | none =>
        let e : Int := ofDigits digits
        realNumber negative significand (if minus then start - e else start + e) after
    else .error ⟨.invalidNumber, cur.ahead⟩

/-- Reads a fraction after its point. -/
def readFraction (negative : Bool) (significand : Nat) (start : Int) (cur : Cursor) :
    Reading Number :=
  let (digits, after) := takeDigits cur
  if digits.isEmpty then
    cur.failAhead (if cur.rest.isEmpty then .endInValue else .invalidNumber)
  else
    let (significand, left) := absorbDigits significand digits
    let exponent := start - (digits.length - left.length : Nat)
    match after.rest with
    | c :: rest =>
      if c = 'e' ∨ c = 'E' then readExponent negative significand exponent (after.advance c rest)
      else realNumber negative significand exponent after
    | [] => realNumber negative significand exponent after

/-- The number of an integer literal: exact in 64 bits, else the nearest double. -/
def integerNumber (negative : Bool) (significand : Nat) : Number :=
  if negative = false then .integer significand
  else if significand = 0 ∨ Nat.pow 2 63 < significand then
    .real (.finite true (Binary64.roundedUnits (significand * Binary64.unitsPerOne) 1))
  else .integer (-(significand : Int))

/-- Reads a number after its sign. -/
def readNumber (negative : Bool) (cur : Cursor) : Reading Number :=
  match cur.rest with
  | [] => cur.fail .endInValue
  | c :: rest =>
    if isDecimalDigit c then
      let (digits, after) :=
        if c = '0' then ([c], cur.advance c rest) else takeDigits cur
      let (significand, left) := absorbDigits 0 digits
      let finish : Reading Number :=
        if left.isEmpty then .ok (integerNumber negative significand, after)
        else realNumber negative significand left.length after
      match after.rest with
      | [] => finish
      | next :: rest' =>
        if c = '0' ∧ isDecimalDigit next then after.failAhead .invalidNumber
        else if next = '.' then
          readFraction negative significand left.length (after.advance next rest')
        else if next = 'e' ∨ next = 'E' then
          readExponent negative significand left.length (after.advance next rest')
        else finish
    else .error ⟨.invalidNumber, cur.ahead⟩

end Haulage.Json
