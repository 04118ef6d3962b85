import Haulage.Numeric.Decimal

/-!
# UTF-8

Bytes are lists of words of eight bits. Encoding is total; decoding accepts the well-formed
sequences and says of any other where its first flaw is and how many bytes the flaw covers, or that
the input ends inside a character. Reading with replacement puts one replacement character in place
of each flaw.
-/

set_option autoImplicit false

namespace Haulage

/-- A sequence of bytes. -/
abbrev Bytes := List UInt8

namespace Utf8

/-- The bytes of a character sequence. -/
def encodeChars (s : List Char) : Bytes :=
  s.flatMap String.utf8EncodeChar

/-- The bytes of a text. -/
def encode (s : String) : Bytes :=
  encodeChars s.toList

/-- What stands at the front of a byte sequence. -/
inductive Front where
  /-- A character, followed by the remaining bytes. -/
  | char (c : Char) (rest : Bytes)
  /-- So many bytes that no character can start with, followed by the remaining bytes. -/
  | invalid (size : Nat) (rest : Bytes)
  /-- The bytes of a character that the input cuts off. -/
  | incomplete

/-- Whether a byte continues a character. -/
def isContinuation (b : UInt8) : Bool :=
  0x80 ≤ b && b ≤ 0xBF

/-- The low six bits of a continuation byte. -/
def payload (b : UInt8) : Nat :=
  b.toNat % 64

/-- Whether the second byte of a three-byte character suits the first: no overlong
form, no surrogate. -/
def suitsThree (a b : UInt8) : Bool :=
  if a = 0xE0 then 0xA0 ≤ b && b ≤ 0xBF
  else if a = 0xED then 0x80 ≤ b && b ≤ 0x9F
  else isContinuation b

/-- Whether the second byte of a four-byte character suits the first: no overlong form, nothing
above the last code point. -/
def suitsFour (a b : UInt8) : Bool :=
  if a = 0xF0 then 0x90 ≤ b && b ≤ 0xBF
  else if a = 0xF4 then 0x80 ≤ b && b ≤ 0x8F
  else isContinuation b

/-- The front of a sequence that starts with the given byte. -/
def front (a : UInt8) (rest : Bytes) : Front :=
  if a < 0x80 then .char (Char.ofNat a.toNat) rest
  else if a < 0xC2 then .invalid 1 rest
  else if a < 0xE0 then
    match rest with
    | [] => .incomplete
    | b :: rest₁ =>
      if isContinuation b then .char (Char.ofNat (a.toNat % 32 * 64 + payload b)) rest₁
      else .invalid 1 rest
  else if a < 0xF0 then
    match rest with
    | [] => .incomplete
    | b :: rest₁ =>
      if suitsThree a b then
        match rest₁ with
        | [] => .incomplete
        | c :: rest₂ =>
          if isContinuation c then
            .char (Char.ofNat ((a.toNat % 16 * 64 + payload b) * 64 + payload c)) rest₂
          else .invalid 2 rest₁
      else .invalid 1 rest
  else if a < 0xF5 then
    match rest with
    | [] => .incomplete
    | b :: rest₁ =>
      if suitsFour a b then
        match rest₁ with
        | [] => .incomplete
        | c :: rest₂ =>
          if isContinuation c then
            match rest₂ with
            | [] => .incomplete
            | d :: rest₃ =>
              if isContinuation d then
                .char
                  (Char.ofNat (((a.toNat % 8 * 64 + payload b) * 64 + payload c) * 64 + payload d))
                  rest₃
              else .invalid 3 rest₂
          else .invalid 2 rest₁
      else .invalid 1 rest
  else .invalid 1 rest

/-- The bytes that remain after the front. -/
def Front.rest : Front → Bytes
  | .char _ rest => rest
  | .invalid _ rest => rest
  | .incomplete => []

/-- The front never gives bytes back. -/
theorem front_rest_length_le (a : UInt8) (rest : Bytes) :
    (front a rest).rest.length ≤ rest.length := by
  unfold front
  repeat' split
  all_goals simp [Front.rest] <;> omega

/-- Why a byte sequence is not a text. -/
inductive Flaw where
  /-- So many bytes from an index on are no part of any character. -/
  | invalid (size index : Nat)
  /-- The input ends inside the character that starts at the index. -/
  | incomplete (index : Nat)
  deriving Repr, DecidableEq

/-- The wording of a flaw. -/
def Flaw.message : Flaw → String
  | .invalid size index =>
    "invalid utf-8 sequence of " ++ Numeric.decimal size ++ " bytes from index " ++
      Numeric.decimal index
  | .incomplete index => "incomplete utf-8 byte sequence from index " ++ Numeric.decimal index

/-- Decodes a byte sequence whose first byte has the given index; the characters before
it come reversed. -/
def decodeOnto (soFar : List Char) (index : Nat) (bytes : Bytes) : Except Flaw (List Char) :=
  match bytes with
  | [] => .ok soFar.reverse
  | a :: rest =>
    match _h : front a rest with
    | .char c rest' => decodeOnto (c :: soFar) (index + c.utf8Size) rest'
    | .invalid size _ => .error (.invalid size index)
    | .incomplete => .error (.incomplete index)
termination_by bytes.length
decreasing_by
  have h := front_rest_length_le a rest
  rw [_h] at h
  exact Nat.lt_succ_of_le h

/-- The characters of a byte sequence, or its first flaw. -/
def decodeChars (bytes : Bytes) : Except Flaw (List Char) :=
  decodeOnto [] 0 bytes

/-- The text of a byte sequence, or its first flaw. -/
def decode (bytes : Bytes) : Except Flaw String :=
  (decodeChars bytes).map String.ofList

/-- Decodes a byte sequence with a replacement character in place of each flaw; the characters
before it come reversed. -/
def decodeLossyOnto (soFar : List Char) (bytes : Bytes) : List Char :=
  match bytes with
  | [] => soFar.reverse
  | a :: rest =>
    match _h : front a rest with
    | .char c rest' => decodeLossyOnto (c :: soFar) rest'
    | .invalid _ rest' => decodeLossyOnto ('\uFFFD' :: soFar) rest'
    | .incomplete => ('\uFFFD' :: soFar).reverse
termination_by bytes.length
decreasing_by
  all_goals
    have h := front_rest_length_le a rest
    rw [_h] at h
    exact Nat.lt_succ_of_le h

/-- The text of a byte sequence with a replacement character in place of each flaw. -/
def decodeLossy (bytes : Bytes) : String :=
  String.ofList (decodeLossyOnto [] bytes)

end Utf8

end Haulage
