import Haulage.Numeric.Decimal
import Haulage.Text.Basic
import Haulage.Text.Utf8
import Haulage.Url.Punycode

/-!
# Hosts

The host of a URL is a domain name, an IPv4 address or an IPv6 address. Under a special scheme a
name is decoded, folded to lower case and checked, and one that ends in a number is an IPv4 address
of one to four parts in decimal, octal or hexadecimal. Under any other scheme the host is kept as it
stands.

Each part of a URL has a set of ASCII characters that it cannot show as they are; control characters
and all characters beyond ASCII belong to every set. An encoded character is written as its UTF-8
bytes, each a percent sign and two upper-case digits.
-/

set_option autoImplicit false

namespace Haulage.Url

open Haulage.Text Haulage.Numeric

/-! ## Percent encoding -/

/-- A set of characters to be encoded. -/
abbrev EncodeSet := Char → Bool

/-- Control characters and everything beyond ASCII. -/
def controls : EncodeSet := fun c =>
  c.toNat < 0x20 || 0x7F ≤ c.toNat

/-- The set enlarged by the characters of a text. -/
def EncodeSet.with (set : EncodeSet) (more : String) : EncodeSet := fun c =>
  set c || more.toList.contains c

/-- What a fragment encodes. -/
def fragmentSet : EncodeSet :=
  EncodeSet.with controls " \"<>`"

/-- What a query encodes; under a special scheme also the apostrophe. -/
def querySet (special : Bool) : EncodeSet :=
  EncodeSet.with controls (if special then " \"#<>\x27" else " \"#<>")

/-- What a path encodes. -/
def pathSet : EncodeSet :=
  fragmentSet.with "#?\x7b\x7d"

/-- What a user name or password encodes. -/
def userinfoSet : EncodeSet :=
  pathSet.with "/:;=@[\\]^|"

/-- A byte as a percent sign and two digits. -/
def percentByte (b : UInt8) : List Char :=
  ['%', (Text.hexDigit (b.toNat / 16)).toUpper, (Text.hexDigit (b.toNat % 16)).toUpper]

/-- A character, encoded if it belongs to the set. -/
def encodeChar (set : EncodeSet) (c : Char) : List Char :=
  if set c then (String.utf8EncodeChar c).flatMap percentByte else [c]

/-- A character sequence with the members of the set encoded. -/
def encode (set : EncodeSet) (s : List Char) : List Char :=
  s.flatMap (encodeChar set)

/-- The bytes of a character sequence with percent signs and two digits read as bytes. -/
def decodeBytes : List Char → Bytes
  | '%' :: a :: b :: rest =>
    match Text.hexValue? a, Text.hexValue? b with
    | some x, some y => UInt8.ofNat (16 * x + y) :: decodeBytes rest
    | _, _ => String.utf8EncodeChar '%' ++ decodeBytes (a :: b :: rest)
  | c :: rest => String.utf8EncodeChar c ++ decodeBytes rest
  | [] => []

/-! ## Numbers -/

/-- Why a text is no URL. -/
inductive Flaw where
  | relative
  | emptyHost
  | invalidDomain
  | invalidDomainCharacter
  | invalidPort
  | invalidIpv4
  | invalidIpv6
  deriving Repr, DecidableEq

/-- The wording of a flaw. -/
def Flaw.message : Flaw → String
  | .relative => "relative URL without a base"
  | .emptyHost => "empty host"
  | .invalidDomain => "invalid international domain name"
  | .invalidDomainCharacter => "invalid domain character"
  | .invalidPort => "invalid port number"
  | .invalidIpv4 => "invalid IPv4 address"
  | .invalidIpv6 => "invalid IPv6 address"

/-- A host. -/
inductive Host where
  /-- A name; the empty name stands for no host. -/
  | domain (name : String)
  | ipv4 (address : Nat)
  /-- Eight pieces of sixteen bits. -/
  | ipv6 (pieces : List Nat)
  deriving Repr, DecidableEq

/-! ## IPv4 -/

/-- The value of digits in a base, unless one of them is foreign to the base. -/
def baseValue? (base : Nat) (s : List Char) : Option Nat :=
  s.foldl
    (fun acc c =>
      match acc, hexValue? c with
      | some n, some d => if d < base then some (n * base + d) else none
      | _, _ => none)
    (some 0)

/-- The value of a part of an IPv4 address. -/
def ipv4Part? (s : List Char) : Option Nat :=
  match s with
  | [] => none
  | '0' :: 'x' :: digits => baseValue? 16 digits
  | '0' :: 'X' :: digits => baseValue? 16 digits
  | '0' :: d :: digits => baseValue? 8 (d :: digits)
  | digits => baseValue? 10 digits

/-- The parts of a name; an empty last part does not count. -/
def nameParts (s : List Char) : List (List Char) :=
  let parts := splitChars '.' s
  if 1 < parts.length ∧ parts.getLast? = some [] then parts.dropLast else parts

/-- Whether a name must be an IPv4 address. -/
def endsInNumber (s : List Char) : Bool :=
  match (nameParts s).getLast? with
  | none => false
  | some last => (!last.isEmpty && last.all isDecimalDigit) || (ipv4Part? last).isSome

/-- The IPv4 address that a name stands for. -/
def readIpv4 (s : List Char) : Except Flaw Nat :=
  let parts := nameParts s
  match (parts.map ipv4Part?).reverse with
  | some last :: before =>
    if 4 < parts.length then .error .invalidIpv4
    else if before.any (fun p => p.all (255 < ·)) then .error .invalidIpv4
    else if Nat.pow 2 (32 - 8 * before.length) ≤ last then .error .invalidIpv4
    else
      .ok ((before.reverse.zipIdx).foldl
        (fun acc (p, i) => acc + p.getD 0 * Nat.pow 2 (8 * (3 - i))) last)
  | _ => .error .invalidIpv4

/-- The dotted form of an IPv4 address. -/
def ipv4Text (address : Nat) : String :=
  ".".intercalate ([24, 16, 8, 0].map fun shift => decimal (address / Nat.pow 2 shift % 256))

/-! ## IPv6 -/

/-- The value of a part of the dotted end of an IPv6 address: decimal, below 256, no leading
zero. -/
def dottedPart? (s : List Char) : Option Nat :=
  match s with
  | [] => none
  | '0' :: _ :: _ => none
  | digits =>
    if digits.all isDecimalDigit ∧ ofDigits digits ≤ 255 then some (ofDigits digits) else none

/-- The two pieces of a dotted end. -/
def dottedPieces? (s : List Char) : Option (List Nat) :=
  match (splitChars '.' s).map dottedPart? with
  | [some a, some b, some c, some d] => some [a * 256 + b, c * 256 + d]
  | _ => none

/-- The value of a piece: one to four hexadecimal digits. -/
def piece? (s : List Char) : Option Nat :=
  if s.isEmpty ∨ 4 < s.length then none else baseValue? 16 s

/-- The pieces of a run of parts; only the last part may be dotted, and only where the run ends the
address. -/
def pieces? (ends : Bool) : List (List Char) → Option (List Nat)
  | [] => some []
  | [last] =>
    if ends ∧ last.contains '.' then dottedPieces? last else (piece? last).map ([·])
  | part :: more =>
    match piece? part, pieces? ends more with
    | some p, some ps => some (p :: ps)
    | _, _ => none

/-- Splits at the first double colon. -/
def splitGap : List Char → Option (List Char × List Char)
  | ':' :: ':' :: rest => some ([], rest)
  | c :: rest => (splitGap rest).map fun (before, after) => (c :: before, after)
  | [] => none

/-- The parts between single colons of one side of a gap. -/
def sideParts (s : List Char) : List (List Char) :=
  if s.isEmpty then [] else splitChars ':' s

/-- The pieces of an IPv6 address without its brackets. -/
def readIpv6 (s : List Char) : Except Flaw (List Nat) :=
  match splitGap s with
  | none =>
    match pieces? true (sideParts s) with
    | some ps => if ps.length = 8 then .ok ps else .error .invalidIpv6
    | none => .error .invalidIpv6
  | some (before, after) =>
    match pieces? false (sideParts before), pieces? true (sideParts after) with
    | some front, some back =>
      if front.length + back.length ≤ 7 then
        .ok (front ++ List.replicate (8 - front.length - back.length) 0 ++ back)
      else .error .invalidIpv6
    | _, _ => .error .invalidIpv6

/-- Length of the run of zeros at the front. -/
def zeroRun (ps : List Nat) : Nat :=
  (ps.takeWhile (· == 0)).length

/-- Index and length of the first longest run of zeros. -/
def longestZeroRun (ps : List Nat) : Nat × Nat :=
  (List.range ps.length).foldl
    (fun (index, length) i =>
      let here := zeroRun (ps.drop i)
      if length < here then (i, here) else (index, length))
    (0, 0)

/-- The compressed form of an IPv6 address. -/
def ipv6Text (ps : List Nat) : String :=
  let piece (n : Nat) : String := String.ofList (hexChars n)
  let (index, length) := longestZeroRun ps
  if length < 2 then ":".intercalate (ps.map piece)
  else
    ":".intercalate ((ps.take index).map piece) ++ "::" ++
      ":".intercalate ((ps.drop (index + length)).map piece)

/-! ## Names -/

/-- Characters that no host may hold. -/
def isForbiddenInHost (c : Char) : Bool :=
  "\x00\t\n\r #/:<>?@[\\]^|".toList.contains c

/-- Whether a character lies in one of the stretches. -/
def liesIn (ranges : List (Nat × Nat)) (c : Char) : Bool :=
  ranges.any fun (first, last) => first ≤ c.toNat && c.toNat ≤ last

/-- Stretches of code points that no name may hold: control and format characters, fillers, code
points for private use, and the wide stretches without characters. -/
def refusedRanges : List (Nat × Nat) :=
  [
    (0x80, 0x9F), (0x5F5, 0x605), (0x61C, 0x61C), (0x6DD, 0x6DD), (0x70E, 0x70F), (0x88F, 0x897),
    (0x8E2, 0x8E2), (0x115F, 0x1160), (0x1680, 0x1680), (0x17B4, 0x17B5), (0x1806, 0x1806),
    (0x180E, 0x180E), (0x200E, 0x200F), (0x2024, 0x2026), (0x2028, 0x202E), (0x2061, 0x2063),
    (0x2065, 0x206F), (0x2488, 0x249B), (0x2FD6, 0x2FFF), (0x3164, 0x3164), (0x33C2, 0x33C2),
    (0x33C7, 0x33C7), (0x33D8, 0x33D8), (0xD7FC, 0xF8FF), (0xFE12, 0xFE12), (0xFE19, 0xFE1F),
    (0xFE30, 0xFE30), (0xFE52, 0xFE53), (0xFFA0, 0xFFA0), (0xFFEF, 0xFFFF), (0x10D3A, 0x10E5F),
    (0x110BD, 0x110BD), (0x110C3, 0x110CF), (0x11B0A, 0x11BFF), (0x11DAA, 0x11EDF),
    (0x12544, 0x12F8F), (0x13430, 0x1343F), (0x13456, 0x143FF), (0x14647, 0x167FF),
    (0x16B90, 0x16E3F), (0x18D09, 0x1AFEF), (0x1B2FC, 0x1BBFF), (0x1BCA4, 0x1CEFF),
    (0x1D173, 0x1D17A), (0x1DAB0, 0x1DEFF), (0x1DF2B, 0x1DFFF), (0x1E150, 0x1E28F),
    (0x1E300, 0x1E4CF), (0x1E4FA, 0x1E7DF), (0x1E960, 0x1EC70), (0x1EEF2, 0x1EFFF),
    (0x1F0F6, 0x1F100), (0x1FBFA, 0x1FFFF), (0x2EBE1, 0x2F7FF), (0x2FA1E, 0x2FFFF),
    (0x323B0, 0xE00FF), (0xE01F0, 0x10FFFF)
  ]

/-- Characters that no name under a special scheme may hold. -/
def isForbiddenInName (c : Char) : Bool :=
  isForbiddenInHost c || c.toNat < 0x20 || c == '%' || c.toNat == 0x7F || liesIn refusedRanges c

/-- Runs of letters with a lower-case form: the first letter and the last one, the step from one to
the next, and the lower-case form of the first. -/
def letterRuns : List (Nat × Nat × Nat × Nat) :=
  [
    (0xB5, 0xB5, 1, 0x3BC), (0xC0, 0xD6, 1, 0xE0), (0xD8, 0xDE, 1, 0xF8),
    (0x100, 0x12E, 2, 0x101), (0x134, 0x136, 2, 0x135), (0x139, 0x13D, 2, 0x13A),
    (0x141, 0x147, 2, 0x142), (0x14A, 0x176, 2, 0x14B), (0x178, 0x178, 1, 0xFF),
    (0x179, 0x17D, 2, 0x17A), (0x17F, 0x17F, 1, 0x73), (0x181, 0x181, 1, 0x253),
    (0x182, 0x184, 2, 0x183), (0x186, 0x186, 1, 0x254), (0x187, 0x187, 1, 0x188),
    (0x189, 0x18A, 1, 0x256), (0x18B, 0x18B, 1, 0x18C), (0x18E, 0x18E, 1, 0x1DD),
    (0x18F, 0x18F, 1, 0x259), (0x190, 0x190, 1, 0x25B), (0x191, 0x191, 1, 0x192),
    (0x193, 0x193, 1, 0x260), (0x194, 0x194, 1, 0x263), (0x196, 0x196, 1, 0x269),
    (0x197, 0x197, 1, 0x268), (0x198, 0x198, 1, 0x199), (0x19C, 0x19C, 1, 0x26F),
    (0x19D, 0x19D, 1, 0x272), (0x19F, 0x19F, 1, 0x275), (0x1A0, 0x1A4, 2, 0x1A1),
    (0x1A6, 0x1A6, 1, 0x280), (0x1A7, 0x1A7, 1, 0x1A8), (0x1A9, 0x1A9, 1, 0x283),
    (0x1AC, 0x1AC, 1, 0x1AD), (0x1AE, 0x1AE, 1, 0x288), (0x1AF, 0x1AF, 1, 0x1B0),
    (0x1B1, 0x1B2, 1, 0x28A), (0x1B3, 0x1B5, 2, 0x1B4), (0x1B7, 0x1B7, 1, 0x292),
    (0x1B8, 0x1B8, 1, 0x1B9), (0x1BC, 0x1BC, 1, 0x1BD), (0x1CD, 0x1DB, 2, 0x1CE),
    (0x1DE, 0x1EE, 2, 0x1DF), (0x1F4, 0x1F4, 1, 0x1F5), (0x1F6, 0x1F6, 1, 0x195),
    (0x1F7, 0x1F7, 1, 0x1BF), (0x1F8, 0x21E, 2, 0x1F9), (0x220, 0x220, 1, 0x19E),
    (0x222, 0x232, 2, 0x223), (0x23A, 0x23A, 1, 0x2C65), (0x23B, 0x23B, 1, 0x23C),
    (0x23D, 0x23D, 1, 0x19A), (0x23E, 0x23E, 1, 0x2C66), (0x241, 0x241, 1, 0x242),
    (0x243, 0x243, 1, 0x180), (0x244, 0x244, 1, 0x289), (0x245, 0x245, 1, 0x28C),
    (0x246, 0x24E, 2, 0x247), (0x345, 0x345, 1, 0x3B9), (0x370, 0x372, 2, 0x371),
    (0x376, 0x376, 1, 0x377), (0x37F, 0x37F, 1, 0x3F3), (0x386, 0x386, 1, 0x3AC),
    (0x388, 0x38A, 1, 0x3AD), (0x38C, 0x38C, 1, 0x3CC), (0x38E, 0x38F, 1, 0x3CD),
    (0x391, 0x3A1, 1, 0x3B1), (0x3A3, 0x3AB, 1, 0x3C3), (0x3CF, 0x3CF, 1, 0x3D7),
    (0x3D0, 0x3D0, 1, 0x3B2), (0x3D1, 0x3D1, 1, 0x3B8), (0x3D5, 0x3D5, 1, 0x3C6),
    (0x3D6, 0x3D6, 1, 0x3C0), (0x3D8, 0x3EE, 2, 0x3D9), (0x3F0, 0x3F0, 1, 0x3BA),
    (0x3F1, 0x3F1, 1, 0x3C1), (0x3F4, 0x3F4, 1, 0x3B8), (0x3F5, 0x3F5, 1, 0x3B5),
    (0x3F7, 0x3F7, 1, 0x3F8), (0x3FA, 0x3FA, 1, 0x3FB), (0x3FD, 0x3FF, 1, 0x37B),
    (0x400, 0x40F, 1, 0x450), (0x410, 0x42F, 1, 0x430), (0x460, 0x480, 2, 0x461),
    (0x48A, 0x4BE, 2, 0x48B), (0x4C1, 0x4CD, 2, 0x4C2), (0x4D0, 0x52E, 2, 0x4D1),
    (0x531, 0x556, 1, 0x561), (0x10C7, 0x10C7, 1, 0x2D27), (0x10CD, 0x10CD, 1, 0x2D2D),
    (0x13F8, 0x13FD, 1, 0x13F0), (0x1C80, 0x1C80, 1, 0x432), (0x1C81, 0x1C81, 1, 0x434),
    (0x1C82, 0x1C82, 1, 0x43E), (0x1C83, 0x1C84, 1, 0x441), (0x1C85, 0x1C85, 1, 0x442),
    (0x1C86, 0x1C86, 1, 0x44A), (0x1C87, 0x1C87, 1, 0x463), (0x1C88, 0x1C88, 1, 0xA64B),
    (0x1C90, 0x1CBA, 1, 0x10D0), (0x1CBD, 0x1CBF, 1, 0x10FD), (0x1E00, 0x1E94, 2, 0x1E01),
    (0x1E9B, 0x1E9B, 1, 0x1E61), (0x1EA0, 0x1EFE, 2, 0x1EA1), (0x1F08, 0x1F0F, 1, 0x1F00),
    (0x1F18, 0x1F1D, 1, 0x1F10), (0x1F28, 0x1F2F, 1, 0x1F20), (0x1F38, 0x1F3F, 1, 0x1F30),
    (0x1F48, 0x1F4D, 1, 0x1F40), (0x1F59, 0x1F5F, 2, 0x1F51), (0x1F68, 0x1F6F, 1, 0x1F60),
    (0x1FB8, 0x1FB9, 1, 0x1FB0), (0x1FBA, 0x1FBA, 1, 0x1F70), (0x1FBE, 0x1FBE, 1, 0x3B9),
    (0x1FC8, 0x1FCA, 2, 0x1F72), (0x1FD8, 0x1FD9, 1, 0x1FD0), (0x1FDA, 0x1FDA, 1, 0x1F76),
    (0x1FE8, 0x1FE9, 1, 0x1FE0), (0x1FEA, 0x1FEA, 1, 0x1F7A), (0x1FEC, 0x1FEC, 1, 0x1FE5),
    (0x1FF8, 0x1FF8, 1, 0x1F78), (0x1FFA, 0x1FFA, 1, 0x1F7C), (0x2126, 0x2126, 1, 0x3C9),
    (0x212A, 0x212A, 1, 0x6B), (0x212B, 0x212B, 1, 0xE5), (0x2C00, 0x2C2F, 1, 0x2C30),
    (0x2C60, 0x2C60, 1, 0x2C61), (0x2C62, 0x2C62, 1, 0x26B), (0x2C63, 0x2C63, 1, 0x1D7D),
    (0x2C64, 0x2C64, 1, 0x27D), (0x2C67, 0x2C6B, 2, 0x2C68), (0x2C6D, 0x2C6D, 1, 0x251),
    (0x2C6E, 0x2C6E, 1, 0x271), (0x2C6F, 0x2C6F, 1, 0x250), (0x2C70, 0x2C70, 1, 0x252),
    (0x2C72, 0x2C72, 1, 0x2C73), (0x2C75, 0x2C75, 1, 0x2C76), (0x2C7E, 0x2C7F, 1, 0x23F),
    (0x2C80, 0x2CE2, 2, 0x2C81), (0x2CEB, 0x2CED, 2, 0x2CEC), (0x2CF2, 0x2CF2, 1, 0x2CF3),
    (0xA640, 0xA66C, 2, 0xA641), (0xA680, 0xA69A, 2, 0xA681), (0xA722, 0xA72E, 2, 0xA723),
    (0xA732, 0xA76E, 2, 0xA733), (0xA779, 0xA77B, 2, 0xA77A), (0xA77D, 0xA77D, 1, 0x1D79),
    (0xA77E, 0xA786, 2, 0xA77F), (0xA78B, 0xA78B, 1, 0xA78C), (0xA78D, 0xA78D, 1, 0x265),
    (0xA790, 0xA792, 2, 0xA791), (0xA796, 0xA7A8, 2, 0xA797), (0xA7AA, 0xA7AA, 1, 0x266),
    (0xA7AB, 0xA7AB, 1, 0x25C), (0xA7AC, 0xA7AC, 1, 0x261), (0xA7AD, 0xA7AD, 1, 0x26C),
    (0xA7AE, 0xA7AE, 1, 0x26A), (0xA7B0, 0xA7B0, 1, 0x29E), (0xA7B1, 0xA7B1, 1, 0x287),
    (0xA7B2, 0xA7B2, 1, 0x29D), (0xA7B3, 0xA7B3, 1, 0xAB53), (0xA7B4, 0xA7C2, 2, 0xA7B5),
    (0xA7C4, 0xA7C4, 1, 0xA794), (0xA7C5, 0xA7C5, 1, 0x282), (0xA7C6, 0xA7C6, 1, 0x1D8E),
    (0xA7C7, 0xA7C9, 2, 0xA7C8), (0xA7D0, 0xA7D0, 1, 0xA7D1), (0xA7D6, 0xA7D8, 2, 0xA7D7),
    (0xA7F5, 0xA7F5, 1, 0xA7F6), (0xAB70, 0xABBF, 1, 0x13A0), (0x10400, 0x10427, 1, 0x10428),
    (0x104B0, 0x104D3, 1, 0x104D8), (0x10570, 0x10594, 2, 0x10597),
    (0x10571, 0x10579, 2, 0x10598), (0x1057D, 0x10589, 2, 0x105A4),
    (0x1058D, 0x10591, 2, 0x105B4), (0x10595, 0x10595, 1, 0x105BC),
    (0x10C80, 0x10CB2, 1, 0x10CC0), (0x118A0, 0x118BF, 1, 0x118C0),
    (0x16E40, 0x16E5F, 1, 0x16E60), (0x1E900, 0x1E921, 1, 0x1E922)
  ]

/-- The lower-case form of a letter. Wide forms stand for the ASCII characters, and other full stops
for the ASCII one. -/
def foldLetter (c : Char) : Char :=
  let n := c.toNat
  if n < 0x80 then c.toLower
  else if 0xFF01 ≤ n ∧ n ≤ 0xFF5E then (Char.ofNat (n - 0xFEE0)).toLower
  else if n = 0x3002 ∨ n = 0xFF61 then '.'
  else if isBlank c then ' '
  else
    let run? := letterRuns.find? fun (first, last, step, _) =>
      first ≤ n && n ≤ last && (n - first) % step == 0
    match run? with
    | some (first, _, _, lower) => Char.ofNat (lower + (n - first))
    | none => c

/-- Code points that vanish from a name. -/
def ignoredRanges : List (Nat × Nat) :=
  [
    (0xAD, 0xAD), (0x34F, 0x34F), (0x180B, 0x180D), (0x180F, 0x180F), (0x200B, 0x200B),
    (0x2060, 0x2060), (0x2064, 0x2064), (0xFE00, 0xFE0F), (0xFEFF, 0xFEFF), (0x1BCA0, 0x1BCA3),
    (0xE0100, 0xE01EF)
  ]

/-- Whether a character vanishes from a name. -/
def isIgnoredInName (c : Char) : Bool :=
  liesIn ignoredRanges c

/-- Whether a name can hold a character as it is. -/
def isFolded (c : Char) : Bool :=
  foldLetter c == c && !isIgnoredInName c && !isForbiddenInName c

/-- Whether a label that claims to be encoded stands for characters beyond ASCII, all
of them folded. -/
def isEncodedLabel (label : List Char) : Bool :=
  match dropLead? "xn--".toList label with
  | none => true
  | some encoded =>
    match Punycode.decode? encoded with
    | none => false
    | some s => s.any (0x80 ≤ ·.toNat) && s.all isFolded && Punycode.encode s == encoded

/-- The ASCII form of a label. -/
def asciiLabel (label : List Char) : List Char :=
  if label.any (0x80 ≤ ·.toNat) then "xn--".toList ++ Punycode.encode label else label

/-- The ASCII form of a name under a special scheme. Characters are folded one by one: what folds to
several characters is kept, marks are not composed with their letters, and neither a leading mark
nor a mixture of directions is refused. -/
def readName (s : List Char) : Except Flaw (List Char) :=
  match Utf8.decodeChars (decodeBytes s) with
  | .error _ => .error .invalidDomain
  | .ok decoded =>
    let folded := (decoded.filter (fun c => !isIgnoredInName c)).map foldLetter
    let labels := splitChars '.' folded
    if folded.any isForbiddenInName ∨ !labels.all isEncodedLabel then .error .invalidDomain
    else .ok (joinChars '.' (labels.map asciiLabel))

/-- A host in brackets. -/
def readBracketed (s : List Char) : Except Flaw Host :=
  if s.getLast? = some ']' then (readIpv6 (s.drop 1).dropLast).map Host.ipv6
  else .error .invalidIpv6

/-- A host under a special scheme. -/
def readSpecialHost (s : List Char) : Except Flaw Host :=
  if s.head? = some '[' then readBracketed s
  else
    match readName s with
    | .error e => .error e
    | .ok name =>
      if name.isEmpty then .error .emptyHost
      else if endsInNumber name then (readIpv4 name).map Host.ipv4
      else .ok (.domain (String.ofList name))

/-- A host under any other scheme. -/
def readPlainHost (s : List Char) : Except Flaw Host :=
  if s.head? = some '[' then readBracketed s
  else if s.any isForbiddenInHost then .error .invalidDomainCharacter
  else .ok (.domain (String.ofList (encode controls s)))

/-- The text of a host in a URL. -/
def Host.text : Host → String
  | .domain name => name
  | .ipv4 address => ipv4Text address
  | .ipv6 pieces => "[" ++ ipv6Text pieces ++ "]"

end Haulage.Url
