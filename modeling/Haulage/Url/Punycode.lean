/-!
# Punycode

Characters beyond ASCII written with letters and digits: the ASCII characters first, then for each
other character, in ascending order, the distance from the one before it as a number of variable
length in base 36 whose digit thresholds adapt to the distances seen.
-/

set_option autoImplicit false

namespace Haulage.Url.Punycode

/-- The character of a digit below 36. -/
def digitChar (d : Nat) : Char :=
  if d < 26 then Char.ofNat ('a'.toNat + d) else Char.ofNat ('0'.toNat + (d - 26))

/-- The digit of a character. -/
def digitValue? (c : Char) : Option Nat :=
  if 'a' ≤ c ∧ c ≤ 'z' then some (c.toNat - 'a'.toNat)
  else if 'A' ≤ c ∧ c ≤ 'Z' then some (c.toNat - 'A'.toNat)
  else if '0' ≤ c ∧ c ≤ '9' then some (c.toNat - '0'.toNat + 26)
  else none

/-- The threshold of the digit at a position, positions being counted in steps of 36. -/
def threshold (position bias : Nat) : Nat :=
  if position ≤ bias then 1 else if bias + 26 ≤ position then 26 else position - bias

/-- Divides a distance by 35 until it is small; counts the divisions in steps of 36. -/
def settle (distance position : Nat) : Nat × Nat :=
  if 455 < distance then settle (distance / 35) (position + 36) else (distance, position)
termination_by distance
decreasing_by omega

/-- The bias after a distance. -/
def adapt (distance count : Nat) (first : Bool) : Nat :=
  let start := if first then distance / 700 else distance / 2
  let (rest, position) := settle (start + start / count) 0
  position + 36 * rest / (rest + 38)

/-- A distance as digits. -/
def digits (bias position distance : Nat) : List Char :=
  let t := threshold position bias
  if distance < t then [digitChar distance]
  else digitChar (t + (distance - t) % (36 - t)) ::
    digits bias (position + 36) ((distance - t) / (36 - t))
termination_by distance
decreasing_by
  have hpos : 1 ≤ threshold position bias := by unfold threshold; (repeat' split) <;> omega
  have hle := Nat.div_le_self (distance - threshold position bias) (36 - threshold position bias)
  omega

/-- The state of an encoder between two characters. -/
structure Encoder where
  output : List Char
  distance : Nat
  bias : Nat
  handled : Nat

/-- Sees one character of the input while the code point `target` is being placed. -/
def Encoder.see (basic target : Nat) (e : Encoder) (c : Char) : Encoder :=
  if c.toNat < target then { e with distance := e.distance + 1 }
  else if c.toNat = target then
    { output := e.output ++ digits e.bias 36 e.distance
      distance := 0
      bias := adapt e.distance (e.handled + 1) (e.handled == basic)
      handled := e.handled + 1 }
  else e

/-- The code points beyond ASCII in ascending order, each once. -/
def targets (s : List Char) : List Nat :=
  (((s.filter (fun c => 0x80 ≤ c.toNat)).map Char.toNat).mergeSort (· ≤ ·)).eraseDups

/-- The encoded form of a sequence that has characters beyond ASCII. -/
def encode (s : List Char) : List Char :=
  let basic := s.filter (fun c => c.toNat < 0x80)
  let start : Encoder := ⟨[], 0, 72, basic.length⟩
  let (last, _) := (targets s).foldl
    (fun (e, reached) target =>
      let e := { e with distance := e.distance + (target - reached) * (e.handled + 1) }
      let e := s.foldl (Encoder.see basic.length target) e
      ({ e with distance := e.distance + 1 }, target + 1))
    (start, 0x80)
  basic ++ (if basic.isEmpty then [] else ['-']) ++ last.output

/-- Reads one distance; gives the sum with what was there and the characters left. -/
def readDistance? (bias : Nat) : List Char → Nat → Nat → Nat → Option (Nat × List Char)
  | [], _, _, _ => none
  | c :: rest, position, weight, sum =>
    match digitValue? c with
    | none => none
    | some d =>
      let t := threshold position bias
      if d < t then some (sum + d * weight, rest)
      else readDistance? bias rest (position + 36) (weight * (36 - t)) (sum + d * weight)

/-- Reads distances and inserts their characters until the input ends. -/
def readAll? : Nat → List Char → Nat → Nat → Nat → List Char → Option (List Char)
  | _, [], _, _, _, output => some output
  | 0, _, _, _, _, _ => none
  | fuel + 1, input, index, point, bias, output =>
    match readDistance? bias input 36 1 index with
    | none => none
    | some (reached, rest) =>
      let size := output.length + 1
      let point := point + reached / size
      let place := reached % size
      if 0x10FFFF < point ∨ (0xD800 ≤ point ∧ point ≤ 0xDFFF) then none
      else
        readAll? fuel rest (place + 1) point (adapt (reached - index) size (index == 0))
          (output.take place ++ Char.ofNat point :: output.drop place)

/-- The sequence that an encoded form stands for. -/
def decode? (s : List Char) : Option (List Char) :=
  let reversed := s.reverse
  match reversed.dropWhile (· != '-') with
  | [] => readAll? s.length s 0 0x80 72 []
  | _ :: basic => readAll? s.length (reversed.takeWhile (· != '-')).reverse 0 0x80 72 basic.reverse

end Haulage.Url.Punycode
