import Haulage.Json.Token

/-!
# Reading JSON

A value with optional blanks around it. Arrays and objects nest at most 127 deep. A repeated key
keeps its first position and takes the last value. The reader stops at the first flaw.

A value whose content does not matter is passed over. Then nesting is not limited, surrogates need
not come in pairs and numbers may be of any size, but the text must be JSON otherwise.
-/

set_option autoImplicit false

namespace Haulage.Json

open Haulage.Numeric

/-! ## Values -/

/-- How deep arrays and objects may nest. -/
def deepest : Nat :=
  127

/-- Requires the colon of a member. -/
def readColon (cur : Cursor) : Except Flaw Cursor :=
  let cur := cur.skipGap
  match cur.rest with
  | [] => cur.failAhead .endInObject
  | c :: rest => if c = ':' then .ok (cur.advance c rest) else cur.failAhead .expectedColon

/-- Where the items of an array go on. -/
inductive NextItem where
  | done (cur : Cursor)
  | item (cur : Cursor)

/-- Looks for the next item of an array. -/
def nextItem (first : Bool) (cur : Cursor) : Except Flaw NextItem :=
  let cur := cur.skipGap
  match cur.rest with
  | [] => cur.failAhead .endInList
  | c :: rest =>
    if c = ']' then .ok (.done (cur.advance c rest))
    else if first then .ok (.item cur)
    else if c = ',' then
      let cur := (cur.advance c rest).skipGap
      match cur.rest with
      | [] => cur.failAhead .endInValue
      | d :: _ => if d = ']' then cur.failAhead .trailingComma else .ok (.item cur)
    else cur.failAhead .expectedListCommaOrEnd

/-- Where the members of an object go on: after the opening quote of a key, or after the end. -/
inductive NextKey where
  | done (cur : Cursor)
  | key (cur : Cursor)

/-- Looks for the next key of an object. -/
def nextKey (first : Bool) (cur : Cursor) : Except Flaw NextKey :=
  let cur := cur.skipGap
  match cur.rest with
  | [] => cur.failAhead .endInObject
  | c :: rest =>
    if c = '\x7d' then .ok (.done (cur.advance c rest))
    else if first then
      if c = '"' then .ok (.key (cur.advance c rest)) else cur.failAhead .keyMustBeString
    else if c = ',' then
      let cur := (cur.advance c rest).skipGap
      match cur.rest with
      | [] => cur.failAhead .endInValue
      | d :: rest =>
        if d = '"' then .ok (.key (cur.advance d rest))
        else if d = '\x7d' then cur.failAhead .trailingComma
        else cur.failAhead .keyMustBeString
    else cur.failAhead .expectedObjectCommaOrEnd

mutual
/-- Reads a value. The fuel bounds the steps, the allowance bounds the nesting. -/
def readValue (fuel allowed : Nat) (cur : Cursor) : Reading Value :=
  match fuel with
  | 0 => cur.fail .endInValue
  | fuel + 1 =>
    let cur := cur.skipGap
    match cur.rest with
    | [] => cur.failAhead .endInValue
    | c :: rest =>
      let next := cur.advance c rest
      if c = 'n' then (readWord ['u', 'l', 'l'] next).map fun cur => (Value.null, cur)
      else if c = 't' then (readWord ['r', 'u', 'e'] next).map fun cur => (Value.bool true, cur)
      else if c = 'f' then
        (readWord ['a', 'l', 's', 'e'] next).map fun cur => (Value.bool false, cur)
      else if c = '-' then (readNumber true next).map fun r => (Value.number r.1, r.2)
      else if Numeric.isDecimalDigit c then
        (readNumber false cur).map fun r => (Value.number r.1, r.2)
      else if c = '"' then (readStringBody [] next).map fun r => (Value.string r.1, r.2)
      else if c = '[' then
        match allowed with
        | 0 => cur.failAhead .tooDeep
        | allowed + 1 => readItems fuel allowed [] next
      else if c = '\x7b' then
        match allowed with
        | 0 => cur.failAhead .tooDeep
        | allowed + 1 => readMembers fuel allowed true [] next
      else cur.failAhead .expectedValue
/-- Reads the further items of an array; the items so far come in reverse. -/
def readItems (fuel allowed : Nat) (soFar : List Value) (cur : Cursor) : Reading Value :=
  match fuel with
  | 0 => cur.fail .endInList
  | fuel + 1 =>
    match nextItem soFar.isEmpty cur with
    | .error e => .error e
    | .ok (.done cur) => .ok (.array soFar.reverse, cur)
    | .ok (.item cur) =>
      match readValue fuel allowed cur with
      | .error e => .error e
      | .ok (v, cur) => readItems fuel allowed (v :: soFar) cur
/-- Reads the further members of an object. -/
def readMembers (fuel allowed : Nat) (first : Bool) (soFar : Members) (cur : Cursor) :
    Reading Value :=
  match fuel with
  | 0 => cur.fail .endInObject
  | fuel + 1 =>
    match nextKey first cur with
    | .error e => .error e
    | .ok (.done cur) => .ok (.object soFar, cur)
    | .ok (.key cur) =>
      match readStringBody [] cur with
      | .error e => .error e
      | .ok (key, cur) =>
        match readColon cur with
        | .error e => .error e
        | .ok cur =>
          match readValue fuel allowed cur with
          | .error e => .error e
          | .ok (v, cur) => readMembers fuel allowed false (soFar.set key v) cur
end

/-- Enough fuel for any value that starts at the cursor. -/
def Cursor.fuel (cur : Cursor) : Nat :=
  2 * cur.rest.length + 2

/-- Requires that nothing but blanks is left. -/
def readEnd (cur : Cursor) : Except Flaw Unit :=
  let cur := cur.skipGap
  match cur.rest with
  | [] => .ok ()
  | _ => cur.failAhead .trailingCharacters

/-- The value that a text holds, or its first flaw. -/
def read (s : String) : Except Flaw Value :=
  let cur := Cursor.start s
  match readValue cur.fuel deepest cur with
  | .error e => .error e
  | .ok (v, cur) => (readEnd cur).map fun _ => v

/-! ## Skipping -/

/-- Passes over an escape after its backslash. -/
def skipEscape (cur : Cursor) : Except Flaw Cursor :=
  match cur.rest with
  | [] => cur.fail .endInString
  | c :: rest =>
    if (shortEscape? c).isSome then .ok (cur.advance c rest)
    else if c = 'u' then (readHex (cur.advance c rest)).map Prod.snd
    else cur.failAhead .invalidEscape

/-- Passes over a string after its opening quote. -/
def skipString : Nat → Cursor → Except Flaw Cursor
  | 0, cur => cur.fail .endInString
  | fuel + 1, cur =>
    match cur.rest with
    | [] => cur.fail .endInString
    | c :: rest =>
      if c = '"' then .ok (cur.advance c rest)
      else if c = '\\' then
        match skipEscape (cur.advance c rest) with
        | .error e => .error e
        | .ok cur => skipString fuel cur
      else if c.toNat < 0x20 then cur.fail .controlCharacter
      else skipString fuel (cur.advance c rest)

/-- Passes over an exponent after its letter. -/
def skipExponent (cur : Cursor) : Except Flaw Cursor :=
  let cur :=
    match cur.rest with
    | '+' :: rest => cur.advance '+' rest
    | '-' :: rest => cur.advance '-' rest
    | _ => cur
  match cur.rest with
  | c :: _ =>
    if isDecimalDigit c then .ok (takeDigits cur).2 else .error ⟨.invalidNumber, cur.ahead⟩
  | [] => cur.fail .invalidNumber

/-- Passes over the exponent of a number, if it has one. -/
def skipOptionalExponent (cur : Cursor) : Except Flaw Cursor :=
  match cur.rest with
  | c :: rest => if c = 'e' ∨ c = 'E' then skipExponent (cur.advance c rest) else .ok cur
  | [] => .ok cur

/-- Passes over a number after its sign. -/
def skipNumber (cur : Cursor) : Except Flaw Cursor :=
  match cur.rest with
  | [] => cur.fail .invalidNumber
  | c :: rest =>
    if !isDecimalDigit c then .error ⟨.invalidNumber, cur.ahead⟩
    else
      let after := if c = '0' then cur.advance c rest else (takeDigits cur).2
      match after.rest with
      | [] => .ok after
      | next :: rest' =>
        if c = '0' ∧ isDecimalDigit next then after.failAhead .invalidNumber
        else if next = '.' then
          let (digits, end_) := takeDigits (after.advance next rest')
          if digits.isEmpty then (after.advance next rest').failAhead .invalidNumber
          else skipOptionalExponent end_
        else skipOptionalExponent after

/-- What encloses a value that is passed over. -/
inductive Frame where
  | list
  | object

/-- Passes over a key and its colon. -/
def skipKey (cur : Cursor) : Except Flaw Cursor :=
  let cur := cur.skipGap
  match cur.rest with
  | [] => cur.failAhead .endInObject
  | c :: rest =>
    if c = '"' then
      match skipString cur.fuel (cur.advance c rest) with
      | .error e => .error e
      | .ok cur => readColon cur
    else cur.failAhead .keyMustBeString

mutual
/-- Passes over a value inside the given frames. -/
def skipValue (fuel : Nat) (frames : List Frame) (cur : Cursor) : Except Flaw Cursor :=
  match fuel with
  | 0 => cur.fail .endInValue
  | fuel + 1 =>
    let cur := cur.skipGap
    match cur.rest with
    | [] => cur.failAhead .endInValue
    | c :: rest =>
      let next := cur.advance c rest
      let scalar : Option (Except Flaw Cursor) :=
        if c = 'n' then some (readWord ['u', 'l', 'l'] next)
        else if c = 't' then some (readWord ['r', 'u', 'e'] next)
        else if c = 'f' then some (readWord ['a', 'l', 's', 'e'] next)
        else if c = '-' then some (skipNumber next)
        else if isDecimalDigit c then some (skipNumber cur)
        else if c = '"' then some (skipString cur.fuel next)
        else none
      match scalar with
      | some (.error e) => .error e
      | some (.ok cur) => skipRest fuel frames cur
      | none =>
        if c = '[' then
          let inner := next.skipGap
          match inner.rest with
          | [] => inner.failAhead .endInList
          | d :: after =>
            if d = ']' then skipRest fuel frames (inner.advance d after)
            else skipValue fuel (.list :: frames) inner
        else if c = '\x7b' then
          let inner := next.skipGap
          match inner.rest with
          | [] => inner.failAhead .endInObject
          | d :: after =>
            if d = '\x7d' then skipRest fuel frames (inner.advance d after)
            else
              match skipKey inner with
              | .error e => .error e
              | .ok inner => skipValue fuel (.object :: frames) inner
        else cur.failAhead .expectedValue
/-- Goes on after a value inside the given frames. -/
def skipRest (fuel : Nat) (frames : List Frame) (cur : Cursor) : Except Flaw Cursor :=
  match fuel with
  | 0 => cur.fail .endInValue
  | fuel + 1 =>
    match frames with
    | [] => .ok cur
    | .list :: outer =>
      let cur := cur.skipGap
      match cur.rest with
      | [] => cur.failAhead .endInList
      | c :: rest =>
        if c = ',' then skipValue fuel (.list :: outer) (cur.advance c rest)
        else if c = ']' then skipRest fuel outer (cur.advance c rest)
        else cur.failAhead .expectedListCommaOrEnd
    | .object :: outer =>
      let cur := cur.skipGap
      match cur.rest with
      | [] => cur.failAhead .endInObject
      | c :: rest =>
        if c = ',' then
          match skipKey (cur.advance c rest) with
          | .error e => .error e
          | .ok cur => skipValue fuel (.object :: outer) cur
        else if c = '\x7d' then skipRest fuel outer (cur.advance c rest)
        else cur.failAhead .expectedObjectCommaOrEnd
end

end Haulage.Json
