import Haulage.Numeric.Binary64
import Haulage.Numeric.Shortest
import Haulage.Text.Basic

/-!
# JSON values and their text

Objects keep their members in insertion order. An integer is kept exactly; any other number is a
finite double.

The compact form has no blanks. The pretty form puts each item and member on a line of its own,
indented by two spaces a level, and leaves empty arrays and objects closed. A real number has the
fewest digits that read back, written positionally while its leading digit stands between `10 ^ -5`
and `10 ^ 15`, with a point always present, and with a signed exponent outside.
-/

set_option autoImplicit false

namespace Haulage.Json

open Haulage.Numeric Haulage.Text

/-- A JSON number. -/
inductive Number where
  /-- An integer that fits in 64 bits, signed or unsigned. -/
  | integer (i : Int)
  /-- Any other number. -/
  | real (x : Binary64)
  deriving Repr, DecidableEq

/-- A JSON value. -/
inductive Value where
  | null
  | bool (b : Bool)
  | number (n : Number)
  | string (s : String)
  | array (items : List Value)
  | object (members : List (String × Value))
  deriving Repr, BEq, Inhabited

/-- The members of an object, in order. -/
abbrev Members := List (String × Value)

namespace Members

/-- The value of the first member with a key. -/
def get? (members : Members) (key : String) : Option Value :=
  (members.find? (fun m => m.1 == key)).map Prod.snd

/-- The keys in order. -/
def keys (members : Members) : List String :=
  members.map Prod.fst

/-- Binds a key: in place when it is present, else at the end. -/
def set (members : Members) (key : String) (value : Value) : Members :=
  match members with
  | [] => [(key, value)]
  | (k, v) :: rest => if k = key then (key, value) :: rest else (k, v) :: set rest key value

/-- Binds every member of the second object in turn. -/
def update (members extra : Members) : Members :=
  extra.foldl (fun acc m => acc.set m.1 m.2) members

/-- Removes a key; the last member takes its place. -/
def eraseSwap (members : Members) (key : String) : Members :=
  match members.findIdx? (fun m => m.1 == key) with
  | none => members
  | some i =>
    match members.getLast? with
    | none => members
    | some last => if i + 1 = members.length then members.dropLast else members.dropLast.set i last

@[simp] theorem get?_nil (key : String) : get? [] key = none := rfl

theorem get?_cons (k : String) (v : Value) (rest : Members) (key : String) :
    get? ((k, v) :: rest) key = if k = key then some v else get? rest key := by
  by_cases h : k = key <;> simp [get?, h]

/-- A bound key has the value it was bound to, and no other key is touched. -/
theorem get?_set (members : Members) (key : String) (value : Value) (other : String) :
    get? (set members key value) other = if key =
      other then some value else get? members other := by
  induction members with
  | nil => simp [set, get?_cons]
  | cons m rest ih =>
    obtain ⟨k, v⟩ := m
    unfold set
    by_cases hk : k = key
    · subst hk
      simp only [if_true, get?_cons]
      by_cases ho : k = other <;> simp [ho]
    · simp only [hk, if_false, get?_cons, ih]
      by_cases ho : key = other
      · subst ho; simp [hk]
      · simp [ho]

/-- Binding a key keeps the order of the keys. -/
theorem keys_set (members : Members) (key : String) (value : Value) :
    keys (set members key value) =
      if key ∈ keys members then keys members else keys members ++ [key] := by
  induction members with
  | nil => simp [set, keys]
  | cons m rest ih =>
    obtain ⟨k, v⟩ := m
    unfold set
    by_cases hk : k = key
    · subst hk; simp [keys]
    · have hk' : ¬ key = k := fun h => hk h.symm
      simp only [hk, if_false, keys, List.map_cons, List.mem_cons, hk', false_or] at ih ⊢
      rw [ih]
      split <;> simp_all

end Members

/-- The members of an object; nothing for any other value. -/
def Value.members? : Value → Option Members
  | .object members => some members
  | _ => none

/-- Whether the value is null. -/
def Value.isNull : Value → Bool
  | .null => true
  | _ => false

/-- A natural number as a value. -/
def Value.ofNat (n : Nat) : Value :=
  .number (.integer n)

/-- A text or null. -/
def Value.ofOption (s : Option String) : Value :=
  match s with
  | none => .null
  | some s => .string s

/-! ## Text -/

/-- The characters of a string body for one character. -/
def escapedChar (c : Char) : List Char :=
  if c = '"' then ['\\', '"']
  else if c = '\\' then ['\\', '\\']
  else if c = '\x08' then ['\\', 'b']
  else if c = '\x0c' then ['\\', 'f']
  else if c = '\n' then ['\\', 'n']
  else if c = '\r' then ['\\', 'r']
  else if c = '\t' then ['\\', 't']
  else if c.toNat < 0x20 then
    ['\\', 'u', '0', '0', hexDigit (c.toNat / 16), hexDigit (c.toNat % 16)]
  else [c]

/-- A string between quotes. -/
def stringChars (s : String) : List Char :=
  '"' :: s.toList.flatMap escapedChar ++ ['"']

/-- The digits of a positive real number with a point or an exponent. -/
def realChars (d : ShortDecimal) : List Char :=
  let digits := decimalChars d.digits
  let point : Int := digits.length + d.exponent
  if 0 ≤ d.exponent ∧ point ≤ 16 then
    digits ++ List.replicate d.exponent.toNat '0' ++ ['.', '0']
  else if 0 < point ∧ point ≤ 16 then
    digits.take point.toNat ++ '.' :: digits.drop point.toNat
  else if -5 < point ∧ point ≤ 0 then
    '0' :: '.' :: List.replicate (-point).toNat '0' ++ digits
  else
    let power := point - 1
    let sign := if 0 ≤ power then '+' else '-'
    let mantissa := if digits.length = 1 then digits else digits.take 1 ++ '.' :: digits.drop 1
    mantissa ++ 'e' :: sign :: decimalChars power.natAbs

/-- The text of a number. A number without a finite value is written as null. -/
def Number.chars : Number → List Char
  | .integer i => if i < 0 then '-' :: decimalChars i.natAbs else decimalChars i.natAbs
  | .real (.finite negative units) =>
    let body := if units = 0 then ['0', '.', '0'] else realChars (Binary64.shortest units)
    if negative then '-' :: body else body
  | .real _ => ['n', 'u', 'l', 'l']

namespace Value

mutual
/-- The compact form. -/
def compactChars : Value → List Char
  | .null => ['n', 'u', 'l', 'l']
  | .bool true => ['t', 'r', 'u', 'e']
  | .bool false => ['f', 'a', 'l', 's', 'e']
  | .number n => n.chars
  | .string s => stringChars s
  | .array [] => ['[', ']']
  | .array (v :: vs) => '[' :: compactChars v ++ compactItems vs
  | .object [] => ['\x7b', '\x7d']
  | .object ((k, v) :: ms) => '\x7b' :: stringChars k ++ ':' :: compactChars v ++ compactMembers ms
/-- The further items of an array and its end. -/
def compactItems : List Value → List Char
  | [] => [']']
  | v :: vs => ',' :: compactChars v ++ compactItems vs
/-- The further members of an object and its end. -/
def compactMembers : List (String × Value) → List Char
  | [] => ['\x7d']
  | (k, v) :: ms => ',' :: stringChars k ++ ':' :: compactChars v ++ compactMembers ms
end

/-- A newline and the indentation of a level. -/
def newline (level : Nat) : List Char :=
  '\n' :: List.replicate (2 * level) ' '

mutual
/-- The pretty form of a value that stands at a level. -/
def prettyChars (level : Nat) : Value → List Char
  | .null => ['n', 'u', 'l', 'l']
  | .bool true => ['t', 'r', 'u', 'e']
  | .bool false => ['f', 'a', 'l', 's', 'e']
  | .number n => n.chars
  | .string s => stringChars s
  | .array [] => ['[', ']']
  | .array (v :: vs) =>
    '[' :: newline (level + 1) ++ prettyChars (level + 1) v ++ prettyItems level vs
  | .object [] => ['\x7b', '\x7d']
  | .object ((k, v) :: ms) =>
    '\x7b' :: newline (level + 1) ++ stringChars k ++ [':', ' '] ++ prettyChars (level + 1) v ++
      prettyMembers level ms
/-- The further items of an array at a level and its end. -/
def prettyItems (level : Nat) : List Value → List Char
  | [] => newline level ++ [']']
  | v :: vs => ',' :: newline (level + 1) ++ prettyChars (level + 1) v ++ prettyItems level vs
/-- The further members of an object at a level and its end. -/
def prettyMembers (level : Nat) : List (String × Value) → List Char
  | [] => newline level ++ ['\x7d']
  | (k, v) :: ms =>
    ',' :: newline (level + 1) ++ stringChars k ++ [':', ' '] ++ prettyChars (level + 1) v ++
      prettyMembers level ms
end

/-- The compact text of a value. -/
def compact (v : Value) : String :=
  String.ofList v.compactChars

/-- The pretty text of a value. -/
def pretty (v : Value) : String :=
  String.ofList (v.prettyChars 0)

end Value

end Haulage.Json
