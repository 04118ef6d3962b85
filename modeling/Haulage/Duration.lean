import Haulage.Numeric.Decimal
import Haulage.Text.Basic
import Haulage.Text.Quoted

/-!
# Durations

A duration is a number of nanoseconds whose seconds fit in 64 bits. Its text is a sequence of
amounts, each a number with an optional fraction and a unit, such as `1h 30min` or `1.5s`. Blanks
may stand anywhere, also between digits. A month has 30.44 days and a year 365.25.
-/

set_option autoImplicit false

namespace Haulage

open Haulage.Text Haulage.Numeric

/-- A length of time in nanoseconds. -/
structure Duration where
  nanos : Nat
  deriving Repr, DecidableEq

namespace Duration

/-- A number of nanoseconds in a second. -/
def nanosPerSecond : Nat :=
  1000000000

/-- So many seconds. -/
def ofSeconds (s : Nat) : Duration :=
  ⟨s * nanosPerSecond⟩

/-- The whole seconds. -/
def seconds (d : Duration) : Nat :=
  d.nanos / nanosPerSecond

/-- The nanoseconds beyond the whole seconds. -/
def subsecondNanos (d : Duration) : Nat :=
  d.nanos % nanosPerSecond

/-- The milliseconds, a started one counting as whole. -/
def millisUp (d : Duration) : Nat :=
  (d.nanos + 999999) / 1000000

/-- The whole milliseconds. -/
def wholeMillis (d : Duration) : Nat :=
  d.nanos / 1000000

/-- The seconds with two decimals, rounded to the nearest. -/
def secondsText (d : Duration) : String :=
  let hundredths := (d.nanos + 5000000) / 10000000
  decimal (hundredths / 100) ++ "." ++ zeroPadded 2 (hundredths % 100)

/-- A number of units of so many nanoseconds, with the decimals that it needs; so many
digits are known. -/
def decimalText (d : Duration) (unitNanos digits : Nat) (word : String) : String :=
  let known := (zeroPadded digits (d.nanos % unitNanos)).toList
  let needed := (known.reverse.dropWhile (· == '0')).reverse
  decimal (d.nanos / unitNanos) ++
    (if needed.isEmpty then "" else "." ++ String.ofList needed) ++ word

/-- The duration in the largest unit, up to seconds, of which it holds at least one. -/
def text (d : Duration) : String :=
  if nanosPerSecond ≤ d.nanos then d.decimalText nanosPerSecond 9 "s"
  else if 1000000 ≤ d.nanos then d.decimalText 1000000 6 "ms"
  else if 1000 ≤ d.nanos then d.decimalText 1000 3 "µs"
  else d.decimalText 1 0 "ns"

/-- A unit of time. -/
inductive TimeUnit where
  | nanosecond
  | microsecond
  | millisecond
  | second
  | minute
  | hour
  | day
  | week
  | month
  | year
  deriving Repr, DecidableEq

/-- The unit that a word names. -/
def TimeUnit.named? (word : String) : Option TimeUnit :=
  if word ∈ ["nanos", "nsec", "ns"] then some .nanosecond
  else if word ∈ ["usec", "us", "µs"] then some .microsecond
  else if word ∈ ["millis", "msec", "ms"] then some .millisecond
  else if word ∈ ["seconds", "second", "secs", "sec", "s"] then some .second
  else if word ∈ ["minutes", "minute", "min", "mins", "m"] then some .minute
  else if word ∈ ["hours", "hour", "hrs", "hr", "h"] then some .hour
  else if word ∈ ["days", "day", "d"] then some .day
  else if word ∈ ["weeks", "week", "wks", "wk", "w"] then some .week
  else if word ∈ ["months", "month", "M"] then some .month
  else if word ∈ ["years", "year", "yrs", "yr", "y"] then some .year
  else none

/-- Seconds in one of a unit of a second or more. -/
def TimeUnit.seconds? : TimeUnit → Option Nat
  | .second => some 1
  | .minute => some 60
  | .hour => some 3600
  | .day => some 86400
  | .week => some (86400 * 7)
  | .month => some 2630016
  | .year => some 31557600
  | _ => none

/-- Nanoseconds in one of a unit below a second. -/
def TimeUnit.nanos : TimeUnit → Nat
  | .nanosecond => 1
  | .microsecond => 1000
  | .millisecond => 1000000
  | _ => 0

/-- Why a text is no duration. -/
inductive Flaw where
  | empty
  | numberExpected (offset : Nat)
  | invalidCharacter (offset : Nat)
  | unknownUnit (word : String)
  | unitNeeded (value : Nat)
  | overflow
  deriving Repr, DecidableEq

/-- The wording of a flaw. -/
def Flaw.message : Flaw → String
  | .empty => "value was empty"
  | .numberExpected offset => "expected number at " ++ decimal offset
  | .invalidCharacter offset => "invalid character at " ++ decimal offset
  | .unknownUnit word =>
    "unknown time unit " ++ quoted word ++ ", supported units: ns, us/µs, ms, sec, min, " ++
      "hours, days, weeks, months, years (and few variations)"
  | .unitNeeded value =>
    "time unit needed, for example " ++ decimal value ++ "sec or " ++ decimal value ++ "ms"
  | .overflow =>
    "number is too large or cannot be represented without a lack of precision " ++
      "(values below 1ns are not supported)"

/-- The largest number that fits in 64 bits. -/
def largest : Nat :=
  Nat.pow 2 64 - 1

/-- The number, unless it does not fit in 64 bits. -/
def checked (n : Nat) : Except Flaw Nat :=
  if n ≤ largest then .ok n else .error .overflow

/-- The duration longer by seconds and nanoseconds. -/
def plus (d : Duration) (seconds nanos : Nat) : Except Flaw Duration :=
  match checked (d.subsecondNanos + nanos) with
  | .error e => .error e
  | .ok sum =>
    match checked (d.seconds + (seconds + sum / nanosPerSecond)) with
    | .error e => .error e
    | .ok total => .ok ⟨total * nanosPerSecond + sum % nanosPerSecond⟩

/-- A decimal fraction. -/
structure Fraction where
  numerator : Nat
  denominator : Nat
  deriving Repr

/-- The duration longer by an amount of a unit. -/
def plusAmount (d : Duration) (whole : Nat) (fraction : Option Fraction) (unit : TimeUnit) :
    Except Flaw Duration := do
  let d ← match unit.seconds? with
    | some s => do d.plus (← checked (whole * s)) 0
    | none => do d.plus 0 (← checked (whole * unit.nanos))
  match fraction with
  | none => pure d
  | some f =>
    match unit with
    | .nanosecond => throw .overflow
    | .microsecond => d.plus 0 ((← checked (f.numerator * 1000)) / f.denominator)
    | .millisecond => d.plus 0 ((← checked (f.numerator * 1000000)) / f.denominator)
    | .second => d.plus 0 ((← checked (f.numerator * 1000000000)) / f.denominator)
    | .minute => d.plus 0 ((← checked (f.numerator * 60000000000)) / f.denominator)
    | unit => d.plus ((← checked (f.numerator * unit.seconds?.getD 0)) / f.denominator) 0

/-- Whether a character may stand in the name of a unit. -/
def isUnitChar (c : Char) : Bool :=
  ('a' ≤ c && c ≤ 'z') || ('A' ≤ c && c ≤ 'Z') || c == 'µ'

/-- Characters left and the byte offset of the first of them. -/
structure Tail where
  chars : List Char
  offset : Nat

/-- The first digit after blanks; the offset that a flaw names is where the search began. -/
def firstDigit (start : Nat) : List Char → Nat → Except Flaw (Option (Nat × Tail))
  | [], _ => .ok none
  | c :: rest, offset =>
    if isDecimalDigit c then .ok (some (digitOf c, ⟨rest, offset + 1⟩))
    else if isBlank c then firstDigit start rest (offset + c.utf8Size)
    else .error (.numberExpected start)

/-- The digits after a point, up to the first letter of the unit. -/
def readFraction (f : Fraction) (last : Nat) : List Char → Nat →
    Except Flaw (Fraction × List Char × Tail)
  | [], offset =>
    if f.denominator = 1 then .error (.invalidCharacter last) else .ok (f, [], ⟨[], offset⟩)
  | c :: rest, offset =>
    let next := offset + c.utf8Size
    if isDecimalDigit c then
      match checked (f.denominator * 10), checked (f.numerator * 10 + digitOf c) with
      | .ok den, .ok num => readFraction ⟨num, den⟩ next rest next
      | _, _ => .error .overflow
    else if isBlank c then readFraction f next rest next
    else if isUnitChar c then
      if f.denominator = 1 then .error (.invalidCharacter last) else .ok (f, [c], ⟨rest, next⟩)
    else .error (.invalidCharacter last)

/-- The further digits of a number, its fraction, and the first letter of its unit. -/
def readAmount (whole : Nat) : List Char → Nat →
    Except Flaw (Nat × Option Fraction × List Char × Tail)
  | [], offset => .ok (whole, none, [], ⟨[], offset⟩)
  | c :: rest, offset =>
    let next := offset + c.utf8Size
    if isDecimalDigit c then
      match checked (whole * 10 + digitOf c) with
      | .ok whole => readAmount whole rest next
      | .error e => .error e
    else if isBlank c then readAmount whole rest next
    else if isUnitChar c then .ok (whole, none, [c], ⟨rest, next⟩)
    else if c = '.' then
      (readFraction ⟨0, 1⟩ offset rest next).map fun (f, letters, tail) =>
        (whole, some f, letters, tail)
    else .error (.invalidCharacter offset)

/-- The further letters of a unit, up to a digit or past a blank. -/
def readUnit : List Char → Nat → Except Flaw (List Char × Tail)
  | [], offset => .ok ([], ⟨[], offset⟩)
  | c :: rest, offset =>
    let next := offset + c.utf8Size
    if isDecimalDigit c then .ok ([], ⟨c :: rest, offset⟩)
    else if isBlank c then .ok ([], ⟨rest, next⟩)
    else if isUnitChar c then (readUnit rest next).map fun (letters, tail) => (c :: letters, tail)
    else .error (.invalidCharacter offset)

/-- Reads amounts until the text ends; the first digit of the next one is already read. -/
def readAmounts : Nat → Duration → Nat → Tail → Except Flaw Duration
  | 0, _, _, _ => .error .overflow
  | fuel + 1, total, digit, tail => do
    let (whole, fraction, letters, tail) ← readAmount digit tail.chars tail.offset
    let (more, tail) ← readUnit tail.chars tail.offset
    let word := String.ofList (letters ++ more)
    match TimeUnit.named? word with
    | none => throw (if word.isEmpty then .unitNeeded whole else .unknownUnit word)
    | some unit =>
      let total ← total.plusAmount whole fraction unit
      match ← firstDigit tail.offset tail.chars tail.offset with
      | none => pure total
      | some (digit, tail) => readAmounts fuel total digit tail

/-- The duration that a text stands for, or its first flaw. A lone zero needs no unit. -/
def read (s : String) : Except Flaw Duration :=
  if s = "0" then .ok ⟨0⟩
  else
    match firstDigit 0 s.toList 0 with
    | .error e => .error e
    | .ok none => .error .empty
    | .ok (some (digit, tail)) => readAmounts (s.length + 1) ⟨0⟩ digit tail

end Duration

end Haulage
