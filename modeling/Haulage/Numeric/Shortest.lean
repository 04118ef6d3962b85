import Haulage.Numeric.Binary64
import Haulage.Numeric.Decimal

/-!
# Shortest decimals

The fewest decimal digits that read back as a given number. For one digit, two digits and so on, the
two neighbours of the number on that decimal grid are tested against the interval of reals that
round to it; the first grid with a hit wins, and of two hits the nearer one, a tie going to the even
digit.
-/

set_option autoImplicit false

namespace Haulage.Numeric

/-- Digits and the power of ten of the last digit. -/
structure ShortDecimal where
  /-- The digits, read as one number. -/
  digits : Nat
  /-- The power of ten of the last digit. -/
  exponent : Int
  deriving Repr, DecidableEq

namespace Binary64

/-- Four times the lower end of the interval that rounds to a count, in units. -/
def lowerEnd (units : Nat) : Nat :=
  let step := spacing units
  if 1 < step ∧ units = Nat.pow 2 (Nat.log2 units) then 4 * units - step else 4 * units - 2 * step

/-- Four times the upper end of the interval that rounds to a count, in units. -/
def upperEnd (units : Nat) : Nat :=
  4 * units + 2 * spacing units

/-- Whether the ends of the interval round to the count: they do when its significand is even. -/
def endsIncluded (units : Nat) : Bool :=
  (units / spacing units) % 2 = 0

/-- Whether four times a candidate, given as a quotient of units, lies in the interval. -/
def inInterval (units num den : Nat) : Bool :=
  if endsIncluded units then
    lowerEnd units * den ≤ num ∧ num ≤ upperEnd units * den
  else
    lowerEnd units * den < num ∧ num < upperEnd units * den

/-- Whether a power of ten is at most the number with the given count. -/
def powerAtMost (exponent : Int) (units : Nat) : Bool :=
  if 0 ≤ exponent then Nat.pow 10 exponent.toNat * unitsPerOne ≤ units
  else unitsPerOne ≤ units * Nat.pow 10 (-exponent).toNat

/-- The power of ten of the leading digit of a positive count. -/
def leadingPower (units : Nat) : Int :=
  let estimate : Int := ((Nat.log2 units : Int) - 1074) * 30103 / 100000
  if powerAtMost (estimate + 1) units then estimate + 1
  else if powerAtMost estimate units then estimate
  else estimate - 1

/-- The digits on the grid of a power of ten that read back as the count, if there are any. -/
def gridHit? (units : Nat) (exponent : Int) : Option Nat :=
  -- a grid point `d` is `d * num / den` units
  let num := if 0 ≤ exponent then Nat.pow 10 exponent.toNat * unitsPerOne else unitsPerOne
  let den := if 0 ≤ exponent then 1 else Nat.pow 10 (-exponent).toNat
  let below := units * den / num
  let above := below + 1
  match inInterval units (4 * below * num) den, inInterval units (4 * above * num) den with
  | false, false => none
  | true, false => some below
  | false, true => some above
  | true, true =>
    let twice := 2 * units * den
    let middle := (below + above) * num
    if twice < middle ∨ (twice = middle ∧ below % 2 = 0) then some below else some above

/-- Drops the trailing zeros of the digits. -/
def dropZeros (digits : Nat) (exponent : Int) : ShortDecimal :=
  if digits = 0 then ⟨0, exponent⟩
  else if digits % 10 = 0 then dropZeros (digits / 10) (exponent + 1)
  else ⟨digits, exponent⟩
termination_by digits
decreasing_by omega

/-- The first grid with a hit among those with the given number of digits and more. -/
def searchGrids (units : Nat) (leading : Int) : Nat → Nat → ShortDecimal
  | 0, count =>
    let exponent := leading + 1 - count
    let den := if 0 ≤ exponent then 1 else Nat.pow 10 (-exponent).toNat
    let num := if 0 ≤ exponent then Nat.pow 10 exponent.toNat * unitsPerOne else unitsPerOne
    dropZeros (units * den / num) exponent
  | more + 1, count =>
    let exponent := leading + 1 - count
    match gridHit? units exponent with
    | some digits => dropZeros digits exponent
    | none => searchGrids units leading more (count + 1)

/-- The shortest decimal that reads back as a positive count of units. -/
def shortest (units : Nat) : ShortDecimal :=
  searchGrids units (leadingPower units) 17 1

end Binary64

end Haulage.Numeric
