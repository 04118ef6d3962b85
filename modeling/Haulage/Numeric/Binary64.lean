import Haulage.Numeric.Decimal

/-!
# Binary floating point with 53 bits of precision

A finite number is a sign and a count of the smallest positive number, `2 ^ -1074`, so its value is
an exact integer in that unit. Every operation is exact arithmetic on counts followed by one
rounding: to the nearest number of at most 53 significant bits, a tie to the even one, and to
infinity from `2 ^ 1024` on.

A literal is an optional sign, then `inf`, `infinity` or `nan` in any case, or digits with an
optional point and an optional exponent. At least one digit stands before the exponent, on either
side of the point. Blanks and digit separators are refused. The value is the nearest number to the
exact decimal value, with the exponent as far as it is read.
-/

set_option autoImplicit false

namespace Haulage.Numeric

/-- A double-precision number; the payload of a NaN is not kept. -/
inductive Binary64 where
  /-- Not a number. -/
  | nan
  /-- An infinity of either sign. -/
  | infinity (negative : Bool)
  /-- A sign and a count of units of `2 ^ -1074`. -/
  | finite (negative : Bool) (units : Nat)
  deriving Repr, DecidableEq

namespace Binary64

/-- Number of units in one. -/
def unitsPerOne : Nat :=
  Nat.pow 2 1074

/-- The count of units from which on a number is infinite. -/
def limit : Nat :=
  Nat.pow 2 2098

/-- The quotient rounded to the nearest integer, a tie to the even one. -/
def roundedQuotient (num den : Nat) : Nat :=
  let q := num / den
  let r := num % den
  if den < 2 * r ∨ (2 * r = den ∧ q % 2 = 1) then q + 1 else q

/-- Spacing of the numbers that have the magnitude of the given count. -/
def spacing (units : Nat) : Nat :=
  Nat.pow 2 (Nat.log2 units - 52)

/-- The count nearest to a quotient of units. -/
def roundedUnits (num den : Nat) : Nat :=
  let step := spacing (num / den)
  roundedQuotient num (den * step) * step

/-- The number of a sign and a quotient of units. -/
def ofUnits (negative : Bool) (num den : Nat) : Binary64 :=
  let units := roundedUnits num den
  if units < limit then .finite negative units else .infinity negative

/-- The number nearest to a quotient. -/
def ofQuotient (negative : Bool) (num den : Nat) : Binary64 :=
  ofUnits negative (num * unitsPerOne) den

/-- The number nearest to `significand * 10 ^ exponent`. What is far from all finite numbers but
zero is told from the length of the significand alone. -/
def ofDecimal (negative : Bool) (significand : Nat) (exponent : Int) : Binary64 :=
  if significand = 0 then .finite negative 0
  else
    let length := Nat.log2 significand
    -- `10 ^ 1233 ≤ 2 ^ 4096` and `2 ^ 485 < 10 ^ 146`: the value is at least `10 ^ low` and below
    -- `10 ^ high`
    let low : Int := exponent + (length * 1233 / 4096 : Nat)
    let high : Int := exponent + ((length + 1) * 146 / 485 + 1 : Nat)
    if high ≤ -330 then .finite negative 0
    else if 320 ≤ low then .infinity negative
    else ofQuotient negative (significand * Nat.pow 10 exponent.toNat)
      (Nat.pow 10 (-exponent).toNat)

/-- The product of two positive finite counts, in units. -/
def mulUnits (a b : Nat) : Binary64 :=
  ofUnits false (a * b) unitsPerOne

/-- The quotient of two positive finite counts, in units. -/
def divUnits (a b : Nat) : Binary64 :=
  ofUnits false (a * unitsPerOne) b

/-- The count of units of a finite number. -/
def units? : Binary64 → Option Nat
  | .finite _ units => some units
  | _ => none

/-- The place of a number in the numeric order; a NaN has none. Both zeros have place zero. -/
def rank? : Binary64 → Option Int
  | .nan => none
  | .infinity true => some (-(limit : Int))
  | .infinity false => some limit
  | .finite true units => some (-(units : Int))
  | .finite false units => some units

/-- Numeric comparison; a NaN compares with nothing. -/
def compare? (a b : Binary64) : Option Ordering :=
  match a.rank?, b.rank? with
  | some x, some y => some (compare x y)
  | _, _ => none

end Binary64

/-! ## Literals -/

/-- The sign of a literal and what follows it. -/
def splitSign : List Char → Bool × List Char
  | '-' :: rest => (true, rest)
  | '+' :: rest => (false, rest)
  | rest => (false, rest)

/-- The value of exponent digits; once it has reached `0x10000`, no further digit is read. -/
def exponentDigits (digits : List Char) : Nat :=
  digits.foldl (fun n c => if n < 0x10000 then 10 * n + digitOf c else n) 0

/-- The exponent part of a literal, which must be all that is left; nothing left stands for zero. -/
def readExponent? : List Char → Option Int
  | [] => some 0
  | c :: rest =>
    if c = 'e' ∨ c = 'E' then
      let (negative, digits) := splitSign rest
      if digits.isEmpty || !digits.all isDecimalDigit then none
      else some (if negative then -(exponentDigits digits : Int) else exponentDigits digits)
    else none

/-- The digits after the point and what follows them; without a point there are none. -/
def splitFraction : List Char → List Char × List Char
  | '.' :: rest => (rest.takeWhile isDecimalDigit, rest.dropWhile isDecimalDigit)
  | rest => ([], rest)

/-- The number that an unsigned literal in digits stands for. -/
def readDigits? (negative : Bool) (s : List Char) : Option Binary64 :=
  let whole := s.takeWhile isDecimalDigit
  let (fraction, rest) := splitFraction (s.dropWhile isDecimalDigit)
  if whole.isEmpty && fraction.isEmpty then none
  else
    (readExponent? rest).map fun exponent =>
      Binary64.ofDecimal negative (ofDigits (whole ++ fraction)) (exponent - fraction.length)

/-- The number that a literal stands for. -/
def readLiteral? (s : String) : Option Binary64 :=
  let (negative, body) := splitSign s.toList
  let folded := body.map Char.toLower
  if folded = "inf".toList ∨ folded = "infinity".toList then some (.infinity negative)
  else if folded = "nan".toList then some .nan
  else readDigits? negative body

end Haulage.Numeric
