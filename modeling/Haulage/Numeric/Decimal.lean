/-!
# Decimal digits of natural numbers

Writing a number in base ten without leading zeros, and reading digits back.
-/

set_option autoImplicit false

namespace Haulage.Numeric

/-- The decimal digit of a value below ten. -/
def decimalDigit (n : Nat) : Char :=
  Char.ofNat ('0'.toNat + n)

/-- The decimal digits of a number, at least one of them and no leading zero. -/
def decimalChars (n : Nat) : List Char :=
  if n < 10 then [decimalDigit n] else decimalChars (n / 10) ++ [decimalDigit (n % 10)]

/-- The decimal text of a number. -/
def decimal (n : Nat) : String :=
  String.ofList (decimalChars n)

/-- The decimal text of an integer, with a minus sign when it is negative. -/
def decimalInt (i : Int) : String :=
  if i < 0 then String.ofList ('-' :: decimalChars i.natAbs) else decimal i.natAbs

/-- The value of a decimal digit. -/
def digitOf (c : Char) : Nat :=
  c.toNat - '0'.toNat

/-- Whether a character is one of the ten decimal digits. -/
def isDecimalDigit (c : Char) : Bool :=
  '0' ≤ c && c ≤ '9'

/-- The number that a sequence of decimal digits stands for. -/
def ofDigits (digits : List Char) : Nat :=
  digits.foldl (fun acc c => acc * 10 + digitOf c) 0

theorem digitOf_decimalDigit : ∀ n, n < 10 → digitOf (decimalDigit n) = n := by
  decide

theorem isDecimalDigit_decimalDigit : ∀ n, n < 10 → isDecimalDigit (decimalDigit n) = true := by
  decide

/-- Reading the digits of a number gives the number. -/
theorem ofDigits_decimalChars (n : Nat) : ofDigits (decimalChars n) = n := by
  rw [decimalChars]
  split
  · rename_i h
    simp [ofDigits, digitOf_decimalDigit n h]
  · have ih := ofDigits_decimalChars (n / 10)
    simp only [ofDigits, List.foldl_append, List.foldl_cons, List.foldl_nil] at ih ⊢
    rw [ih, digitOf_decimalDigit _ (Nat.mod_lt _ (by decide))]
    omega
termination_by n
decreasing_by omega

/-- Only digits are written. -/
theorem isDecimalDigit_of_mem_decimalChars (n : Nat) :
    ∀ c ∈ decimalChars n, isDecimalDigit c = true := by
  rw [decimalChars]
  split
  · rename_i h
    simpa using isDecimalDigit_decimalDigit n h
  · intro c hc
    rcases List.mem_append.mp hc with hc | hc
    · exact isDecimalDigit_of_mem_decimalChars (n / 10) c hc
    · rw [List.mem_singleton] at hc
      exact hc ▸ isDecimalDigit_decimalDigit _ (Nat.mod_lt _ (by decide))
termination_by n
decreasing_by omega

/-- The text padded with leading zeros to a width. -/
def zeroPadded (width n : Nat) : String :=
  let digits := decimalChars n
  String.ofList (List.replicate (width - digits.length) '0' ++ digits)

end Haulage.Numeric
