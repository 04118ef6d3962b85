import Haulage.Numeric.Decimal
import Mathlib.Tactic.Ring

/-!
# Sequences of decimal digits

Digits that follow others stand for the sum of what both stand for, the front ones shifted. A number
that is written has as many digits as its magnitude asks for, and no zero in front.

- `digitsOnto_eq`: digits that follow a number.
- `length_decimalChars_le`: how many digits are written.
- `isWhole_decimalChars`: they can be the whole part of a number.
-/

set_option autoImplicit false

namespace Haulage.Numeric

variable {digits : List Char} {n : Nat}

/-! ## Digits behind a number -/

/-- The number that digits behind a number make of it. -/
def digitsOnto (n : Nat) (digits : List Char) : Nat :=
  digits.foldl (fun acc c => acc * 10 + digitOf c) n

theorem ofDigits_eq (digits : List Char) : ofDigits digits = digitsOnto 0 digits := rfl

theorem digitsOnto_append (n : Nat) (front back : List Char) :
    digitsOnto n (front ++ back) = digitsOnto (digitsOnto n front) back :=
  List.foldl_append

theorem digitsOnto_eq (n : Nat) (digits : List Char) :
    digitsOnto n digits = n * 10 ^ digits.length + ofDigits digits := by
  induction digits generalizing n with
  | nil => simp [digitsOnto, ofDigits]
  | cons c more ih =>
      have hstep : ∀ m, digitsOnto m (c :: more) = digitsOnto (m * 10 + digitOf c) more := fun _ =>
        rfl
      rw [ofDigits_eq, hstep, hstep, ih, ih (0 * 10 + digitOf c), List.length_cons, pow_succ]
      ring

theorem le_digitsOnto (n : Nat) (digits : List Char) : n ≤ digitsOnto n digits := by
  rw [digitsOnto_eq]
  exact (Nat.le_mul_of_pos_right n (Nat.pow_pos (by decide))).trans (Nat.le_add_right _ _)

/-- Zeros behind a number shift it. -/
theorem digitsOnto_replicate (n k : Nat) : digitsOnto n (List.replicate k '0') = n * 10 ^ k := by
  induction k generalizing n with
  | zero => rw [List.replicate_zero, pow_zero, mul_one]; rfl
  | succ k ih =>
      have hstep : digitsOnto n ('0' :: List.replicate k '0') =
          digitsOnto (n * 10 + digitOf '0') (List.replicate k '0') := rfl
      have hzero : digitOf '0' = 0 := rfl
      rw [List.replicate_succ, hstep, ih, hzero, pow_succ]
      ring

/-! ## Digits of a number -/

theorem decimalChars_ne_nil (n : Nat) : decimalChars n ≠ [] := by
  rw [decimalChars]
  split
  · exact List.cons_ne_nil _ _
  · exact List.append_ne_nil_of_right_ne_nil _ (List.cons_ne_nil _ _)

/-- A number below a power of ten is written with so many digits at most. -/
theorem length_decimalChars_le {k : Nat} (hk : 0 < k) (h : n < 10 ^ k) :
    (decimalChars n).length ≤ k := by
  induction k generalizing n with
  | zero => exact absurd hk (Nat.lt_irrefl 0)
  | succ k ih =>
      rw [decimalChars]
      split
      · exact Nat.succ_le_succ (Nat.zero_le k)
      · rename_i hlarge
        have hpos : 0 < k := by
          rcases Nat.eq_zero_or_pos k with rfl | hpos
          · exact absurd h hlarge
          · exact hpos
        have hfront : n / 10 < 10 ^ k := by
          rw [pow_succ] at h
          exact Nat.div_lt_of_lt_mul (by rwa [Nat.mul_comm] at h)
        rw [List.length_append, List.length_singleton]
        exact Nat.succ_le_succ (ih hpos hfront)

/-- A number is below the power of ten with as many zeros as it has digits. -/
theorem lt_tenPow_length (n : Nat) : n < 10 ^ (decimalChars n).length := by
  induction n using Nat.strong_induction_on with
  | _ n ih =>
      rw [decimalChars]
      split
      · rename_i h
        simpa using h
      · rename_i h
        have hfront := ih (n / 10) (by omega)
        rw [List.length_append, List.length_singleton, pow_succ]
        omega

/-- The digits of a whole number: there are some, and the first of several is no zero. -/
structure IsWhole (digits : List Char) : Prop where
  digit : ∀ c ∈ digits, isDecimalDigit c = true
  lead : digits = ['0'] ∨ ∃ c more, digits = c :: more ∧ c ≠ '0'

theorem isWhole_zero : IsWhole ['0'] := by
  refine ⟨fun c hc => ?_, .inl rfl⟩
  rw [List.mem_singleton.mp hc]
  rfl

theorem IsWhole.exists_cons (h : IsWhole digits) : ∃ c more, digits = c :: more := by
  rcases h.lead with h | ⟨c, more, h, -⟩
  · exact ⟨'0', [], h⟩
  · exact ⟨c, more, h⟩

theorem decimalDigit_eq_zero_iff : ∀ n < 10, (decimalDigit n = '0' ↔ n = 0) := by
  decide

/-- A positive number is written without a zero in front. -/
theorem exists_lead_decimalChars (h : 0 < n) : ∃ c more, decimalChars n = c :: more ∧ c ≠ '0' := by
  induction n using Nat.strong_induction_on with
  | _ n ih =>
      rw [decimalChars]
      split
      · rename_i hsmall
        refine ⟨_, [], rfl, ?_⟩
        rw [Ne, decimalDigit_eq_zero_iff n hsmall]
        exact h.ne'
      · rename_i hlarge
        obtain ⟨c, more, hfront, hc⟩ := ih (n / 10) (by omega) (by omega)
        exact ⟨c, more ++ [decimalDigit (n % 10)], by rw [hfront, List.cons_append], hc⟩

theorem isWhole_decimalChars (n : Nat) : IsWhole (decimalChars n) := by
  refine ⟨isDecimalDigit_of_mem_decimalChars n, ?_⟩
  rcases Nat.eq_zero_or_pos n with rfl | hpos
  · left
    rw [decimalChars]
    rfl
  · exact .inr (exists_lead_decimalChars hpos)

/-- A number that is written in two parts. -/
theorem digitsOnto_take_drop (n k : Nat) :
    digitsOnto (ofDigits ((decimalChars n).take k)) ((decimalChars n).drop k) = n := by
  rw [ofDigits_eq, ← digitsOnto_append, List.take_append_drop, ← ofDigits_eq, ofDigits_decimalChars]

theorem isDecimalDigit_of_mem_zeros {c : Char} {k : Nat} (h : c ∈ List.replicate k '0') :
    isDecimalDigit c = true := by
  rw [List.eq_of_mem_replicate h]
  rfl

/-- A positive number can have zeros behind it. -/
theorem isWhole_append_zeros (hpos : 0 < n) (k : Nat) :
    IsWhole (decimalChars n ++ List.replicate k '0') := by
  obtain ⟨c, more, hn, hc⟩ := exists_lead_decimalChars hpos
  constructor
  · intro d hd
    rcases List.mem_append.mp hd with hd | hd
    · exact isDecimalDigit_of_mem_decimalChars n d hd
    · exact isDecimalDigit_of_mem_zeros hd
  · exact .inr ⟨c, more ++ List.replicate k '0', by rw [hn, List.cons_append], hc⟩

/-- The first digits of a positive number are those of a whole one. -/
theorem isWhole_take (hpos : 0 < n) {k : Nat} (hk : 0 < k) : IsWhole ((decimalChars n).take k) := by
  obtain ⟨c, more, hn, hc⟩ := exists_lead_decimalChars hpos
  obtain ⟨k, rfl⟩ := Nat.exists_eq_succ_of_ne_zero hk.ne'
  constructor
  · intro d hd
    exact isDecimalDigit_of_mem_decimalChars n d (List.mem_of_mem_take hd)
  · exact .inr ⟨c, more.take k, by rw [hn, List.take_succ_cons], hc⟩

end Haulage.Numeric
