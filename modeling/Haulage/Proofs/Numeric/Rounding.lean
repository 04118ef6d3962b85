import Haulage.Numeric.Binary64
import Mathlib.Tactic.Ring
import Mathlib.Tactic.Linarith

/-!
# Rounding to doubles

One rounding moves a count of units by half a spacing at most, so by a `2 ^ 53`-rd part of it
unless it is among the smallest. What comes out is a double: a multiple of the spacing of the
numbers of its magnitude.

- `roundedUnits_le_relative`: one rounding adds a `2 ^ 53`-rd part at most.
- `div_le_two_mul_roundedUnits`: and it takes away less than one half.
- `ofDecimal_eq`: what is told from the length of a decimal is what its exact value rounds to.
- `IsDouble`: the counts that a finite double can have.
- `isDouble_of_ofUnits`: what comes out of a rounding is one of them.
-/

set_option autoImplicit false

namespace Haulage.Numeric.Binary64

variable {num den units : Nat}

theorem unitsPerOne_eq : unitsPerOne = 2 ^ 1074 := by
  unfold unitsPerOne
  generalize 1074 = exponent
  rfl

theorem unitsPerOne_pos : 0 < unitsPerOne := by
  unfold unitsPerOne
  generalize 1074 = exponent
  exact Nat.two_pow_pos exponent

theorem limit_pos : 0 < limit := by
  unfold limit
  generalize 2098 = exponent
  exact Nat.two_pow_pos exponent

theorem log2_lt_of_lt_limit (hpos : 0 < units) (h : units < limit) : Nat.log2 units < 2098 := by
  unfold limit at h
  generalize 2098 = exponent at *
  exact (Nat.log2_lt hpos.ne').mpr h

/-! ## Quotients -/

/-- The rounded quotient is at most half a divisor off. -/
theorem roundedQuotient_le (num den : Nat) :
    2 * (den * roundedQuotient num den) ≤ 2 * num + den := by
  have hsplit := Nat.div_add_mod num den
  rw [roundedQuotient]
  split
  · rename_i hup
    have hhalf : den ≤ 2 * (num % den) := by
      rcases hup with h | h
      · exact Nat.le_of_lt h
      · exact Nat.le_of_eq h.1.symm
    rw [Nat.mul_add, Nat.mul_one]
    omega
  · omega

theorem roundedQuotient_le_succ (num den : Nat) : roundedQuotient num den ≤ num / den + 1 := by
  rw [roundedQuotient]
  split
  · exact Nat.le_refl _
  · exact Nat.le_succ _

theorem div_le_roundedQuotient (num den : Nat) : num / den ≤ roundedQuotient num den := by
  rw [roundedQuotient]
  split
  · exact Nat.le_succ _
  · exact Nat.le_refl _

/-! ## Spacing -/

theorem spacing_eq (units : Nat) : spacing units = 2 ^ (Nat.log2 units - 52) := rfl

theorem spacing_pos (units : Nat) : 0 < spacing units := Nat.two_pow_pos _

theorem spacing_le_max (units : Nat) : spacing units ≤ max units 1 := by
  rw [spacing_eq]
  by_cases hzero : units = 0
  · subst hzero
    decide
  · calc 2 ^ (Nat.log2 units - 52) ≤ 2 ^ Nat.log2 units :=
        Nat.pow_le_pow_right (by decide) (Nat.sub_le _ _)
      _ ≤ units := Nat.log2_self_le hzero
      _ ≤ max units 1 := Nat.le_max_left _ _

/-- From `2 ^ 52` on the spacing is a small part of the count. -/
theorem spacing_mul_le (h : 2 ^ 52 ≤ units) : spacing units * 2 ^ 52 ≤ units := by
  have hne : units ≠ 0 := by
    rintro rfl
    exact absurd h (by decide)
  have hlog : 52 ≤ Nat.log2 units := (Nat.le_log2 hne).mpr h
  rw [spacing_eq, ← Nat.pow_add, Nat.sub_add_cancel hlog]
  exact Nat.log2_self_le hne

/-- A count has at most 53 digits in base two in front of its spacing. -/
theorem lt_spacing_mul (units : Nat) : units < spacing units * 2 ^ 53 := by
  rw [spacing_eq, ← Nat.pow_add]
  calc units < 2 ^ (Nat.log2 units + 1) := Nat.lt_log2_self
    _ ≤ 2 ^ (Nat.log2 units - 52 + 53) := Nat.pow_le_pow_right (by decide) (by omega)

/-! ## Counts -/

/-- Rounding a quotient that is not among the smallest adds a small part of it at most. -/
theorem roundedUnits_le_relative (h : den * 2 ^ 52 ≤ num) :
    2 ^ 53 * (den * roundedUnits num den) ≤ (2 ^ 53 + 1) * num := by
  rcases Nat.eq_zero_or_pos den with rfl | hden
  · rw [Nat.zero_mul, Nat.mul_zero]
    exact Nat.zero_le _
  have hquotient : 2 ^ 52 ≤ num / den :=
    (Nat.le_div_iff_mul_le hden).mpr (by rw [Nat.mul_comm]; exact h)
  have hround := roundedQuotient_le num (den * spacing (num / den))
  have hstep : den * spacing (num / den) * 2 ^ 52 ≤ num := by
    calc den * spacing (num / den) * 2 ^ 52 = den * (spacing (num / den) * 2 ^ 52) :=
        Nat.mul_assoc _ _ _
      _ ≤ den * (num / den) := Nat.mul_le_mul_left den (spacing_mul_le hquotient)
      _ ≤ num := Nat.mul_div_le num den
  have hunits : den * roundedUnits num den =
      den * spacing (num / den) * roundedQuotient num (den * spacing (num / den)) := by
    rw [roundedUnits]
    ring
  rw [hunits]
  omega

theorem roundedUnits_le (num den : Nat) : roundedUnits num den ≤ 2 * (num / den) + 1 := by
  have hround := roundedQuotient_le_succ num (den * spacing (num / den))
  have hstep := spacing_le_max (num / den)
  rw [roundedUnits]
  rw [← Nat.div_div_eq_div_mul] at hround
  generalize num / den = quotient at *
  have hdown : quotient / spacing quotient * spacing quotient ≤ quotient := Nat.div_mul_le_self _ _
  have hmul := Nat.mul_le_mul_right (spacing quotient) hround
  rw [Nat.add_mul, Nat.one_mul] at hmul
  omega

/-- Rounding takes away less than one half of the whole units. -/
theorem div_le_two_mul_roundedUnits (num den : Nat) : num / den ≤ 2 * roundedUnits num den := by
  have hround := div_le_roundedQuotient num (den * spacing (num / den))
  rw [← Nat.div_div_eq_div_mul] at hround
  rw [roundedUnits]
  generalize num / den = quotient at *
  have hstep := spacing_le_max quotient
  have hpos := spacing_pos quotient
  rcases Nat.eq_zero_or_pos quotient with rfl | hquotient
  · exact Nat.zero_le _
  have hsplit := Nat.div_add_mod quotient (spacing quotient)
  have hrest := Nat.mod_lt quotient hpos
  have hmul := Nat.mul_le_mul_right (spacing quotient) hround
  rw [Nat.mul_comm (quotient / spacing quotient)] at hmul
  have hwhole : spacing quotient ≤ spacing quotient * (quotient / spacing quotient) := by
    have hone : 1 ≤ quotient / spacing quotient := Nat.div_pos (by omega) hpos
    exact Nat.le_mul_of_pos_right _ hone
  omega

theorem le_two_mul_roundedUnits (num : Nat) : num ≤ 2 * roundedUnits num 1 := by
  have h := div_le_two_mul_roundedUnits num 1
  rwa [Nat.div_one] at h

/-- Less than half a unit is rounded to nothing. -/
theorem roundedUnits_eq_zero (h : 2 * num < den) : roundedUnits num den = 0 := by
  have hquotient : num / den = 0 := Nat.div_eq_of_lt (by omega)
  have hstep : spacing 0 = 1 := rfl
  rw [roundedUnits, hquotient, hstep, Nat.mul_one, Nat.mul_one, roundedQuotient, hquotient,
    Nat.mod_eq_of_lt (by omega), if_neg (by omega)]

/-! ## Decimals -/

theorem unitsPerOne_lt_tenPow : unitsPerOne < 10 ^ 324 := by
  decide +kernel

theorem three_limit_lt_tenPow : 3 * limit < 10 ^ 309 * unitsPerOne := by
  decide +kernel

section Length

variable {p q : Nat}

/-- A power of two is at least the power of ten that a ratio of the logarithms from below gives. -/
theorem tenPow_le_twoPow_of_ratio (hq : q ≠ 0) (h : 10 ^ p ≤ 2 ^ q) (length : Nat) :
    10 ^ (length * p / q) ≤ 2 ^ length := by
  refine (Nat.pow_le_pow_iff_left hq).mp ?_
  calc (10 ^ (length * p / q)) ^ q = 10 ^ (length * p / q * q) := (Nat.pow_mul ..).symm
    _ ≤ 10 ^ (length * p) := Nat.pow_le_pow_right (by decide) (Nat.div_mul_le_self _ _)
    _ = (10 ^ p) ^ length := by rw [Nat.mul_comm, Nat.pow_mul]
    _ ≤ (2 ^ q) ^ length := Nat.pow_le_pow_left h length
    _ = (2 ^ length) ^ q := Nat.pow_right_comm ..

/-- And at most ten times the one that a ratio from above gives. -/
theorem twoPow_le_tenPow_of_ratio (hq : 0 < q) (h : 2 ^ q ≤ 10 ^ p) (length : Nat) :
    2 ^ length ≤ 10 ^ (length * p / q + 1) := by
  refine (Nat.pow_le_pow_iff_left hq.ne').mp ?_
  have hup : length * p ≤ (length * p / q + 1) * q :=
    (Nat.lt_mul_of_div_lt (Nat.lt_succ_self _) hq).le
  calc (2 ^ length) ^ q = (2 ^ q) ^ length := Nat.pow_right_comm ..
    _ ≤ (10 ^ p) ^ length := Nat.pow_le_pow_left h length
    _ = 10 ^ (length * p) := by rw [Nat.mul_comm length, Nat.pow_mul]
    _ ≤ 10 ^ ((length * p / q + 1) * q) := Nat.pow_le_pow_right (by decide) hup
    _ = (10 ^ (length * p / q + 1)) ^ q := Nat.pow_mul ..

end Length

/-- The decimal digits that the length of a number vouches for. -/
theorem tenPow_le_of_log2 {n : Nat} (hpos : n ≠ 0) : 10 ^ (Nat.log2 n * 1233 / 4096) ≤ n :=
  (tenPow_le_twoPow_of_ratio (by decide) (by decide +kernel) _).trans (Nat.log2_self_le hpos)

/-- The decimal digits that the length of a number leaves room for. -/
theorem lt_tenPow_of_log2 (n : Nat) : n < 10 ^ ((Nat.log2 n + 1) * 146 / 485 + 1) :=
  Nat.lt_log2_self.trans_le (twoPow_le_tenPow_of_ratio (by decide) (by decide +kernel) _)

theorem mul_tenPow_lt {n digits places k : Nat} (hn : n < 10 ^ digits) (hk : digits + places ≤ k) :
    n * 10 ^ places < 10 ^ k := by
  calc n * 10 ^ places < 10 ^ digits * 10 ^ places :=
        Nat.mul_lt_mul_of_pos_right hn (Nat.pow_pos (by decide))
    _ = 10 ^ (digits + places) := (Nat.pow_add ..).symm
    _ ≤ 10 ^ k := Nat.pow_le_pow_right (by decide) hk

theorem tenPow_mul_le {n digits places k m : Nat} (hn : 10 ^ digits ≤ n)
    (hk : places + k ≤ digits + m) :
    10 ^ places * 10 ^ k ≤ n * 10 ^ m := by
  calc 10 ^ places * 10 ^ k = 10 ^ (places + k) := (Nat.pow_add ..).symm
    _ ≤ 10 ^ (digits + m) := Nat.pow_le_pow_right (by decide) hk
    _ = 10 ^ digits * 10 ^ m := Nat.pow_add ..
    _ ≤ n * 10 ^ m := Nat.mul_le_mul_right _ hn

/-- A quotient below `10 ^ -330` is too small for any number but zero. -/
theorem ofQuotient_of_small {negative : Bool} (h : num * 10 ^ 330 < den) :
    ofQuotient negative num den = .finite negative 0 := by
  have hunits : 2 * (num * unitsPerOne) < den := by
    calc 2 * (num * unitsPerOne) = num * (2 * unitsPerOne) := by ring
      _ ≤ num * 10 ^ 330 := Nat.mul_le_mul_left num (by have := unitsPerOne_lt_tenPow; omega)
      _ < den := h
  rw [ofQuotient, ofUnits, roundedUnits_eq_zero hunits, if_pos limit_pos]

/-- A quotient from `10 ^ 320` on is too large for any finite number. -/
theorem ofQuotient_of_large {negative : Bool} (hden : 0 < den) (h : 10 ^ 320 * den ≤ num) :
    ofQuotient negative num den = .infinity negative := by
  have hunits : 2 * limit ≤ num * unitsPerOne / den := by
    refine (Nat.le_div_iff_mul_le hden).mpr ?_
    calc 2 * limit * den ≤ 10 ^ 320 * unitsPerOne * den :=
          Nat.mul_le_mul_right den (by have := three_limit_lt_tenPow; omega)
      _ = 10 ^ 320 * den * unitsPerOne := Nat.mul_right_comm ..
      _ ≤ num * unitsPerOne := Nat.mul_le_mul_right unitsPerOne h
  have hrounded := div_le_two_mul_roundedUnits (num * unitsPerOne) den
  rw [ofQuotient, ofUnits, if_neg (by omega)]

/-- A decimal stands for its exact value, rounded once, however long it is. -/
theorem ofDecimal_eq (negative : Bool) (significand : Nat) (exponent : Int) :
    ofDecimal negative significand exponent =
      ofQuotient negative (significand * 10 ^ exponent.toNat) (10 ^ (-exponent).toNat) := by
  have hden : 0 < 10 ^ (-exponent).toNat := Nat.pow_pos (by decide)
  rw [ofDecimal]
  by_cases hzero : significand = 0
  · subst hzero
    rw [if_pos rfl, Nat.zero_mul, ofQuotient_of_small (by rwa [Nat.zero_mul])]
  have hlow := tenPow_le_of_log2 hzero
  have hhigh := lt_tenPow_of_log2 significand
  rw [if_neg hzero]
  dsimp only
  generalize Nat.log2 significand * 1233 / 4096 = low at *
  generalize (Nat.log2 significand + 1) * 146 / 485 + 1 = high at *
  split
  · rename_i hsmall
    -- such an exponent is negative, so that it is the divisor that it makes large
    have hexponent : exponent.toNat = 0 := by omega
    refine (ofQuotient_of_small ?_).symm
    rw [hexponent, Nat.pow_zero, Nat.mul_one]
    exact mul_tenPow_lt hhigh (by omega)
  · split
    · rename_i hlarge
      refine (ofQuotient_of_large hden ?_).symm
      exact tenPow_mul_le hlow (by omega)
    · rfl

/-! ## Doubles -/

/-- The counts of finite doubles. -/
structure IsDouble (units : Nat) : Prop where
  lt_limit : units < limit
  spacing_dvd : spacing units ∣ units

theorem isDouble_zero : IsDouble 0 :=
  ⟨limit_pos, Nat.dvd_zero _⟩

/-- A rounded count is a multiple of its own spacing, also when rounding made it a digit longer. -/
theorem spacing_dvd_roundedUnits (num den : Nat) :
    spacing (roundedUnits num den) ∣ roundedUnits num den := by
  rcases Nat.eq_zero_or_pos den with rfl | hden
  · have hzero : roundedUnits num 0 = 0 ∨ roundedUnits num 0 = 1 := by
      have := roundedUnits_le num 0
      rw [Nat.div_zero] at this
      omega
    rcases hzero with h | h
    · rw [h]
      exact Nat.dvd_zero _
    · rw [h]
      decide
  rw [roundedUnits]
  have hround := roundedQuotient_le_succ num (den * spacing (num / den))
  rw [← Nat.div_div_eq_div_mul] at hround
  generalize num / den = quotient at *
  have hdigits : quotient / spacing quotient < 2 ^ 53 :=
    (Nat.div_lt_iff_lt_mul (spacing_pos _)).mpr
      (by rw [Nat.mul_comm]; exact lt_spacing_mul quotient)
  generalize roundedQuotient num (den * spacing quotient) = rounded at *
  rw [spacing_eq quotient]
  generalize Nat.log2 quotient - 52 = s
  rcases Nat.lt_or_eq_of_le (show rounded ≤ 2 ^ 53 by omega) with hlt | heq
  · -- no digit came in: the spacing is no larger than it was
    have hlog : Nat.log2 (rounded * 2 ^ s) - 52 ≤ s := by
      rcases Nat.eq_zero_or_pos rounded with rfl | hpos
      · rw [Nat.zero_mul]
        exact Nat.zero_le _
      · have hne : rounded * 2 ^ s ≠ 0 := (Nat.mul_pos hpos (Nat.two_pow_pos s)).ne'
        have hbound : rounded * 2 ^ s < 2 ^ (53 + s) := by
          rw [Nat.pow_add]
          exact Nat.mul_lt_mul_of_pos_right hlt (Nat.two_pow_pos s)
        have := (Nat.log2_lt hne).mpr hbound
        omega
    rw [spacing_eq]
    exact Nat.dvd_trans (Nat.pow_dvd_pow 2 hlog) (Nat.dvd_mul_left _ _)
  · rw [heq, ← Nat.pow_add, spacing_eq, Nat.log2_two_pow]
    exact Nat.pow_dvd_pow 2 (Nat.sub_le _ _)

/-- What comes out of a rounding is a double unless it is infinite. -/
theorem isDouble_of_ofUnits {negative sign : Bool}
    (h : ofUnits negative num den = .finite sign units) :
    IsDouble units := by
  rw [ofUnits] at h
  split at h
  · rename_i hlt
    obtain ⟨-, rfl⟩ := Binary64.finite.inj h
    exact ⟨hlt, spacing_dvd_roundedUnits num den⟩
  · cases h

/-- The spacing of the largest doubles. -/
def widestSpacing : Nat :=
  Nat.pow 2 2045

theorem widestSpacing_pos : 0 < widestSpacing := by
  unfold widestSpacing
  generalize 2045 = exponent
  exact Nat.two_pow_pos exponent

theorem limit_eq_mul : limit = 2 ^ 53 * widestSpacing := by
  decide +kernel

theorem spacing_eq_widest (h : Nat.log2 units = 2097) : spacing units = widestSpacing := by
  have hexponent : 2045 = Nat.log2 units - 52 := by omega
  unfold widestSpacing
  rw [hexponent]
  rfl

/-- A double is a multiple of the widest spacing, or at most half as large as the largest ones. -/
theorem IsDouble.cases (h : IsDouble units) :
    (∃ k < 2 ^ 53, units = k * widestSpacing ∧ spacing units = widestSpacing) ∨
      units < 2 ^ 52 * widestSpacing := by
  obtain ⟨hlimit, hdvd⟩ := h
  rcases Nat.lt_or_ge units (2 ^ 52 * widestSpacing) with hsmall | hlarge
  · exact .inr hsmall
  · have hpos : 0 < units := (Nat.mul_pos (by decide) widestSpacing_pos).trans_le hlarge
    have hlow : 2097 ≤ Nat.log2 units := by
      have hpower : 2 ^ 52 * widestSpacing = Nat.pow 2 2097 := by decide +kernel
      rw [hpower] at hlarge
      generalize 2097 = exponent at *
      exact (Nat.le_log2 hpos.ne').mpr hlarge
    have hspacing : spacing units = widestSpacing :=
      spacing_eq_widest (by have := log2_lt_of_lt_limit hpos hlimit; omega)
    rw [hspacing] at hdvd
    obtain ⟨k, hk⟩ := hdvd
    rw [Nat.mul_comm] at hk
    refine .inl ⟨k, ?_, hk, hspacing⟩
    rw [hk, limit_eq_mul] at hlimit
    exact Nat.lt_of_mul_lt_mul_right hlimit

end Haulage.Numeric.Binary64
