import Haulage.Numeric.Shortest
import Haulage.Proofs.Numeric.Rounding
import Mathlib.Algebra.Order.Field.Power
import Mathlib.Data.Rat.Cast.Order
import Mathlib.Tactic.FieldSimp
import Mathlib.Tactic.NormNum
import Mathlib.Tactic.Positivity

/-!
# What the shortest decimals are like

The search for the shortest decimal of a number starts at its leading digit, which is estimated from
its logarithm in base two and then corrected by one. The estimate is good enough, so no more than 18
digits are written, and none of the decimals found lies above the interval that rounds to the
number.

- `leadingPower_spec`: the leading digit is found.
- `gridHit?_spec`: what a hit on a grid is like.
- `fits_shortest`: what the decimal found is like.
-/

set_option autoImplicit false

namespace Haulage.Numeric.Binary64

variable {units : Nat} {exponent : Int}

/-! ## Powers of ten and of two -/

section Powers

theorem twoPow_le_tenPow {m n : Nat} (h : 2 ^ m ≤ 10 ^ n) : (2 : ℚ) ^ m ≤ 10 ^ n := by
  exact_mod_cast h

theorem tenPow_le_twoPow {m n : Nat} (h : 10 ^ n ≤ 2 ^ m) : (10 : ℚ) ^ n ≤ 2 ^ m := by
  exact_mod_cast h

/-- Between two powers of two whose ratio is two there is a power of ten, and so there is between
their own powers. -/
theorem tenPow_between_of_natPow {m n : Nat} (hlow : (2 : ℚ) ^ m ≤ 10 ^ n)
    (hhigh : (10 : ℚ) ^ n ≤ 2 ^ (m + 1)) {k : Int} (habove : -(m : Int) ≤ k) (hbelow : k ≤ m) :
    (2 : ℚ) ^ ((k - 1) * m) ≤ 10 ^ (k * n) ∧ (10 : ℚ) ^ (k * n) ≤ 2 ^ ((k + 1) * m) := by
  have htwo : (1 : ℚ) ≤ 2 := by norm_num
  rcases Int.le_total 0 k with hk | hk
  · obtain ⟨j, rfl⟩ := Int.eq_ofNat_of_zero_le hk
    have hlow' : (2 : ℚ) ^ ((j : Int) * m) ≤ 10 ^ ((j : Int) * n) := by
      have := pow_le_pow_left₀ (by positivity) hlow j
      rw [← pow_mul, ← pow_mul, Nat.mul_comm m, Nat.mul_comm n] at this
      exact_mod_cast this
    have hhigh' : (10 : ℚ) ^ ((j : Int) * n) ≤ 2 ^ ((j : Int) * (m + 1)) := by
      have := pow_le_pow_left₀ (by positivity) hhigh j
      rw [← pow_mul, ← pow_mul, Nat.mul_comm (m + 1), Nat.mul_comm n] at this
      exact_mod_cast this
    constructor
    · exact (zpow_le_zpow_right₀ htwo (by nlinarith)).trans hlow'
    · exact hhigh'.trans (zpow_le_zpow_right₀ htwo (by nlinarith))
  · -- below zero the powers are inverted
    obtain ⟨j, hj⟩ := Int.eq_ofNat_of_zero_le (show 0 ≤ -k by omega)
    obtain rfl : k = -j := by omega
    have hlow' : (10 : ℚ) ^ (-(j : Int) * n) ≤ 2 ^ (-(j : Int) * m) := by
      have := pow_le_pow_left₀ (by positivity) hlow j
      rw [← pow_mul, ← pow_mul, Nat.mul_comm m, Nat.mul_comm n] at this
      rw [Int.neg_mul, Int.neg_mul, zpow_neg, zpow_neg]
      exact inv_anti₀ (by positivity) (by exact_mod_cast this)
    have hhigh' : (2 : ℚ) ^ (-(j : Int) * (m + 1)) ≤ 10 ^ (-(j : Int) * n) := by
      have := pow_le_pow_left₀ (by positivity) hhigh j
      rw [← pow_mul, ← pow_mul, Nat.mul_comm (m + 1), Nat.mul_comm n] at this
      rw [Int.neg_mul, Int.neg_mul, zpow_neg, zpow_neg]
      exact inv_anti₀ (by positivity) (by exact_mod_cast this)
    constructor
    · exact (zpow_le_zpow_right₀ htwo (by nlinarith)).trans hhigh'
    · exact hlow'.trans (zpow_le_zpow_right₀ htwo (by nlinarith))

/-- The exponent of a power of two times the logarithm of two, rounded down, is the exponent of a
power of ten beside it. -/
theorem tenPow_estimate {k : Int} (habove : -100000 ≤ k) (hbelow : k ≤ 100000) :
    (10 : ℚ) ^ (k * 30103 / 100000) ≤ 2 ^ (k + 1) ∧
    (2 : ℚ) ^ (k - 1) < 10 ^ (k * 30103 / 100000 + 1) := by
  obtain ⟨hlow, hhigh⟩ := tenPow_between_of_natPow (twoPow_le_tenPow (by decide +kernel))
    (tenPow_le_twoPow (by decide +kernel)) (m := 100000) (n := 30103) habove hbelow
  have hten : (1 : ℚ) < 10 := by norm_num
  have hfloor : k * 30103 / 100000 * 100000 ≤ k * 30103 := by omega
  have hceiling : k * 30103 < (k * 30103 / 100000 + 1) * 100000 := by omega
  generalize k * 30103 / 100000 = estimate at *
  -- both sides are compared by their powers, in which the estimate stands without a fraction
  constructor
  · have hpower : ((10 : ℚ) ^ estimate) ^ 100000 ≤ (2 ^ (k + 1)) ^ 100000 := by
      rw [← zpow_natCast, ← zpow_natCast, ← zpow_mul, ← zpow_mul]
      exact (zpow_le_zpow_right₀ hten.le hfloor).trans hhigh
    exact (pow_le_pow_iff_left₀ (by positivity) (by positivity) (by decide)).mp hpower
  · have hpower : ((2 : ℚ) ^ (k - 1)) ^ 100000 < (10 ^ (estimate + 1)) ^ 100000 := by
      rw [← zpow_natCast, ← zpow_natCast, ← zpow_mul, ← zpow_mul]
      exact hlow.trans_lt (zpow_lt_zpow_right₀ hten hceiling)
    exact (pow_lt_pow_iff_left₀ (by positivity) (by positivity) (by decide)).mp hpower

end Powers

/-! ## The leading digit -/

theorem cast_unitsPerOne : (unitsPerOne : ℚ) = 2 ^ (1074 : Int) := by
  rw [unitsPerOne_eq, Nat.cast_pow, ← zpow_natCast, Nat.cast_ofNat, Nat.cast_ofNat]

theorem gridUnits_pos (exponent : Int) : (0 : ℚ) < 10 ^ exponent * unitsPerOne :=
  mul_pos (zpow_pos (by norm_num) exponent) (by exact_mod_cast unitsPerOne_pos)

theorem gridDen_pos (exponent : Int) :
    0 < (if 0 ≤ exponent then 1 else Nat.pow 10 (-exponent).toNat) := by
  split
  · decide
  · exact Nat.pow_pos (by decide)

/-- The units of a power of ten, as a fraction of two whole numbers. -/
theorem gridUnits_eq (exponent : Int) :
    ((if 0 ≤ exponent then Nat.pow 10 exponent.toNat * unitsPerOne else unitsPerOne : Nat) : ℚ) =
      10 ^ exponent * unitsPerOne *
        (if 0 ≤ exponent then 1 else Nat.pow 10 (-exponent).toNat : Nat) := by
  generalize unitsPerOne = units
  split
  · rename_i h
    obtain ⟨n, rfl⟩ := Int.eq_ofNat_of_zero_le h
    simp only [Int.toNat_natCast, Nat.pow_eq, zpow_natCast]
    push_cast
    ring
  · rename_i h
    obtain ⟨n, hn⟩ := Int.eq_ofNat_of_zero_le (show 0 ≤ -exponent by omega)
    obtain rfl : exponent = -n := by omega
    simp only [neg_neg, Int.toNat_natCast, Nat.pow_eq, zpow_neg, zpow_natCast]
    push_cast
    field_simp

theorem powerAtMost_iff :
    powerAtMost exponent units = true ↔ (10 : ℚ) ^ exponent * unitsPerOne ≤ units := by
  have hgrid := gridUnits_eq exponent
  rw [powerAtMost]
  split
  · rename_i h
    rw [if_pos h, if_pos h, Nat.cast_one, mul_one] at hgrid
    rw [decide_eq_true_eq, ← hgrid, Nat.cast_le]
  · rename_i h
    rw [if_neg h, if_neg h] at hgrid
    have hpos : (0 : ℚ) < (Nat.pow 10 (-exponent).toNat : Nat) := by
      exact_mod_cast Nat.pow_pos (by decide)
    rw [decide_eq_true_eq, ← mul_le_mul_iff_left₀ hpos, ← hgrid]
    exact_mod_cast Iff.rfl

/-- A count has the magnitude of a power of two. -/
theorem log2_units_bounds (h : 0 < units) :
    (2 : ℚ) ^ ((Nat.log2 units : Int) - 1074) * unitsPerOne ≤ units ∧
      units < (2 : ℚ) ^ ((Nat.log2 units : Int) - 1074 + 1) * unitsPerOne := by
  have hlow : (2 : ℚ) ^ Nat.log2 units ≤ units := by
    exact_mod_cast Nat.log2_self_le h.ne'
  have hhigh : (units : ℚ) < 2 ^ (Nat.log2 units + 1) := by
    exact_mod_cast @Nat.lt_log2_self units
  have htwo : (2 : ℚ) ≠ 0 := by norm_num
  rw [cast_unitsPerOne, ← zpow_add₀ htwo, ← zpow_add₀ htwo]
  constructor
  · rw [Int.sub_add_cancel, zpow_natCast]
    exact hlow
  · have hshift : (Nat.log2 units : Int) - 1074 + 1 + 1074 = (Nat.log2 units + 1 : Nat) := by
      push_cast
      ring
    rw [hshift, zpow_natCast]
    exact hhigh

/-- The leading digit of a finite number is found. -/
theorem leadingPower_spec (hpos : 0 < units) (hlimit : units < limit) :
    (10 : ℚ) ^ leadingPower units * unitsPerOne ≤ units ∧
      units < (10 : ℚ) ^ (leadingPower units + 1) * unitsPerOne := by
  have hone : (0 : ℚ) < unitsPerOne := by exact_mod_cast unitsPerOne_pos
  have hlog : Nat.log2 units < 2098 := log2_lt_of_lt_limit hpos hlimit
  obtain ⟨hlow, hhigh⟩ := log2_units_bounds hpos
  obtain ⟨hestimate, hnext⟩ :=
    @tenPow_estimate ((Nat.log2 units : Int) - 1074) (by omega) (by omega)
  rw [leadingPower]
  generalize (Nat.log2 units : Int) - 1074 = k at *
  generalize k * 30103 / 100000 = estimate at *
  have hten : (10 : ℚ) ^ (estimate + 1 + 1) = 10 * 10 ^ (estimate + 1) := by
    rw [zpow_add_one₀ (by norm_num), mul_comm]
  have hfour : (2 : ℚ) ^ (k + 1) = 4 * 2 ^ (k - 1) := by
    have hshift : k + 1 = k - 1 + 1 + 1 := by ring
    rw [hshift, zpow_add_one₀ (by norm_num), zpow_add_one₀ (by norm_num)]
    ring
  have htwo : (2 : ℚ) ^ (k + 1) = 2 * 2 ^ k := by
    rw [zpow_add_one₀ (by norm_num), mul_comm]
  have htenth : (10 : ℚ) ^ estimate = 10 * 10 ^ (estimate - 1) := by
    rw [← zpow_one_add₀ (by norm_num), add_sub_cancel]
  -- the estimate is one too high at most, and one too low at most
  have habove : (units : ℚ) < 10 ^ (estimate + 1 + 1) * unitsPerOne := by
    have : (2 : ℚ) ^ (k + 1) < 10 ^ (estimate + 1 + 1) := by
      rw [hten, hfour]
      linarith [zpow_pos (show (0 : ℚ) < 2 by norm_num) (k - 1)]
    exact hhigh.trans (mul_lt_mul_of_pos_right this hone)
  have hbelow : (10 : ℚ) ^ (estimate - 1) * unitsPerOne ≤ units := by
    have : (10 : ℚ) ^ (estimate - 1) ≤ 2 ^ k := by
      linarith [zpow_pos (show (0 : ℚ) < 10 by norm_num) (estimate - 1)]
    exact (mul_le_mul_of_nonneg_right this hone.le).trans hlow
  split
  · rename_i h
    exact ⟨powerAtMost_iff.mp h, habove⟩
  · rename_i hnot
    rw [powerAtMost_iff, not_le] at hnot
    split
    · rename_i h
      exact ⟨powerAtMost_iff.mp h, hnot⟩
    · rename_i hnot'
      rw [powerAtMost_iff, not_le] at hnot'
      rw [Int.sub_add_cancel]
      exact ⟨hbelow, hnot'⟩

/-! ## Grids -/

section Grids

theorem lowerEnd_pos (h : 0 < units) : 0 < lowerEnd units := by
  have hstep := spacing_le_max units
  rw [lowerEnd]
  split <;> omega

/-- Decimal digits that stand for a number of the given count, on the grid of a power of ten. -/
structure IsHit (units : Nat) (exponent : Int) (digits : Nat) : Prop where
  pos : 0 < digits
  /-- They do not stand above the interval that rounds to the number. -/
  le_upperEnd : 4 * (digits * ((10 : ℚ) ^ exponent * unitsPerOne)) ≤ upperEnd units
  /-- They stand at the next point of the grid at most. -/
  le_next : digits * ((10 : ℚ) ^ exponent * unitsPerOne) ≤ units + (10 : ℚ) ^ exponent * unitsPerOne

theorem inInterval_bounds {num den : Nat} (h : inInterval units num den = true) :
    lowerEnd units * den ≤ num ∧ num ≤ upperEnd units * den := by
  rw [inInterval] at h
  split at h
  · exact of_decide_eq_true h
  · obtain ⟨hlow, hhigh⟩ := of_decide_eq_true h
    exact ⟨hlow.le, hhigh.le⟩

/-- A point of the grid in the interval is a hit when it is no further than the next one. -/
theorem isHit_of_inInterval {num den digits : Nat} (hpos : 0 < units) (hden : 0 < den)
    (hgrid : (num : ℚ) = 10 ^ exponent * unitsPerOne * den)
    (hinside : inInterval units (4 * digits * num) den = true)
    (hnext : digits ≤ units * den / num + 1) :
    IsHit units exponent digits := by
  obtain ⟨hlow, hhigh⟩ := inInterval_bounds hinside
  have hdenq : (0 : ℚ) < den := by exact_mod_cast hden
  constructor
  · have : 0 < 4 * digits * num := (Nat.mul_pos (lowerEnd_pos hpos) hden).trans_le hlow
    exact Nat.pos_of_ne_zero fun hzero => by simp [hzero] at this
  · have hcast : ((4 * digits * num : Nat) : ℚ) ≤ (upperEnd units * den : Nat) := by
      exact_mod_cast hhigh
    push_cast at hcast
    rw [hgrid] at hcast
    exact le_of_mul_le_mul_right (by linarith) hdenq
  · have hfloor : (digits - 1) * num ≤ units * den := by
      calc (digits - 1) * num ≤ units * den / num * num :=
          Nat.mul_le_mul_right _ (Nat.sub_le_iff_le_add.mpr hnext)
        _ ≤ units * den := Nat.div_mul_le_self _ _
    have hsplit : digits * num ≤ units * den + num := by
      rcases Nat.eq_zero_or_pos digits with rfl | hdigits
      · omega
      · obtain ⟨n, rfl⟩ := Nat.exists_eq_succ_of_ne_zero hdigits.ne'
        rw [Nat.succ_sub_one] at hfloor
        rw [Nat.succ_mul]
        omega
    have hcast : ((digits * num : Nat) : ℚ) ≤ (units * den + num : Nat) := by exact_mod_cast hsplit
    push_cast at hcast
    rw [hgrid] at hcast
    exact le_of_mul_le_mul_right (by linarith) hdenq

/-- What a hit on a grid is like. -/
theorem gridHit?_spec {digits : Nat} (hpos : 0 < units)
    (h : gridHit? units exponent = some digits) :
    IsHit units exponent digits := by
  have hgrid := gridUnits_eq exponent
  rw [gridHit?] at h
  have hden := gridDen_pos exponent
  generalize (if 0 ≤ exponent then Nat.pow 10 exponent.toNat * unitsPerOne else unitsPerOne) =
    num at *
  generalize (if 0 ≤ exponent then 1 else Nat.pow 10 (-exponent).toNat) = den at *
  dsimp only at h
  have hbelow : inInterval units (4 * (units * den / num) * num) den = true →
      IsHit units exponent (units * den / num) :=
    fun hinside => isHit_of_inInterval hpos hden hgrid hinside (Nat.le_succ _)
  have habove : inInterval units (4 * (units * den / num + 1) * num) den = true →
      IsHit units exponent (units * den / num + 1) :=
    fun hinside => isHit_of_inInterval hpos hden hgrid hinside (Nat.le_refl _)
  split at h
  · cases h
  · rename_i hin hout
    exact Option.some.inj h ▸ hbelow hin
  · rename_i hout hin
    exact Option.some.inj h ▸ habove hin
  · rename_i hin hin'
    split at h
    · exact Option.some.inj h ▸ hbelow hin
    · exact Option.some.inj h ▸ habove hin'

/-- A hit has as many digits as its grid lies below the leading one, or is the next power of ten. -/
theorem IsHit.digits_le {leading : Int} {count digits : Nat}
    (h : IsHit units (leading + 1 - count) digits)
    (hlead : units < (10 : ℚ) ^ (leading + 1) * unitsPerOne) : digits ≤ 10 ^ count := by
  have hgrid := gridUnits_pos (leading + 1 - count)
  have hpower : (10 : ℚ) ^ (leading + 1) = 10 ^ count * 10 ^ (leading + 1 - count) := by
    rw [← zpow_natCast, ← zpow_add₀ (by norm_num), add_sub_cancel]
  have hnext := h.le_next
  rw [hpower, mul_assoc] at hlead
  generalize (10 : ℚ) ^ (leading + 1 - count) * unitsPerOne = g at *
  have hlt : (digits : ℚ) < 10 ^ count + 1 := by
    refine lt_of_mul_lt_mul_right ?_ hgrid.le
    linarith
  exact Nat.le_of_lt_succ (by exact_mod_cast hlt)

end Grids

/-! ## The decimal found -/

/-- A decimal with few digits that does not stand above the interval that rounds to a number. -/
structure Fits (units : Nat) (d : ShortDecimal) : Prop where
  pos : 0 < d.digits
  digits_le : d.digits ≤ 10 ^ 18
  le_upperEnd : 4 * (d.digits * ((10 : ℚ) ^ d.exponent * unitsPerOne)) ≤ upperEnd units
  le_exponent : leadingPower units - 17 ≤ d.exponent

/-- Dropping zeros keeps the value. -/
theorem dropZeros_spec {digits : Nat} (hpos : 0 < digits) (exponent : Int) :
    0 < (dropZeros digits exponent).digits ∧ (dropZeros digits exponent).digits ≤ digits ∧
      exponent ≤ (dropZeros digits exponent).exponent ∧
      ((dropZeros digits exponent).digits : ℚ) * 10 ^ (dropZeros digits exponent).exponent =
        digits * 10 ^ exponent := by
  induction digits using Nat.strong_induction_on generalizing exponent with
  | _ digits ih =>
      rw [dropZeros, if_neg hpos.ne']
      split
      · rename_i hzero
        obtain ⟨hpos', hle, hexponent, hvalue⟩ :=
          ih (digits / 10) (by omega) (by omega) (exponent + 1)
        refine ⟨hpos', hle.trans (Nat.div_le_self _ _), by omega, ?_⟩
        have hsplit : (digits : ℚ) = (digits / 10 : Nat) * 10 := by
          exact_mod_cast (Nat.div_mul_cancel (Nat.dvd_of_mod_eq_zero hzero)).symm
        rw [hvalue, zpow_add_one₀ (by norm_num), hsplit]
        ring
      · exact ⟨hpos, Nat.le_refl _, Int.le_refl _, rfl⟩

theorem fits_dropZeros {count digits : Nat} (hcount : count ≤ 18)
    (h : IsHit units (leadingPower units + 1 - count) digits) (hdigits : digits ≤ 10 ^ 18) :
    Fits units (dropZeros digits (leadingPower units + 1 - count)) := by
  obtain ⟨hpos, hle, hexponent, hvalue⟩ := dropZeros_spec h.pos (leadingPower units + 1 - count)
  constructor
  · exact hpos
  · exact hle.trans hdigits
  · rw [← mul_assoc (_ : ℚ) _ (unitsPerOne : ℚ), hvalue, mul_assoc (_ : ℚ) _ (unitsPerOne : ℚ)]
    exact h.le_upperEnd
  · omega

/-- The digits of a number down to a power of ten that it exceeds are a hit, although perhaps not a
decimal that reads back. -/
theorem isHit_floor {num den : Nat} (hden : 0 < den)
    (hgrid : (num : ℚ) = 10 ^ exponent * unitsPerOne * den)
    (hlead : (10 : ℚ) ^ exponent * unitsPerOne ≤ units) :
    IsHit units exponent (units * den / num) := by
  have hdenq : (0 : ℚ) < den := by exact_mod_cast hden
  have hgridUnits := gridUnits_pos exponent
  have hnum : 0 < num := by
    have : (0 : ℚ) < num := by
      rw [hgrid]
      exact mul_pos hgridUnits hdenq
    exact_mod_cast this
  have hfloor : ((units * den / num * num : Nat) : ℚ) ≤ (units * den : Nat) := by
    exact_mod_cast Nat.div_mul_le_self _ _
  have hle : ((units * den / num : Nat) : ℚ) * (10 ^ exponent * unitsPerOne) ≤ units := by
    refine le_of_mul_le_mul_right ?_ hdenq
    push_cast at hfloor
    rw [hgrid] at hfloor
    linarith
  constructor
  · refine Nat.div_pos ?_ hnum
    have : (num : ℚ) ≤ (units * den : Nat) := by
      rw [hgrid]
      push_cast
      exact mul_le_mul_of_nonneg_right hlead hdenq.le
    exact_mod_cast this
  · have hupper : 4 * units ≤ upperEnd units := Nat.le_add_right _ _
    have hupper' : 4 * (units : ℚ) ≤ upperEnd units := by exact_mod_cast hupper
    linarith
  · linarith

/-- What the search finds, wherever it stops. -/
theorem fits_searchGrids (hpos : 0 < units) (hlimit : units < limit) (more count : Nat)
    (hcount : 0 < count) (hmost : more + count ≤ 18) :
    Fits units (searchGrids units (leadingPower units) more count) := by
  obtain ⟨hlow, hhigh⟩ := leadingPower_spec hpos hlimit
  induction more generalizing count with
  | zero =>
      have hgrid := gridUnits_eq (leadingPower units + 1 - count)
      have hlead : (10 : ℚ) ^ (leadingPower units + 1 - count) * unitsPerOne ≤ units := by
        refine le_trans ?_ hlow
        refine mul_le_mul_of_nonneg_right ?_ (Nat.cast_nonneg _)
        exact zpow_le_zpow_right₀ (by norm_num) (by omega)
      have htens : (10 : Nat) ^ count ≤ 10 ^ 18 := Nat.pow_le_pow_right (by decide) (by omega)
      -- the last grid is taken as it is, without a look at the interval
      have hspec := isHit_floor (gridDen_pos _) hgrid hlead
      exact fits_dropZeros (by omega) hspec ((hspec.digits_le hhigh).trans htens)
  | succ more ih =>
      rw [searchGrids]
      split
      · rename_i digits hhit
        have hspec := gridHit?_spec hpos hhit
        have htens : (10 : Nat) ^ count ≤ 10 ^ 18 := Nat.pow_le_pow_right (by decide) (by omega)
        exact fits_dropZeros (by omega) hspec ((hspec.digits_le hhigh).trans htens)
      · exact ih (count + 1) (Nat.succ_pos _) (by omega)

/-- What the shortest decimal of a number is like. -/
theorem fits_shortest (hpos : 0 < units) (hlimit : units < limit) : Fits units (shortest units) :=
  fits_searchGrids hpos hlimit 17 1 Nat.one_pos (Nat.le_refl _)

/-! ## The exponent of the decimal -/

/-- The leading digit of the smallest number stands 324 places behind the point. -/
theorem leadingPower_ge (hpos : 0 < units) (hlimit : units < limit) :
    -324 ≤ leadingPower units := by
  obtain ⟨-, hhigh⟩ := leadingPower_spec hpos hlimit
  by_contra hlow
  rw [not_le] at hlow
  have hone : (1 : ℚ) ≤ units := by exact_mod_cast hpos
  have hpower : (10 : ℚ) ^ (leadingPower units + 1) ≤ 10 ^ (-324 : Int) :=
    zpow_le_zpow_right₀ (by norm_num) (by omega)
  have hunits : (unitsPerOne : ℚ) < 10 ^ (324 : Int) := by
    exact_mod_cast unitsPerOne_lt_tenPow
  have hinverse : (10 : ℚ) ^ (-324 : Int) * 10 ^ (324 : Int) = 1 := by
    rw [← zpow_add₀ (by norm_num)]
    rfl
  have hbelow : (units : ℚ) < 1 := by
    calc (units : ℚ) < 10 ^ (leadingPower units + 1) * unitsPerOne := hhigh
      _ ≤ 10 ^ (-324 : Int) * unitsPerOne := mul_le_mul_of_nonneg_right hpower (Nat.cast_nonneg _)
      _ ≤ 10 ^ (-324 : Int) * 10 ^ (324 : Int) :=
        mul_le_mul_of_nonneg_left hunits.le (zpow_nonneg (by norm_num) _)
      _ = 1 := hinverse
  linarith

theorem upperEnd_le (hpos : 0 < units) : upperEnd units ≤ 6 * units := by
  have hstep := spacing_le_max units
  rw [upperEnd]
  omega

/-- The exponents that the shortest decimals have. -/
theorem Fits.exponent_bounds {d : ShortDecimal} (h : Fits units d) (hpos : 0 < units)
    (hlimit : units < limit) : -341 ≤ d.exponent ∧ d.exponent ≤ 308 := by
  have hlow := leadingPower_ge hpos hlimit
  refine ⟨by linarith [h.le_exponent], ?_⟩
  by_contra hhigh
  rw [not_le] at hhigh
  have hdigits : (1 : ℚ) ≤ d.digits := by exact_mod_cast h.pos
  have hpower : (10 : ℚ) ^ (309 : Int) ≤ 10 ^ d.exponent :=
    zpow_le_zpow_right₀ (by norm_num) (by omega)
  have hlast : 3 * (limit : ℚ) < 10 ^ (309 : Int) * unitsPerOne := by
    exact_mod_cast three_limit_lt_tenPow
  have hupper : (upperEnd units : ℚ) ≤ 6 * limit := by
    exact_mod_cast (upperEnd_le hpos).trans (Nat.mul_le_mul_left 6 hlimit.le)
  have hvalue : (10 : ℚ) ^ (309 : Int) * unitsPerOne ≤
      d.digits * (10 ^ d.exponent * unitsPerOne) := by
    calc (10 : ℚ) ^ (309 : Int) * unitsPerOne ≤ 10 ^ d.exponent * unitsPerOne :=
          mul_le_mul_of_nonneg_right hpower (Nat.cast_nonneg _)
      _ = 1 * (10 ^ d.exponent * unitsPerOne) := (one_mul _).symm
      _ ≤ d.digits * (10 ^ d.exponent * unitsPerOne) :=
        mul_le_mul_of_nonneg_right hdigits (gridUnits_pos _).le
  linarith [h.le_upperEnd, gridUnits_pos 309]

end Haulage.Numeric.Binary64
