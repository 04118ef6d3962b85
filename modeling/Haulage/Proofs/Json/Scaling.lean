import Haulage.Json.Token
import Haulage.Proofs.Numeric.Shortest

/-!
# Scaling the digits of a number

The digits of a number that is read are scaled by a power of ten in floating point, and the result
can be another double than the nearest one. It can also be infinite, and then the number is refused.
This does not happen to the shortest decimal of a finite double, not even to those of the largest
ones: they have a rounding error of a few `2 ^ 53`-rd parts to spare, or are known to come out
finite.

- `scales_of_neg`: scaling down stays finite.
- `scales_of_le`: scaling up stays finite some distance below infinity.
- `scales_shortest`: the digits of a shortest decimal scale to a finite number.
- `isDouble_of_scaleUnits?`: what comes out is a double.
-/

set_option autoImplicit false

namespace Haulage.Json

open Haulage.Numeric Haulage.Numeric.Binary64

variable {units scaled : Nat} {exponent : Int}

/-- That a count of units scales to a finite number. -/
def Scales (significand : Nat) (exponent : Int) : Prop :=
  ∃ scaled, scaleUnits? 4 (roundedUnits (significand * unitsPerOne) 1) exponent = some scaled

/-! ## Scaling down -/

theorem unitsPerOne_le_tenPowerUnits (n : Nat) : unitsPerOne ≤ 2 * tenPowerUnits n :=
  calc unitsPerOne ≤ Nat.pow 10 n * unitsPerOne :=
      Nat.le_mul_of_pos_left _ (Nat.pow_pos (by decide))
    _ ≤ 2 * tenPowerUnits n := le_two_mul_roundedUnits _

/-- A quotient by a power of ten is finite, and not much larger than the count itself. -/
theorem units?_divUnits (n : Nat) (h : 8 * (units + 1) ≤ limit) :
    ∃ scaled, (divUnits units (tenPowerUnits n)).units? = some scaled ∧
      scaled + 1 ≤ 8 * (units + 1) := by
  have hpower := unitsPerOne_le_tenPowerUnits n
  have hquotient : units * unitsPerOne / tenPowerUnits n ≤ 2 * units := by
    refine Nat.div_le_of_le_mul ?_
    calc units * unitsPerOne ≤ units * (2 * tenPowerUnits n) := Nat.mul_le_mul_left _ hpower
      _ = tenPowerUnits n * (2 * units) := by ring
  have hrounded := roundedUnits_le (units * unitsPerOne) (tenPowerUnits n)
  have hlt : roundedUnits (units * unitsPerOne) (tenPowerUnits n) < limit := by omega
  refine ⟨roundedUnits (units * unitsPerOne) (tenPowerUnits n), ?_, by omega⟩
  rw [divUnits, ofUnits, if_pos hlt, units?]

/-- A count that has room left for the steps scales down to a finite one. -/
theorem scaleUnits?_of_neg (fuel : Nat) (hexponent : exponent < 0)
    (h : 8 ^ (fuel + 1) * (units + 1) ≤ limit) :
    ∃ scaled, scaleUnits? fuel units exponent = some scaled := by
  induction fuel generalizing units exponent with
  | zero =>
      rw [Nat.zero_add, Nat.pow_one] at h
      obtain ⟨near, hnear, -⟩ := units?_divUnits exponent.natAbs h
      rw [scaleUnits?, if_neg (not_le.mpr hexponent), if_neg (not_le.mpr hexponent)]
      split_ifs
      · exact ⟨near, hnear⟩
      · exact ⟨0, rfl⟩
      · exact ⟨0, rfl⟩
  | succ fuel ih =>
      have hroom : 8 * (units + 1) ≤ limit :=
        calc 8 * (units + 1) ≤ 8 ^ (fuel + 1 + 1) * (units + 1) :=
              Nat.mul_le_mul_right _ (Nat.le_self_pow (Nat.succ_ne_zero _) 8)
          _ ≤ limit := h
      rw [scaleUnits?, if_neg (not_le.mpr hexponent), if_neg (not_le.mpr hexponent)]
      split_ifs with hclose
      · obtain ⟨near, hnear, -⟩ := units?_divUnits exponent.natAbs hroom
        exact ⟨near, hnear⟩
      · exact ⟨0, rfl⟩
      · -- one step by the largest power of ten, and there is room left for the others
        obtain ⟨scaled, hdiv, hscaled⟩ := units?_divUnits 308 hroom
        rw [hdiv, Option.bind_some]
        refine ih (by omega) ?_
        calc 8 ^ (fuel + 1) * (scaled + 1) ≤ 8 ^ (fuel + 1) * (8 * (units + 1)) :=
              Nat.mul_le_mul_left _ hscaled
          _ = 8 ^ (fuel + 1 + 1) * (units + 1) := by rw [Nat.pow_succ _ (fuel + 1), Nat.mul_assoc]
          _ ≤ limit := h

theorem largestWord_room : 8 ^ 6 * (largestWord * unitsPerOne) ≤ limit := by
  decide +kernel

theorem largestWord_units_pos : 0 < largestWord * unitsPerOne :=
  Nat.mul_pos (by decide) unitsPerOne_pos

/-- A significand of 64 bits scales down. -/
theorem scales_of_neg {significand : Nat} (h : significand ≤ largestWord)
    (hexponent : exponent < 0) :
    Scales significand exponent := by
  have hrounded := roundedUnits_le (significand * unitsPerOne) 1
  have hword := Nat.mul_le_mul_right unitsPerOne h
  have hpos := largestWord_units_pos
  rw [Nat.div_one] at hrounded
  have hroom := largestWord_room
  refine scaleUnits?_of_neg 4 hexponent ?_
  generalize largestWord * unitsPerOne = largest at *
  omega

/-! ## Scaling up -/

/-- The relative error of one rounding. -/
def roundingError : ℚ :=
  1 / 2 ^ 53

theorem roundedUnits_le_error {num den : Nat} (hden : 0 < den) (h : den * 2 ^ 52 ≤ num) :
    (roundedUnits num den : ℚ) ≤ (1 + roundingError) * (num / den) := by
  have hround : ((2 ^ 53 * (den * roundedUnits num den) : Nat) : ℚ) ≤
      ((2 ^ 53 + 1) * num : Nat) := by
    exact_mod_cast roundedUnits_le_relative h
  have hdenq : (0 : ℚ) < den := by exact_mod_cast hden
  rw [← mul_div_assoc, le_div_iff₀ hdenq, roundingError]
  push_cast at hround
  linarith

theorem unitsPerOne_large : 2 ^ 54 ≤ unitsPerOne := by
  decide +kernel

/-- A rounded positive number of whole units is too large by one error at most. -/
theorem roundedUnits_whole_le {n : Nat} (h : 0 < n) :
    (roundedUnits (n * unitsPerOne) 1 : ℚ) ≤ (1 + roundingError) * (n * unitsPerOne) := by
  have hlarge : 1 * 2 ^ 52 ≤ n * unitsPerOne := by
    calc 1 * 2 ^ 52 ≤ unitsPerOne := (by decide : 1 * 2 ^ 52 ≤ 2 ^ 54).trans unitsPerOne_large
      _ ≤ n * unitsPerOne := Nat.le_mul_of_pos_left _ h
  have hround := roundedUnits_le_error Nat.one_pos hlarge
  push_cast at hround
  rwa [div_one] at hround

/-- A product of two rounded numbers is large enough to be rounded with the relative error. -/
theorem product_large {m n : Nat} (hm : 0 < m) (hn : 0 < n) :
    unitsPerOne * 2 ^ 52 ≤
      roundedUnits (m * unitsPerOne) 1 * roundedUnits (n * unitsPerOne) 1 := by
  have hleft : unitsPerOne ≤ 2 * roundedUnits (m * unitsPerOne) 1 :=
    (Nat.le_mul_of_pos_left _ hm).trans (le_two_mul_roundedUnits _)
  have hright : unitsPerOne ≤ 2 * roundedUnits (n * unitsPerOne) 1 :=
    (Nat.le_mul_of_pos_left _ hn).trans (le_two_mul_roundedUnits _)
  have hlarge := unitsPerOne_large
  generalize roundedUnits (m * unitsPerOne) 1 = a at *
  generalize roundedUnits (n * unitsPerOne) 1 = b at *
  generalize unitsPerOne = u at *
  have hmul : u * u ≤ 2 * a * (2 * b) := Nat.mul_le_mul hleft hright
  have hsquare : u * 2 ^ 54 ≤ u * u := Nat.mul_le_mul_left u hlarge
  nlinarith

/-- Three errors in a row do not lead from the fourth largest double to infinity. -/
theorem three_errors : (1 + roundingError) ^ 3 * ((2 ^ 55 - 14) / 4) < 2 ^ 53 := by
  rw [roundingError]
  norm_num

/-- A product of two numbers, rounded like each of them, has three errors. -/
theorem product_le_of_errors {error a b c s t u : ℚ} (herror : 0 ≤ error) (hu : 0 < u) (ha : 0 ≤ a)
    (hleft : b ≤ error * (s * u)) (hright : a ≤ error * (t * u)) (hs : 0 ≤ s)
    (hlast : c ≤ error * (b * a / u)) : c ≤ error ^ 3 * (s * (t * u)) := by
  have hproduct : b * a ≤ error * (s * u) * (error * (t * u)) :=
    mul_le_mul hleft hright ha (mul_nonneg herror (mul_nonneg hs hu.le))
  calc c ≤ error * (b * a / u) := hlast
    _ ≤ error * (error * (s * u) * (error * (t * u)) / u) :=
      mul_le_mul_of_nonneg_left (div_le_div_of_nonneg_right hproduct hu.le) herror
    _ = error ^ 3 * (s * (t * u)) := by
      field_simp

/-- A significand scales up to a finite number when its value is well below infinity. -/
theorem scales_of_le {significand : Nat} (hpos : 0 < significand) (hlow : 0 ≤ exponent)
    (hhigh : exponent ≤ 308)
    (hvalue : 4 * (significand * ((10 : ℚ) ^ exponent * unitsPerOne)) ≤
      (2 ^ 55 - 14) * widestSpacing) :
    Scales significand exponent := by
  obtain ⟨n, rfl⟩ := Int.eq_ofNat_of_zero_le hlow
  have htens : 0 < Nat.pow 10 n := Nat.pow_pos (by decide)
  have hone : (0 : ℚ) < unitsPerOne := by exact_mod_cast unitsPerOne_pos
  have hwide : (0 : ℚ) < widestSpacing := by exact_mod_cast widestSpacing_pos
  have herror : (0 : ℚ) ≤ 1 + roundingError := by
    rw [roundingError]
    norm_num
  have hlast := roundedUnits_le_error unitsPerOne_pos (product_large hpos htens)
  rw [Nat.cast_mul] at hlast
  -- the significand, the power of ten and their product are rounded, one after the other
  have hthree := product_le_of_errors herror hone (Nat.cast_nonneg _)
    (roundedUnits_whole_le hpos) (roundedUnits_whole_le htens) (Nat.cast_nonneg _) hlast
  rw [Nat.pow_eq, Nat.cast_pow, Nat.cast_ofNat] at hthree
  rw [zpow_natCast] at hvalue
  have hfinite : roundedUnits (roundedUnits (significand * unitsPerOne) 1 *
      roundedUnits (10 ^ n * unitsPerOne) 1) unitsPerOne < limit := by
    have hchain : (roundedUnits (roundedUnits (significand * unitsPerOne) 1 *
        roundedUnits (10 ^ n * unitsPerOne) 1) unitsPerOne : ℚ) < 2 ^ 53 * widestSpacing :=
      calc _ ≤ (1 + roundingError) ^ 3 * (significand * ((10 : ℚ) ^ n * unitsPerOne)) := hthree
        _ ≤ (1 + roundingError) ^ 3 * ((2 ^ 55 - 14) / 4 * widestSpacing) :=
          mul_le_mul_of_nonneg_left (by linarith) (pow_nonneg herror 3)
        _ = (1 + roundingError) ^ 3 * ((2 ^ 55 - 14) / 4) * widestSpacing := by rw [mul_assoc]
        _ < 2 ^ 53 * widestSpacing := mul_lt_mul_of_pos_right three_errors hwide
    rw [limit_eq_mul]
    exact_mod_cast hchain
  refine ⟨roundedUnits (roundedUnits (significand * unitsPerOne) 1 *
      roundedUnits (10 ^ n * unitsPerOne) 1) unitsPerOne, ?_⟩
  rw [scaleUnits?, if_pos (by omega), if_pos hlow, mulUnits, ofUnits, tenPowerUnits,
    Int.natAbs_natCast, Nat.pow_eq, if_pos hfinite, units?]

/-! ## Shortest decimals -/

/-- The three largest doubles read back. -/
theorem scales_largest : ∀ j ∈ [1, 2, 3],
    (scaleUnits? 4 (roundedUnits ((shortest ((2 ^ 53 - j) * widestSpacing)).digits * unitsPerOne) 1)
      (shortest ((2 ^ 53 - j) * widestSpacing)).exponent).isSome = true := by
  decide +kernel

/-- The digits of the shortest decimal of a finite number scale to a finite number. -/
theorem scales_shortest (hpos : 0 < units) (h : IsDouble units) :
    Scales (shortest units).digits (shortest units).exponent := by
  have hfits := fits_shortest hpos h.lt_limit
  obtain ⟨-, hhigh⟩ := hfits.exponent_bounds hpos h.lt_limit
  have hword : (shortest units).digits ≤ largestWord := hfits.digits_le.trans (by decide)
  rcases Int.lt_or_le (shortest units).exponent 0 with hneg | hlow
  · exact scales_of_neg hword hneg
  have hof : upperEnd units ≤ (2 ^ 55 - 14) * widestSpacing →
      Scales (shortest units).digits (shortest units).exponent := by
    intro hupper
    have hcast : ((2 ^ 55 - 14 : Nat) : ℚ) = 2 ^ 55 - 14 := by norm_num
    have hupper' : (upperEnd units : ℚ) ≤ (2 ^ 55 - 14) * widestSpacing := by
      rw [← hcast, ← Nat.cast_mul]
      exact Nat.cast_le.mpr hupper
    exact scales_of_le hfits.pos hlow hhigh (hfits.le_upperEnd.trans hupper')
  rcases h.cases with ⟨k, hk, hunits, hspacing⟩ | hsmall
  · rcases Nat.lt_or_ge (2 ^ 53 - 4) k with hlarge | hk'
    · -- three numbers are left, whose decimals are known
      have hj : ∃ j ∈ [1, 2, 3], k = 2 ^ 53 - j := ⟨2 ^ 53 - k, by simp; omega, by omega⟩
      obtain ⟨j, hj, hkj⟩ := hj
      rw [hunits, hkj]
      exact Option.isSome_iff_exists.mp (scales_largest j hj)
    · apply hof
      rw [upperEnd, hspacing, hunits]
      generalize widestSpacing = w
      calc 4 * (k * w) + 2 * w = (4 * k + 2) * w := by ring
        _ ≤ (2 ^ 55 - 14) * w := Nat.mul_le_mul_right _ (by omega)
  · apply hof
    refine (upperEnd_le hpos).trans ?_
    generalize widestSpacing = w at *
    omega

/-! ## What comes out -/

theorem isDouble_of_units? {negative : Bool} {num den : Nat}
    (h : (ofUnits negative num den).units? = some units) : IsDouble units := by
  cases hx : ofUnits negative num den with
  | finite sign u =>
      rw [hx] at h
      exact Option.some.inj h ▸ isDouble_of_ofUnits hx
  | nan =>
      rw [hx] at h
      cases h
  | infinity sign =>
      rw [hx] at h
      cases h

/-- What comes out of a scaling is a double. -/
theorem isDouble_of_scaleUnits? {fuel : Nat} (h : scaleUnits? fuel units exponent = some scaled) :
    IsDouble scaled := by
  induction fuel generalizing units exponent with
  | zero =>
      rw [scaleUnits?] at h
      split_ifs at h
      · exact isDouble_of_units? h
      · exact isDouble_of_units? h
      · exact Option.some.inj h ▸ isDouble_zero
      · exact Option.some.inj h ▸ isDouble_zero
  | succ fuel ih =>
      rw [scaleUnits?] at h
      split_ifs at h
      · exact isDouble_of_units? h
      · exact isDouble_of_units? h
      · exact Option.some.inj h ▸ isDouble_zero
      · obtain ⟨next, -, hnext⟩ := Option.bind_eq_some_iff.mp h
        exact ih hnext

end Haulage.Json
