import Haulage.Proofs.Json.Scaling
import Haulage.Proofs.Json.Tokens
import Haulage.Proofs.Numeric.Digits

/-!
# Numbers read back

A printed number is read back as a number: an integer as itself, and a real number as a real one, if
not as the same. What follows it must not go on with it.

- `Closes`: what may follow a value.
- `exists_readNumber_whole`, `readFraction_append`, `exists_readExponent`: the parts of a literal.
- `givesReal_realChars`: the forms of a real number.
- `exists_readValue_number`: any number that a reader can have given.
-/

set_option autoImplicit false

namespace Haulage.Json

open Haulage.Numeric Haulage.Numeric.Binary64

variable {digits whole rest : List Char} {place : Position} {negative : Bool} {significand : Nat}

/-- What may follow a value: nothing, a comma or a closing bracket. -/
def Closes (rest : List Char) : Prop :=
  ∀ c ∈ rest.head?, c = ',' ∨ c = ']' ∨ c = '\x7d'

theorem closes_nil : Closes [] := by
  intro c hc
  cases hc

theorem closes_cons {c : Char} (h : c = ',' ∨ c = ']' ∨ c = '\x7d') (rest : List Char) :
    Closes (c :: rest) := by
  intro d hd
  rw [List.head?_cons, Option.mem_some_iff] at hd
  exact hd ▸ h

/-- What closes a value goes on with no number. -/
theorem Closes.goes_on {c : Char} (h : Closes (c :: rest)) :
    isDecimalDigit c = false ∧ c ≠ '.' ∧ ¬(c = 'e' ∨ c = 'E') := by
  rcases h c rfl with rfl | rfl | rfl <;> decide

/-! ## Digits -/

/-- That no digit comes next. -/
def Ends (rest : List Char) : Prop :=
  ∀ c ∈ rest.head?, isDecimalDigit c = false

theorem ends_cons {c : Char} (h : isDecimalDigit c = false) (rest : List Char) :
    Ends (c :: rest) := by
  intro d hd
  rw [← Option.some.inj hd]
  exact h

theorem Closes.ends (h : Closes rest) : Ends rest := by
  intro c hc
  rcases h c hc with rfl | rfl | rfl <;> rfl

theorem takeDigits_append (hdigits : ∀ c ∈ digits, isDecimalDigit c = true) (hends : Ends rest) :
    takeDigits ⟨digits ++ rest, place⟩ =
      (digits, ⟨rest, ⟨place.line, place.column + digits.length⟩⟩) := by
  have htake : (digits ++ rest).takeWhile isDecimalDigit = digits := by
    rw [List.takeWhile_append_of_pos hdigits]
    cases rest with
    | nil => simp
    | cons c more => simp [hends c rfl]
  have hdrop : (digits ++ rest).dropWhile isDecimalDigit = rest := by
    rw [List.dropWhile_append_of_pos hdigits]
    cases rest with
    | nil => rfl
    | cons c more => simp [hends c rfl]
  simp only [takeDigits, htake, hdrop]

/-- Digits are absorbed while they make a number of 64 bits. -/
theorem absorbDigits_eq (h : digitsOnto significand digits ≤ largestWord) :
    absorbDigits significand digits = (digitsOnto significand digits, []) := by
  induction digits generalizing significand with
  | nil => rfl
  | cons c more ih =>
      have hfirst : significand * 10 + digitOf c ≤ largestWord := (le_digitsOnto _ more).trans h
      rw [absorbDigits]
      simp only [if_pos hfirst]
      exact ih h

/-! ## Parts of a literal -/

/-- What a number is after its whole part. -/
def afterWhole (negative : Bool) (significand : Nat) (after : Position) : List Char → Reading Number
  | [] => .ok (integerNumber negative significand, ⟨[], after⟩)
  | next :: rest =>
    if next = '.' then readFraction negative significand 0 ⟨rest, after.after next⟩
    else if next = 'e' ∨ next = 'E' then
      readExponent negative significand 0 ⟨rest, after.after next⟩
    else .ok (integerNumber negative significand, ⟨next :: rest, after⟩)

/-- A whole part is read up to what follows it. -/
theorem exists_readNumber_whole (h : IsWhole whole) (hword : ofDigits whole ≤ largestWord)
    (hends : Ends rest) (negative : Bool) (place : Position) :
    ∃ after, readNumber negative ⟨whole ++ rest, place⟩ =
      afterWhole negative (ofDigits whole) after rest := by
  obtain ⟨c, more, rfl⟩ := h.exists_cons
  have hc : isDecimalDigit c = true := h.digit c List.mem_cons_self
  have htaken : ∃ after,
      (if c = '0' then ([c], Cursor.advance ⟨c :: more ++ rest, place⟩ c (more ++ rest))
      else takeDigits ⟨c :: more ++ rest, place⟩) = (c :: more, ⟨rest, after⟩) := by
    split
    · rename_i hzero
      -- a leading zero stands alone
      rcases h.lead with hlead | ⟨d, front, hlead, hd⟩
      · obtain ⟨rfl, rfl⟩ := List.cons.inj hlead
        exact ⟨_, rfl⟩
      · obtain ⟨rfl, -⟩ := List.cons.inj hlead
        exact absurd hzero hd
    · exact ⟨_, takeDigits_append h.digit hends⟩
  obtain ⟨after, htaken⟩ := htaken
  refine ⟨after, ?_⟩
  rw [readNumber, List.cons_append]
  rw [List.cons_append] at htaken
  have habsorbed : absorbDigits 0 (c :: more) = (ofDigits (c :: more), []) := absorbDigits_eq hword
  simp only [hc, if_true, htaken, habsorbed, List.isEmpty_nil, List.length_nil, Nat.cast_zero]
  cases rest with
  | nil => rfl
  | cons next rest =>
      have hnext : ¬(c = '0' ∧ isDecimalDigit next = true) := by
        rintro ⟨-, hdigit⟩
        rw [hends next rfl] at hdigit
        cases hdigit
      simp only [if_neg hnext]
      rfl

/-- A fraction is read up to what follows it. -/
theorem readFraction_append (hne : digits ≠ []) (hdigits : ∀ c ∈ digits, isDecimalDigit c = true)
    (hword : digitsOnto significand digits ≤ largestWord) (hends : Ends rest) (start : Int) :
    readFraction negative significand start ⟨digits ++ rest, place⟩ =
      match rest with
      | c :: more =>
        if c = 'e' ∨ c = 'E' then
          readExponent negative (digitsOnto significand digits) (start - digits.length)
            ⟨more, Position.after ⟨place.line, place.column + digits.length⟩ c⟩
        else
          realNumber negative (digitsOnto significand digits) (start - digits.length)
            ⟨c :: more, ⟨place.line, place.column + digits.length⟩⟩
      | [] =>
        realNumber negative (digitsOnto significand digits) (start - digits.length)
          ⟨[], ⟨place.line, place.column + digits.length⟩⟩ := by
  rw [readFraction, takeDigits_append hdigits hends]
  simp only [List.isEmpty_iff, hne, if_false, absorbDigits_eq hword, List.length_nil, Nat.sub_zero]
  cases rest <;> rfl

theorem exponentOverflow?_eq_none {value : Nat} (h : digitsOnto value digits ≤ Nat.pow 2 31 - 1)
    (read : Nat) : exponentOverflow? value read digits = none := by
  induction digits generalizing value read with
  | nil => rfl
  | cons c more ih =>
      have hfirst : value * 10 + digitOf c ≤ Nat.pow 2 31 - 1 := (le_digitsOnto _ more).trans h
      rw [exponentOverflow?]
      simp only [if_neg (not_lt.mpr hfirst)]
      exact ih h (read + 1)

/-- The sign and digits of an exponent. -/
def exponentChars (power : Int) : List Char :=
  (if 0 ≤ power then '+' else '-') :: decimalChars power.natAbs

/-- An exponent is read, and the significand is scaled by it. -/
theorem exists_readExponent {power : Int} (hpower : power.natAbs ≤ Nat.pow 2 31 - 1)
    (hends : Ends rest) (negative : Bool) (significand : Nat) (start : Int) (place : Position) :
    ∃ after, readExponent negative significand start ⟨exponentChars power ++ rest, place⟩ =
      realNumber negative significand (start + power) ⟨rest, after⟩ := by
  have hdigits := isDecimalDigit_of_mem_decimalChars power.natAbs
  have hvalue := ofDigits_decimalChars power.natAbs
  have hnone : exponentOverflow? 0 0 (decimalChars power.natAbs) = none :=
    exponentOverflow?_eq_none (by rw [← ofDigits_eq, hvalue]; exact hpower) 0
  obtain ⟨c, more, hcons⟩ := (isWhole_decimalChars power.natAbs).exists_cons
  rw [hcons] at hdigits hvalue hnone
  have hc : isDecimalDigit c = true := hdigits c List.mem_cons_self
  have htaken : ∀ start : Position, takeDigits ⟨c :: (more ++ rest), start⟩ =
      (c :: more, ⟨rest, ⟨start.line, start.column + (c :: more).length⟩⟩) :=
    fun start => takeDigits_append hdigits hends
  rw [exponentChars, hcons]
  split
  · rename_i hsign
    refine ⟨⟨(place.after '+').line, (place.after '+').column + (c :: more).length⟩, ?_⟩
    rw [readExponent, List.cons_append, List.cons_append]
    simp only [Cursor.advance, hc, if_true, htaken, hnone, hvalue]
    rw [if_neg Bool.false_ne_true, Int.natAbs_of_nonneg hsign]
  · rename_i hsign
    refine ⟨⟨(place.after '-').line, (place.after '-').column + (c :: more).length⟩, ?_⟩
    rw [readExponent, List.cons_append, List.cons_append]
    simp only [Cursor.advance, hc, if_true, htaken, hnone, hvalue]
    rw [Int.ofNat_natAbs_of_nonpos (not_le.mp hsign).le, sub_neg_eq_add]

/-! ## Literals -/

section Literals

variable (negative) (place)

/-- A literal with a fraction. -/
theorem exists_readNumber_fraction (h : IsWhole whole) (hne : digits ≠ [])
    (hdigits : ∀ c ∈ digits, isDecimalDigit c = true)
    (hword : digitsOnto (ofDigits whole) digits ≤ largestWord) (hcloses : Closes rest) :
    ∃ after, readNumber negative ⟨whole ++ '.' :: (digits ++ rest), place⟩ =
      realNumber negative (digitsOnto (ofDigits whole) digits) (-digits.length) ⟨rest, after⟩ := by
  have hwhole : ofDigits whole ≤ largestWord := (le_digitsOnto _ digits).trans hword
  obtain ⟨point, hread⟩ :=
    exists_readNumber_whole h hwhole (ends_cons (c := '.') rfl (digits ++ rest)) negative place
  rw [hread, afterWhole, if_pos rfl, readFraction_append hne hdigits hword hcloses.ends, zero_sub]
  cases rest with
  | nil => exact ⟨_, rfl⟩
  | cons c more =>
      simp only [if_neg hcloses.goes_on.2.2]
      exact ⟨_, rfl⟩

/-- A literal with an exponent. -/
theorem exists_readNumber_exponent (h : IsWhole whole) (hword : ofDigits whole ≤ largestWord)
    {power : Int} (hpower : power.natAbs ≤ Nat.pow 2 31 - 1) (hcloses : Closes rest) :
    ∃ after, readNumber negative ⟨whole ++ 'e' :: (exponentChars power ++ rest), place⟩ =
      realNumber negative (ofDigits whole) power ⟨rest, after⟩ := by
  obtain ⟨letter, hread⟩ :=
    exists_readNumber_whole h hword (ends_cons (c := 'e') rfl (exponentChars power ++ rest))
      negative place
  obtain ⟨after, hexponent⟩ := exists_readExponent hpower hcloses.ends negative (ofDigits whole) 0
    (letter.after 'e')
  refine ⟨after, ?_⟩
  rw [hread, afterWhole, if_neg (by decide), if_pos (.inl rfl), hexponent, zero_add]

/-- A literal with a fraction and an exponent. -/
theorem exists_readNumber_both (h : IsWhole whole) (hne : digits ≠ [])
    (hdigits : ∀ c ∈ digits, isDecimalDigit c = true)
    (hword : digitsOnto (ofDigits whole) digits ≤ largestWord)
    {power : Int} (hpower : power.natAbs ≤ Nat.pow 2 31 - 1) (hcloses : Closes rest) :
    ∃ after, readNumber negative ⟨whole ++ '.' :: (digits ++ 'e' :: (exponentChars power ++ rest)),
      place⟩ =
      realNumber negative (digitsOnto (ofDigits whole) digits) (-digits.length + power)
        ⟨rest, after⟩ := by
  have hwhole : ofDigits whole ≤ largestWord := (le_digitsOnto _ digits).trans hword
  have hletter : Ends ('e' :: (exponentChars power ++ rest)) := ends_cons rfl _
  obtain ⟨point, hread⟩ := exists_readNumber_whole h hwhole
    (ends_cons (c := '.') rfl (digits ++ 'e' :: (exponentChars power ++ rest))) negative place
  obtain ⟨after, hexponent⟩ := exists_readExponent hpower hcloses.ends negative
    (digitsOnto (ofDigits whole) digits) (-digits.length)
    (Position.after ⟨(point.after '.').line, (point.after '.').column + digits.length⟩ 'e')
  refine ⟨after, ?_⟩
  rw [hread, afterWhole, if_pos rfl, readFraction_append hne hdigits hword hletter, zero_sub]
  simp only [true_or, if_true]
  exact hexponent

end Literals

/-! ## Real numbers -/

section Reals

/-- A decimal that is written in full precision and scales back to a finite number. -/
structure ScalesBack (d : ShortDecimal) : Prop where
  pos : 0 < d.digits
  digits_le : d.digits ≤ 10 ^ 18
  above : -341 ≤ d.exponent
  below : d.exponent ≤ 308
  scales : Scales d.digits d.exponent

theorem scalesBack_shortest {units : Nat} (hpos : 0 < units) (h : IsDouble units) :
    ScalesBack (shortest units) := by
  have hfits := fits_shortest hpos h.lt_limit
  obtain ⟨habove, hbelow⟩ := hfits.exponent_bounds hpos h.lt_limit
  exact ⟨hfits.pos, hfits.digits_le, habove, hbelow, scales_shortest hpos h⟩

/-- A reading that gives a real number of a sign and leaves the rest. -/
def GivesReal (negative : Bool) (rest : List Char) (r : Reading Number) : Prop :=
  ∃ units after, r = .ok (.real (.finite negative units), ⟨rest, after⟩)

theorem givesReal_of_scales {exponent : Int} (h : Scales significand exponent) (negative : Bool)
    (rest : List Char) (after : Position) :
    GivesReal negative rest (realNumber negative significand exponent ⟨rest, after⟩) := by
  obtain ⟨scaled, hscaled⟩ := h
  exact ⟨scaled, after, by rw [realNumber, hscaled]⟩

variable {d : ShortDecimal} (negative) (place)

theorem length_digits (h : ScalesBack d) :
    0 < (decimalChars d.digits).length ∧ (decimalChars d.digits).length ≤ 19 := by
  constructor
  · exact List.length_pos_of_ne_nil (decimalChars_ne_nil _)
  · exact length_decimalChars_le (by decide) (h.digits_le.trans_lt (by decide))

theorem digits_le_largestWord (h : ScalesBack d) : d.digits ≤ largestWord :=
  h.digits_le.trans (by decide)

/-- A number without digits behind the point: it is read with the zero that stands there. -/
theorem givesReal_integral (h : ScalesBack d) (hexponent : 0 ≤ d.exponent)
    (hpoint : (decimalChars d.digits).length + d.exponent ≤ 16) (hcloses : Closes rest) :
    GivesReal negative rest (readNumber negative
      ⟨decimalChars d.digits ++ List.replicate d.exponent.toNat '0' ++ '.' :: (['0'] ++ rest),
        place⟩) := by
  have hwhole := isWhole_append_zeros h.pos d.exponent.toNat
  have hvalue : ofDigits (decimalChars d.digits ++ List.replicate d.exponent.toNat '0') =
      d.digits * 10 ^ d.exponent.toNat := by
    rw [ofDigits_eq, digitsOnto_append, digitsOnto_replicate, ← ofDigits_eq, ofDigits_decimalChars]
  have hsmall : d.digits * 10 ^ d.exponent.toNat < 10 ^ 16 := by
    calc d.digits * 10 ^ d.exponent.toNat
        < 10 ^ (decimalChars d.digits).length * 10 ^ d.exponent.toNat :=
          Nat.mul_lt_mul_of_pos_right (lt_tenPow_length _) (Nat.pow_pos (by decide))
      _ = 10 ^ ((decimalChars d.digits).length + d.exponent.toNat) := (pow_add _ _ _).symm
      _ ≤ 10 ^ 16 := Nat.pow_le_pow_right (by decide) (by omega)
  have hword :
      digitsOnto (ofDigits (decimalChars d.digits ++ List.replicate d.exponent.toNat '0')) ['0'] ≤
      largestWord := by
    have hten : digitsOnto (d.digits * 10 ^ d.exponent.toNat) ['0'] ≤ 10 ^ 17 := by
      have hzero := digitsOnto_replicate (d.digits * 10 ^ d.exponent.toNat) 1
      rw [List.replicate_one] at hzero
      rw [hzero]
      omega
    rw [hvalue]
    exact hten.trans (by decide)
  obtain ⟨after, hread⟩ :=
    exists_readNumber_fraction place negative hwhole (List.cons_ne_nil '0' [])
      isWhole_zero.digit hword hcloses
  rw [hread]
  exact givesReal_of_scales (scales_of_neg hword (by decide)) negative rest after

/-- A number with the point among its digits. -/
theorem givesReal_split (h : ScalesBack d) (hexponent : d.exponent < 0)
    (hpoint : 0 < (decimalChars d.digits).length + d.exponent) (hcloses : Closes rest) :
    GivesReal negative rest (readNumber negative
      ⟨(decimalChars d.digits).take ((decimalChars d.digits).length + d.exponent).toNat ++
        '.' :: ((decimalChars d.digits).drop ((decimalChars d.digits).length + d.exponent).toNat ++
          rest),
        place⟩) := by
  have hdigits := isDecimalDigit_of_mem_decimalChars d.digits
  obtain ⟨k, hk⟩ := Int.eq_ofNat_of_zero_le hpoint.le
  rw [hk, Int.toNat_natCast]
  have hwhole := isWhole_take h.pos (k := k) (by omega)
  have hjoin := digitsOnto_take_drop d.digits k
  have hne : (decimalChars d.digits).drop k ≠ [] := by
    rw [Ne, List.drop_eq_nil_iff]
    omega
  have hlength : -(((decimalChars d.digits).drop k).length : Int) = d.exponent := by
    rw [List.length_drop]
    omega
  obtain ⟨after, hread⟩ := exists_readNumber_fraction place negative hwhole hne
    (fun c hc => hdigits c (List.mem_of_mem_drop hc))
      (by rw [hjoin]; exact digits_le_largestWord h) hcloses
  rw [hread, hjoin, hlength]
  exact givesReal_of_scales h.scales negative rest after

/-- A number below one, with its zeros behind the point. -/
theorem givesReal_below (h : ScalesBack d)
    (hpoint : (decimalChars d.digits).length + d.exponent ≤ 0) (hcloses : Closes rest) :
    GivesReal negative rest (readNumber negative
      ⟨['0'] ++ '.' :: (List.replicate (-((decimalChars d.digits).length + d.exponent)).toNat '0' ++
        decimalChars d.digits ++ rest), place⟩) := by
  have hvalue := ofDigits_decimalChars d.digits
  obtain ⟨k, hk⟩ := Int.eq_ofNat_of_zero_le (neg_nonneg.mpr hpoint)
  rw [hk, Int.toNat_natCast]
  have hjoin : digitsOnto (ofDigits ['0']) (List.replicate k '0' ++ decimalChars d.digits) =
      d.digits := by
    have hzero : ofDigits ['0'] = 0 := rfl
    rw [digitsOnto_append, digitsOnto_replicate, hzero, zero_mul, ← ofDigits_eq, hvalue]
  have hdigits : ∀ c ∈ List.replicate k '0' ++ decimalChars d.digits, isDecimalDigit c = true := by
    intro c hc
    rcases List.mem_append.mp hc with hc | hc
    · exact isDecimalDigit_of_mem_zeros hc
    · exact isDecimalDigit_of_mem_decimalChars d.digits c hc
  have hne : List.replicate k '0' ++ decimalChars d.digits ≠ [] :=
    List.append_ne_nil_of_right_ne_nil _ (decimalChars_ne_nil _)
  have hlength : -((List.replicate k '0' ++ decimalChars d.digits).length : Int) = d.exponent := by
    rw [List.length_append, List.length_replicate]
    omega
  obtain ⟨after, hread⟩ := exists_readNumber_fraction place negative isWhole_zero hne hdigits
    (by rw [hjoin]; exact digits_le_largestWord h) hcloses
  rw [hread, hjoin, hlength]
  exact givesReal_of_scales h.scales negative rest after

/-- The digits of a number with an exponent: a point stands behind the first of several. -/
def mantissaChars (digits : List Char) : List Char :=
  if digits.length = 1 then digits else digits.take 1 ++ '.' :: digits.drop 1

/-- A number with an exponent. -/
theorem givesReal_exponent (h : ScalesBack d) (hcloses : Closes rest) :
    GivesReal negative rest (readNumber negative
      ⟨mantissaChars (decimalChars d.digits) ++
        'e' :: (exponentChars ((decimalChars d.digits).length + d.exponent - 1) ++ rest),
          place⟩) := by
  obtain ⟨hpos, hlength⟩ := length_digits h
  have habove := h.above
  have hbelow := h.below
  have hvalue := ofDigits_decimalChars d.digits
  have hdigits := isDecimalDigit_of_mem_decimalChars d.digits
  have hword := digits_le_largestWord h
  have hpower : ((decimalChars d.digits).length + d.exponent - 1).natAbs ≤ Nat.pow 2 31 - 1 := by
    have : (1000 : Nat) ≤ Nat.pow 2 31 - 1 := by decide
    omega
  -- one digit stands without a point, and more have the point behind the first
  rw [mantissaChars]
  split
  · rename_i hone
    have hexponent : ((decimalChars d.digits).length : Int) + d.exponent - 1 = d.exponent := by
      omega
    rw [hexponent] at hpower ⊢
    obtain ⟨after, hread⟩ :=
      exists_readNumber_exponent place negative (isWhole_decimalChars d.digits)
        (by rw [hvalue]; exact hword) hpower hcloses
    rw [hread, hvalue]
    exact givesReal_of_scales h.scales negative rest after
  · have hjoin := digitsOnto_take_drop d.digits 1
    have hne : (decimalChars d.digits).drop 1 ≠ [] := by
      rw [Ne, List.drop_eq_nil_iff]
      omega
    have hexponent : -(((decimalChars d.digits).drop 1).length : Int) +
        ((decimalChars d.digits).length + d.exponent - 1) = d.exponent := by
      rw [List.length_drop]
      omega
    obtain ⟨after, hread⟩ :=
      exists_readNumber_both place negative (isWhole_take h.pos Nat.one_pos) hne
        (fun c hc => hdigits c (List.mem_of_mem_drop hc))
        (by rw [hjoin]; exact hword) hpower hcloses
    rw [List.append_assoc, List.cons_append, hread, hjoin, hexponent]
    exact givesReal_of_scales h.scales negative rest after

/-- The printed form of a real number, whichever it is, is read back as a real number. -/
theorem givesReal_realChars (h : ScalesBack d) (hcloses : Closes rest) :
    GivesReal negative rest (readNumber negative ⟨realChars d ++ rest, place⟩) := by
  obtain ⟨hpos, -⟩ := length_digits h
  rw [realChars]
  dsimp only
  split
  · rename_i hform
    have hread := givesReal_integral place negative h hform.1 hform.2 hcloses
    simpa only [List.append_assoc, List.cons_append, List.nil_append] using hread
  · rename_i hintegral
    split
    · rename_i hform
      have hread := givesReal_split place negative h (by omega) hform.1 hcloses
      simpa only [List.append_assoc, List.cons_append, List.nil_append] using hread
    · split
      · rename_i hform
        have hread := givesReal_below place negative h hform.2 hcloses
        simpa only [List.append_assoc, List.cons_append, List.nil_append] using hread
      · have hread := givesReal_exponent place negative h hcloses
        simpa only [mantissaChars, exponentChars, List.append_assoc, List.cons_append] using hread

end Reals

/-! ## Numbers as values -/

/-- The numbers that a reader gives: integers of 64 bits and doubles. -/
def Number.IsRegular : Number → Prop
  | .integer i => -(Nat.pow 2 63 : Nat) ≤ i ∧ i ≤ largestWord
  | .real (.finite _ units) => IsDouble units
  | .real _ => False

/-- Two numbers that are the same unless both are real. -/
def Number.Alike : Number → Number → Prop
  | .integer i, .integer j => i = j
  | .real _, .real _ => True
  | _, _ => False

section Values

variable {fuel allowed : Nat}

theorem readValue_digit {c : Char} (hc : isDecimalDigit c = true) (rest : List Char)
    (place : Position) :
    readValue (fuel + 1) allowed ⟨c :: rest, place⟩ =
      (readNumber false ⟨c :: rest, place⟩).map fun r => (.number r.1, r.2) := by
  have hne : ∀ d, isDecimalDigit d = false → c ≠ d := by
    rintro d hd rfl
    rw [hc] at hd
    cases hd
  have hgap : Cursor.isGap c = false := by
    simp only [Cursor.isGap, Bool.or_eq_false_iff, beq_eq_false_iff_ne]
    exact ⟨⟨⟨hne _ rfl, hne _ rfl⟩, hne _ rfl⟩, hne _ rfl⟩
  rw [readValue, skipGap_cons hgap]
  simp only [hne 'n' rfl, hne 't' rfl, hne 'f' rfl, hne '-' rfl, if_false, hc, if_true]

theorem readValue_minus (rest : List Char) (place : Position) :
    readValue (fuel + 1) allowed ⟨'-' :: rest, place⟩ =
      (readNumber true ⟨rest, place.after '-'⟩).map fun r => (.number r.1, r.2) := by
  rw [readValue, skipGap_cons (c := '-') rfl]
  rfl

theorem exists_digit_of_readNumber {s : List Char} {r : Number × Cursor}
    (h : readNumber negative ⟨s, place⟩ = .ok r) :
    ∃ c more, s = c :: more ∧ isDecimalDigit c = true := by
  rw [readNumber] at h
  cases s with
  | nil => cases h
  | cons c more =>
      refine ⟨c, more, rfl, ?_⟩
      by_contra hc
      simp only [hc, if_false] at h
      cases h

/-- An unsigned literal is read as a value with and without a sign. -/
theorem exists_readValue_signed {body : List Char} {n : Number} (negative : Bool)
    (hread : ∀ place, ∃ m after, readNumber negative ⟨body ++ rest, place⟩ =
      .ok (m, ⟨rest, after⟩) ∧
      n.Alike m) (fuel allowed : Nat) (place : Position) :
    ∃ m after,
      readValue (fuel + 1) allowed ⟨(if negative then '-' :: body else body) ++ rest, place⟩ =
      .ok (.number m, ⟨rest, after⟩) ∧ n.Alike m := by
  cases negative with
  | true =>
      obtain ⟨m, after, hm, halike⟩ := hread (place.after '-')
      refine ⟨m, after, ?_, halike⟩
      rw [if_pos rfl, List.cons_append, readValue_minus, hm]
      rfl
  | false =>
      obtain ⟨m, after, hm, halike⟩ := hread place
      obtain ⟨c, more, hbody, hc⟩ := exists_digit_of_readNumber hm
      refine ⟨m, after, ?_, halike⟩
      rw [if_neg Bool.false_ne_true, hbody, readValue_digit hc, ← hbody, hm]
      rfl

/-- The digits of an integer are read as a whole. -/
theorem exists_readNumber_integer {n : Nat} (hn : n ≤ largestWord) (hcloses : Closes rest)
    (negative : Bool) (place : Position) :
    ∃ after, readNumber negative ⟨decimalChars n ++ rest, place⟩ =
      .ok (integerNumber negative n, ⟨rest, after⟩) := by
  have hvalue := ofDigits_decimalChars n
  obtain ⟨after, hread⟩ :=
    exists_readNumber_whole (isWhole_decimalChars n) (by rw [hvalue]; exact hn)
      hcloses.ends negative place
  refine ⟨after, ?_⟩
  rw [hread, hvalue]
  cases rest with
  | nil => rfl
  | cons c more =>
      obtain ⟨-, hpoint, hletter⟩ := hcloses.goes_on
      rw [afterWhole, if_neg hpoint, if_neg hletter]

/-- Zero is written with a digit behind the point. -/
theorem givesReal_zero (hcloses : Closes rest) (negative : Bool) (place : Position) :
    GivesReal negative rest (readNumber negative ⟨['0', '.', '0'] ++ rest, place⟩) := by
  obtain ⟨after, hread⟩ :=
    exists_readNumber_fraction place negative isWhole_zero (List.cons_ne_nil '0' [])
      isWhole_zero.digit (by decide) hcloses
  have hscales : Scales 0 (-1) := scales_of_neg (Nat.zero_le _) (by decide)
  exact hread ▸ givesReal_of_scales hscales negative rest after

/-- A printed number that a reader can have given is read back as one like it. -/
theorem exists_readValue_number {n : Number} (h : n.IsRegular) (hcloses : Closes rest)
    (fuel allowed : Nat) (place : Position) :
    ∃ m after, readValue (fuel + 1) allowed ⟨n.chars ++ rest, place⟩ =
      .ok (.number m, ⟨rest, after⟩) ∧
      n.Alike m := by
  cases n with
  | integer i =>
      obtain ⟨hlow, hhigh⟩ := h
      have hword : (Nat.pow 2 63 : Nat) ≤ largestWord := by decide
      -- a sign is read first and the digits behind it apart, so the reading of the digits is asked
      -- at whatever place they stand
      have hread : ∀ place, ∃ m after,
          readNumber (decide (i < 0)) ⟨decimalChars i.natAbs ++ rest, place⟩ =
          .ok (m, ⟨rest, after⟩) ∧ (Number.integer i).Alike m := by
        intro place
        obtain ⟨after, hread⟩ := exists_readNumber_integer (n := i.natAbs) (by omega) hcloses
          (decide (i < 0)) place
        refine ⟨_, after, hread, ?_⟩
        rw [integerNumber]
        split
        · rename_i hsign
          rw [decide_eq_false_iff_not, not_lt] at hsign
          exact (Int.natAbs_of_nonneg hsign).symm
        · rename_i hsign
          rw [decide_eq_false_iff_not, not_not] at hsign
          rw [if_neg (by omega)]
          show i = -(i.natAbs : Int)
          omega
      obtain ⟨m, after, hm, halike⟩ :=
        exists_readValue_signed (decide (i < 0)) hread fuel allowed place
      refine ⟨m, after, ?_, halike⟩
      rw [← hm, Number.chars]
      simp only [decide_eq_true_eq]
  | real x =>
      cases x with
      | nan => exact h.elim
      | infinity negative => exact h.elim
      | finite negative units =>
          have hbody : ∀ place, GivesReal negative rest (readNumber negative
              ⟨(if units = 0 then ['0', '.', '0'] else realChars (shortest units)) ++ rest,
                place⟩) := by
            intro place
            split
            · exact givesReal_zero hcloses negative place
            · rename_i hne
              exact givesReal_realChars place negative
                (scalesBack_shortest (Nat.pos_of_ne_zero hne) h) hcloses
          have hread : ∀ place, ∃ m after, readNumber negative
              ⟨(if units = 0 then ['0', '.', '0'] else realChars (shortest units)) ++ rest, place⟩ =
                .ok (m, ⟨rest, after⟩) ∧ (Number.real (.finite negative units)).Alike m := by
            intro place
            obtain ⟨scaled, after, hread⟩ := hbody place
            exact ⟨_, after, hread, trivial⟩
          exact exists_readValue_signed negative hread fuel allowed place

end Values

end Haulage.Json
