import Haulage.Numeric.Decimal
import Haulage.Text.Basic

/-!
# Words and blanks at the ends of texts

Looking for a word at the front of a text, or anywhere in it, and cutting a text at the first place
where a word or a separator stands. A text that is trimmed has no blank at either end, and trimming
it again changes nothing; nor does folding its letters make or remove a blank.

- `dropLead?_eq_some_iff`, `occursIn_iff`: what is found is a prefix or an infix.
- `splitAtWord?_append`, `eq_of_splitAtWord?`: the two parts around a word.
- `splitFirst?_eq_some_iff`: the two parts around the first separator.
- `isTrimmed_iff`: trimmed texts are those that trimming leaves alone.
- `toLower_cases`: what folding does to a character.
-/

set_option autoImplicit false

namespace Haulage.Text

variable {lead word s rest before after : List Char}

/-! ## Words -/

theorem dropLead?_eq_some_iff : dropLead? lead s = some rest ↔ s = lead ++ rest := by
  induction lead generalizing s with
  | nil => rw [dropLead?, Option.some.injEq, List.nil_append]
  | cons l lead ih =>
      cases s with
      | nil => simp [dropLead?]
      | cons c s =>
          rw [dropLead?, List.cons_append, List.cons.injEq]
          by_cases h : l = c
          · rw [if_pos h, ih]
            exact ⟨fun hs => ⟨h.symm, hs⟩, fun hs => hs.2⟩
          · rw [if_neg h]
            exact ⟨fun hs => absurd hs (Option.some_ne_none rest).symm,
              fun hs => absurd hs.1.symm h⟩

theorem dropLead?_append (lead rest : List Char) : dropLead? lead (lead ++ rest) = some rest :=
  dropLead?_eq_some_iff.mpr rfl

theorem isSome_dropLead?_iff : (dropLead? lead s).isSome = true ↔ lead <+: s := by
  rw [Option.isSome_iff_exists]
  constructor
  · rintro ⟨rest, h⟩
    exact ⟨rest, (dropLead?_eq_some_iff.mp h).symm⟩
  · rintro ⟨rest, h⟩
    exact ⟨rest, dropLead?_eq_some_iff.mpr h.symm⟩

theorem occursIn_iff : occursIn word s = true ↔ word <:+: s := by
  induction s with
  | nil => rw [occursIn, List.isEmpty_iff, List.infix_nil]
  | cons c s ih => rw [occursIn, Bool.or_eq_true, isSome_dropLead?_iff, ih, List.infix_cons_iff]

/-- Cutting a text at a word takes nothing else from it. -/
theorem eq_of_splitAtWord? (h : splitAtWord? word s = some (before, after)) :
    s = before ++ word ++ after := by
  induction s generalizing before with
  | nil =>
      rw [splitAtWord?, Option.map_eq_some_iff] at h
      obtain ⟨rest, hrest, heq⟩ := h
      obtain ⟨rfl, rfl⟩ := Prod.mk.inj heq
      exact dropLead?_eq_some_iff.mp hrest
  | cons c s ih =>
      rw [splitAtWord?] at h
      split at h
      · rename_i rest hrest
        obtain ⟨rfl, rfl⟩ := Prod.mk.inj (Option.some.inj h)
        exact dropLead?_eq_some_iff.mp hrest
      · obtain ⟨⟨before', after'⟩, hparts, heq⟩ := Option.map_eq_some_iff.mp h
        obtain ⟨rfl, rfl⟩ := Prod.mk.inj heq
        rw [ih hparts]
        rfl

/-- A text is cut where the first character of the word comes up for the first time, if the
word stands there. -/
theorem splitAtWord?_append {first : Char} (h : first ∉ before) (word after : List Char) :
    splitAtWord? (first :: word) (before ++ (first :: word) ++ after) = some (before, after) := by
  induction before with
  | nil =>
      rw [List.nil_append, List.cons_append, splitAtWord?, ← List.cons_append, dropLead?_append]
  | cons c before ih =>
      rw [List.mem_cons, not_or] at h
      have hno : dropLead? (first :: word) (c :: (before ++ (first :: word) ++ after)) = none := by
        rw [dropLead?, if_neg h.1]
      rw [List.cons_append, List.cons_append, splitAtWord?, hno, ih h.2]
      rfl

/-- A text that lacks a character of the word is not cut. -/
theorem splitAtWord?_of_not_mem {c : Char} (hword : c ∈ word) (hs : c ∉ s) :
    splitAtWord? word s = none := by
  cases hsplit : splitAtWord? word s with
  | none => rfl
  | some parts =>
      obtain ⟨before, after⟩ := parts
      rw [eq_of_splitAtWord? hsplit] at hs
      exact absurd (List.mem_append_left _ (List.mem_append_right _ hword)) hs

/-! ## Separators -/

/-- A text is split at its first separator, if it has one. -/
theorem splitFirst?_eq_some_iff {sep : Char} {s left right : String} :
    splitFirst? sep s = some (left, right) ↔
      s.toList = left.toList ++ sep :: right.toList ∧ sep ∉ left.toList := by
  have hother : ∀ {t : List Char}, sep ∉ t → ∀ c ∈ t, (c != sep) = true := by
    intro t ht c hc
    rw [bne_iff_ne]
    rintro rfl
    exact ht hc
  rw [splitFirst?]
  constructor
  · intro h
    split at h
    · cases h
    · rename_i c after hrest
      obtain ⟨rfl, rfl⟩ := Prod.mk.inj (Option.some.inj h)
      have hstop := List.head?_dropWhile_not (fun c => c != sep) s.toList
      rw [hrest] at hstop
      obtain rfl : c = sep := by simpa using hstop
      rw [String.toList_ofList, String.toList_ofList, ← hrest, List.takeWhile_append_dropWhile]
      refine ⟨rfl, fun hmem => ?_⟩
      have hne := List.all_eq_true.mp List.all_takeWhile c hmem
      exact absurd rfl (bne_iff_ne.mp hne)
  · rintro ⟨hs, hleft⟩
    rw [hs, List.dropWhile_append_of_pos (hother hleft),
      List.takeWhile_append_of_pos (hother hleft)]
    simp

theorem splitFirst?_eq_none_iff {sep : Char} {s : String} :
    splitFirst? sep s = none ↔ sep ∉ s.toList := by
  constructor
  · intro h hmem
    obtain ⟨left, right, hs, hleft⟩ := List.eq_append_cons_of_mem hmem
    have hsome : splitFirst? sep s = some (String.ofList left, String.ofList right) := by
      rw [splitFirst?_eq_some_iff, String.toList_ofList, String.toList_ofList]
      exact ⟨hs, hleft⟩
    rw [h] at hsome
    cases hsome
  · intro h
    rw [Option.eq_none_iff_forall_ne_some]
    rintro ⟨left, right⟩ hsome
    rw [splitFirst?_eq_some_iff] at hsome
    exact h (hsome.1 ▸ List.mem_append_right _ List.mem_cons_self)

/-! ## Blanks -/

theorem isBlank_of_printable {c : Char} (hlo : 0x20 < c.toNat) (hhi : c.toNat < 0x7F) :
    isBlank c = false := by
  simp only [isBlank, Bool.or_eq_false_iff, Bool.and_eq_false_iff, decide_eq_false_iff_not,
    beq_eq_false_iff_ne]
  omega

theorem isBlank_of_isDecimalDigit {c : Char} (h : Numeric.isDecimalDigit c = true) :
    isBlank c = false := by
  rw [Numeric.isDecimalDigit, Bool.and_eq_true, decide_eq_true_eq, decide_eq_true_eq] at h
  have hlo : 0x30 ≤ c.toNat := h.1
  have hhi : c.toNat ≤ 0x39 := h.2
  apply isBlank_of_printable <;> omega

theorem isBlank_of_isHexDigit {c : Char} (h : isHexDigit c = true) : isBlank c = false := by
  have hrange : (0x30 ≤ c.toNat ∧ c.toNat ≤ 0x39) ∨ (0x61 ≤ c.toNat ∧ c.toNat ≤ 0x66) ∨
      (0x41 ≤ c.toNat ∧ c.toNat ≤ 0x46) := by
    rw [isHexDigit, hexValue?] at h
    split at h
    · exact .inl (by assumption)
    · split at h
      · exact .inr (.inl (by assumption))
      · split at h
        · exact .inr (.inr (by assumption))
        · cases h
  apply isBlank_of_printable <;> omega

/-- A text without blanks at its ends. -/
structure IsTrimmed (s : List Char) : Prop where
  start : ∀ c ∈ s.head?, isBlank c = false
  stop : ∀ c ∈ s.getLast?, isBlank c = false

theorem isTrimmed_nil : IsTrimmed [] :=
  ⟨fun _ h => absurd h (by simp), fun _ h => absurd h (by simp)⟩

theorem isTrimmed_append {s t : List Char} (hs : IsTrimmed s) (ht : IsTrimmed t) :
    IsTrimmed (s ++ t) := by
  constructor
  · intro c hc
    rw [List.head?_append, Option.mem_def, Option.or_eq_some_iff] at hc
    rcases hc with hc | ⟨-, hc⟩
    · exact hs.start c hc
    · exact ht.start c hc
  · intro c hc
    rw [List.getLast?_append, Option.mem_def, Option.or_eq_some_iff] at hc
    rcases hc with hc | ⟨-, hc⟩
    · exact ht.stop c hc
    · exact hs.stop c hc

/-- What stands between two trimmed texts may hold any blanks. -/
theorem isTrimmed_between {front back : List Char} (hfront : IsTrimmed front) (hne : front ≠ [])
    (hback : IsTrimmed back) (hne' : back ≠ []) (s : List Char) :
    IsTrimmed (front ++ s ++ back) := by
  constructor
  · intro c hc
    obtain ⟨first, rest, rfl⟩ := List.exists_cons_of_ne_nil hne
    exact hfront.start c hc
  · intro c hc
    rw [List.getLast?_append, List.getLast?_eq_some_getLast hne', Option.some_or] at hc
    exact hback.stop c (List.getLast?_eq_some_getLast hne' ▸ hc)

theorem isTrimmed_of_forall (h : ∀ c ∈ s, isBlank c = false) : IsTrimmed s :=
  ⟨fun c hc => h c (List.mem_of_mem_head? hc), fun c hc => h c (List.mem_of_mem_getLast? hc)⟩

theorem trimStartChars_append {blanks : List Char} (h : ∀ c ∈ blanks, isBlank c = true)
    (s : List Char) : trimStartChars (blanks ++ s) = trimStartChars s :=
  List.dropWhile_append_of_pos h

theorem trimChars_append {blanks : List Char} (h : ∀ c ∈ blanks, isBlank c = true) (s : List Char) :
    trimChars (blanks ++ s) = trimChars s := by
  rw [trimChars, trimStartChars_append h, trimChars]

theorem trimStartChars_of_head (h : ∀ c ∈ s.head?, isBlank c = false) : trimStartChars s = s := by
  cases s with
  | nil => rfl
  | cons c s =>
      rw [trimStartChars, List.dropWhile_cons, h c rfl]
      rfl

theorem trimEndChars_of_getLast (h : ∀ c ∈ s.getLast?, isBlank c = false) : trimEndChars s = s := by
  rw [← List.head?_reverse] at h
  rw [trimEndChars, ← trimStartChars, trimStartChars_of_head h, List.reverse_reverse]

theorem trimEndChars_cons {c : Char} (hc : isBlank c = false) (s : List Char) :
    trimEndChars (c :: s) = c :: trimEndChars s := by
  rw [trimEndChars, trimEndChars, List.reverse_cons, List.dropWhile_append]
  split
  · -- all that follows is blank, and the first character stops the trimming
    rename_i hblank
    rw [List.isEmpty_iff.mp hblank, List.dropWhile_cons, hc]
    rfl
  · rw [List.reverse_append]
    rfl

/-- A text that starts with no blank still starts so when it is trimmed. -/
theorem trimChars_cons {c : Char} (hc : isBlank c = false) (s : List Char) :
    trimChars (c :: s) = c :: trimEndChars s := by
  have hstart : trimStartChars (c :: s) = c :: s := by
    apply trimStartChars_of_head
    intro first hfirst
    obtain rfl := Option.some.inj hfirst
    exact hc
  rw [trimChars, hstart, trimEndChars_cons hc]

/-- Trimming leaves a trimmed text alone. -/
theorem trimChars_of_isTrimmed (h : IsTrimmed s) : trimChars s = s := by
  rw [trimChars, trimStartChars_of_head h.start, trimEndChars_of_getLast h.stop]

/-- The end of a text holds the blanks that trimming it there removes. -/
theorem exists_eq_trimEndChars_append (s : List Char) :
    ∃ blanks, (∀ c ∈ blanks, isBlank c = true) ∧ s = trimEndChars s ++ blanks := by
  refine ⟨(s.reverse.takeWhile isBlank).reverse, ?_, ?_⟩
  · intro c hc
    exact List.all_eq_true.mp List.all_takeWhile c (List.mem_reverse.mp hc)
  · rw [trimEndChars, ← List.reverse_append, List.takeWhile_append_dropWhile, List.reverse_reverse]

/-- What trimming leaves is trimmed. -/
theorem isTrimmed_trimChars (s : List Char) : IsTrimmed (trimChars s) := by
  have hhead : ∀ t : List Char, ∀ c ∈ (t.dropWhile isBlank).head?, isBlank c = false := by
    intro t c hc
    have hfirst := List.head?_dropWhile_not isBlank t
    rw [Option.mem_def.mp hc] at hfirst
    exact hfirst
  constructor
  · intro c hc
    -- what stands first before the end is trimmed stands first afterwards
    obtain ⟨blanks, -, hsplit⟩ := exists_eq_trimEndChars_append (trimStartChars s)
    apply hhead s c
    rw [← trimStartChars, hsplit, Option.mem_def, List.head?_append, ← trimChars,
      Option.mem_def.mp hc]
    rfl
  · intro c hc
    rw [trimChars, trimEndChars, List.getLast?_reverse] at hc
    exact hhead _ c hc

/-- Nothing is left of a text when it holds blanks only. -/
theorem trimChars_eq_nil_iff : trimChars s = [] ↔ ∀ c ∈ s, isBlank c = true := by
  constructor
  · intro h c hc
    obtain ⟨blanks, hblanks, hsplit⟩ := exists_eq_trimEndChars_append (trimStartChars s)
    rw [← trimChars, h, List.nil_append, trimStartChars] at hsplit
    rw [← List.takeWhile_append_dropWhile (p := isBlank) (l := s), hsplit, List.mem_append] at hc
    rcases hc with hc | hc
    · exact List.all_eq_true.mp List.all_takeWhile c hc
    · exact hblanks c hc
  · intro h
    have hnil := trimChars_append h []
    rwa [List.append_nil] at hnil

theorem not_mem_trim {c : Char} {s : String} (h : c ∉ s.toList) : c ∉ (trim s).toList := by
  rw [toList_trim, trimChars, trimEndChars, trimStartChars]
  intro hc
  have hend := (List.dropWhile_sublist _).subset (List.mem_reverse.mp hc)
  exact h ((List.dropWhile_sublist _).subset (List.mem_reverse.mp hend))

theorem isTrimmed_iff : IsTrimmed s ↔ trimChars s = s := by
  constructor
  · exact trimChars_of_isTrimmed
  · intro h
    rw [← h]
    exact isTrimmed_trimChars s

instance : DecidablePred IsTrimmed := fun _ =>
  decidable_of_iff _ isTrimmed_iff.symm

/-! ## Letters -/

theorem isUpper_iff (c : Char) : c.isUpper = true ↔ 65 ≤ c.toNat ∧ c.toNat ≤ 90 :=
  ⟨fun h => of_decide_eq_true h, fun h => decide_eq_true h⟩

/-- A character that folding changes is a capital letter, and goes 32 places on. -/
theorem toLower_cases (c : Char) :
    (c.isUpper = false ∧ c.toLower = c) ∨
      (65 ≤ c.toNat ∧ c.toNat ≤ 90 ∧ c.toLower.toNat = c.toNat + 32) := by
  by_cases h : c.val ≥ 'A'.val ∧ c.val ≤ 'Z'.val
  · have hlo : 65 ≤ c.toNat := h.1
    have hhi : c.toNat ≤ 90 := h.2
    refine .inr ⟨hlo, hhi, ?_⟩
    have hdistance : ('a'.val - 'A'.val).toNat = 32 := by decide
    have hlower : c.toLower.val = c.val + ('a'.val - 'A'.val) := congrArg Char.val (dif_pos h)
    calc c.toLower.val.toNat
        = (c.toNat + 32) % 2 ^ 32 := by rw [hlower, UInt32.toNat_add, hdistance]; rfl
      _ = c.toNat + 32 := Nat.mod_eq_of_lt (by omega)
  · exact .inl ⟨decide_eq_false h, dif_neg h⟩

theorem isUpper_toLower (c : Char) : c.toLower.isUpper = false := by
  rcases toLower_cases c with ⟨hupper, heq⟩ | ⟨hlo, -, heq⟩
  · rw [heq, hupper]
  · rw [Bool.eq_false_iff, ne_eq, isUpper_iff]
    omega

theorem toLower_of_isUpper_eq_false {c : Char} (h : c.isUpper = false) : c.toLower = c := by
  rcases toLower_cases c with ⟨-, heq⟩ | ⟨hlo, hhi, -⟩
  · exact heq
  · rw [(isUpper_iff c).mpr ⟨hlo, hhi⟩] at h
    cases h

/-- Folding changes no blank, and makes none. -/
theorem isBlank_toLower (c : Char) : isBlank c.toLower = isBlank c := by
  rcases toLower_cases c with ⟨-, heq⟩ | ⟨hlo, hhi, heq⟩
  · rw [heq]
  · rw [isBlank_of_printable (by omega) (by omega), isBlank_of_printable (by omega) (by omega)]

theorem IsTrimmed.map_toLower (h : IsTrimmed s) : IsTrimmed (s.map Char.toLower) := by
  constructor
  · intro c hc
    rw [List.head?_map, Option.mem_def, Option.map_eq_some_iff] at hc
    obtain ⟨b, hb, rfl⟩ := hc
    rw [isBlank_toLower, h.start b hb]
  · intro c hc
    rw [List.getLast?_map, Option.mem_def, Option.map_eq_some_iff] at hc
    obtain ⟨b, hb, rfl⟩ := hc
    rw [isBlank_toLower, h.stop b hb]

end Haulage.Text
