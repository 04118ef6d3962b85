import Haulage.Glob

/-!
# What a pattern matches

A pattern matches a text that falls into pieces, one for each of its tokens: a single character, any
sequence, or any number of whole components.

- `mem_ends_iff`, `mem_componentEnds_iff`: the ends of a text that the matcher tries.
- `Matches`: the pieces of a text that a pattern matches.
- `matchesChars_iff`: the matcher finds such pieces whenever there are some.
-/

set_option autoImplicit false

namespace Haulage.Glob

variable {s t : List Char}

/-! ## Ends of a text -/

theorem mem_ends_iff : t ∈ ends s ↔ t <:+ s := by
  induction s with
  | nil => rw [ends, List.mem_singleton, List.suffix_nil]
  | cons c s ih => rw [ends, List.mem_cons, ih, List.suffix_cons_iff]

/-- An end of whole components follows a slash, unless nothing is left. -/
theorem mem_componentEnds_iff : t ∈ componentEnds s ↔ t = [] ∨ ∃ front, s = front ++ '/' :: t := by
  induction s with
  | nil => simp [componentEnds]
  | cons c s ih =>
      have hrest : (∃ front, c :: s = front ++ '/' :: t) ↔
          c = '/' ∧ s = t ∨ ∃ front, s = front ++ '/' :: t := by
        constructor
        · rintro ⟨front, hfront⟩
          cases front with
          | nil => exact .inl (List.cons.inj hfront)
          | cons first front => exact .inr ⟨front, (List.cons.inj hfront).2⟩
        · rintro (⟨rfl, rfl⟩ | ⟨front, rfl⟩)
          · exact ⟨[], rfl⟩
          · exact ⟨c :: front, rfl⟩
      rw [componentEnds, hrest]
      split
      · rename_i hslash
        rw [List.mem_cons, ih]
        constructor
        · rintro (rfl | hnil | hlater)
          · exact .inr (.inl ⟨hslash, rfl⟩)
          · exact .inl hnil
          · exact .inr (.inr hlater)
        · rintro (hnil | ⟨-, rfl⟩ | hlater)
          · exact .inr (.inl hnil)
          · exact .inl rfl
          · exact .inr (.inr hlater)
      · rename_i hother
        rw [ih]
        simp only [hother, false_and, false_or]

/-! ## Pieces of a text -/

/-- A text falls into pieces for which the tokens of a pattern stand. -/
inductive Matches : List Token → List Char → Prop
  | nil : Matches [] []
  | char {token : Token} {c : Char} {more : List Token} {rest : List Char}
      (haccepts : token.accepts c = true)
      (hrest : Matches more rest) : Matches (token :: more) (c :: rest)
  | sequence {more : List Token} (skipped : List Char) {rest : List Char}
      (hrest : Matches more rest) :
      Matches (.anySequence :: more) (skipped ++ rest)
  /-- Components end in a slash, unless nothing follows them. -/
  | components {more : List Token} (skipped : List Char) {rest : List Char}
      (hskipped : skipped = [] ∨ skipped.getLast? = some '/' ∨ rest = [])
      (hrest : Matches more rest) :
      Matches (.anyComponents :: more) (skipped ++ rest)

theorem matches_nil_iff : Matches [] s ↔ s = [] := by
  constructor
  · intro h
    cases h
    rfl
  · rintro rfl
    exact .nil

theorem matches_anySequence_iff {more : List Token} :
    Matches (.anySequence :: more) s ↔ ∃ rest, rest <:+ s ∧ Matches more rest := by
  constructor
  · intro h
    cases h with
    | char haccepts hrest => cases haccepts
    | sequence skipped hrest => exact ⟨_, List.suffix_append skipped _, hrest⟩
  · rintro ⟨rest, ⟨skipped, rfl⟩, hrest⟩
    exact .sequence skipped hrest

theorem matches_anyComponents_iff {more : List Token} :
    Matches (.anyComponents :: more) s ↔
      ∃ rest, (rest = s ∨ rest ∈ componentEnds s) ∧ Matches more rest := by
  constructor
  · intro h
    cases h with
    | char haccepts hrest => cases haccepts
    | @components _ skipped rest hskipped hrest =>
        refine ⟨rest, ?_, hrest⟩
        rcases hskipped with rfl | hslash | hnil
        · exact .inl rfl
        · obtain ⟨front, rfl⟩ := List.getLast?_eq_some_iff.mp hslash
          exact .inr (mem_componentEnds_iff.mpr (.inr ⟨front, by rw [List.append_assoc]; rfl⟩))
        · exact .inr (mem_componentEnds_iff.mpr (.inl hnil))
  · rintro ⟨rest, hfrom, hrest⟩
    rcases hfrom with rfl | hend
    · exact .components [] (.inl rfl) hrest
    · rcases mem_componentEnds_iff.mp hend with rfl | ⟨front, rfl⟩
      · have hall : Matches (.anyComponents :: more) (s ++ []) :=
          .components s (.inr (.inr rfl)) hrest
        rwa [List.append_nil] at hall
      · rw [List.append_cons]
        exact .components (front ++ ['/']) (.inr (.inl List.getLast?_concat)) hrest

/-- A token for one character takes the first one. -/
theorem matches_cons_iff {token : Token} {more : List Token} (hsequence : token ≠ .anySequence)
    (hcomponents : token ≠ .anyComponents) :
    Matches (token :: more) s ↔
      ∃ c rest, s = c :: rest ∧ token.accepts c = true ∧ Matches more rest := by
  constructor
  · intro h
    cases h with
    | char haccepts hrest => exact ⟨_, _, rfl, haccepts, hrest⟩
    | sequence => exact absurd rfl hsequence
    | components => exact absurd rfl hcomponents
  · rintro ⟨c, rest, rfl, haccepts, hrest⟩
    exact .char haccepts hrest

/-- The matcher finds pieces for the tokens whenever there are some. -/
theorem matchesChars_iff {tokens : List Token} :
    matchesChars tokens s = true ↔ Matches tokens s := by
  induction tokens generalizing s with
  | nil => rw [matchesChars, List.isEmpty_iff, matches_nil_iff]
  | cons token more ih =>
      -- two tokens take any of several fronts, all others a single character
      by_cases hsequence : token = .anySequence
      · subst hsequence
        simp only [matchesChars, List.any_eq_true, mem_ends_iff, ih, matches_anySequence_iff]
      · by_cases hcomponents : token = .anyComponents
        · subst hcomponents
          simp only [matchesChars, List.any_eq_true, List.mem_cons, ih, matches_anyComponents_iff]
        · rw [matches_cons_iff hsequence hcomponents]
          cases s with
          | nil => simp [matchesChars]
          | cons c rest =>
              simp only [matchesChars, Bool.and_eq_true, ih]
              constructor
              · intro h
                exact ⟨c, rest, rfl, h⟩
              · rintro ⟨d, rest', heq, h⟩
                obtain ⟨rfl, rfl⟩ := List.cons.inj heq
                exact h

end Haulage.Glob
