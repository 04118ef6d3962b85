import Haulage.Proofs.Copy.Columns

/-!
# What a selection selects

A selection is accepted when each of its picks names a column of the header. The picks of a
selection name the columns to keep, in their order, unless each of them has a leading dash: then
they name the columns to drop. What the selection makes of the header and of the rows has the same
columns in the same places, also where a row is shorter or longer than the header.

- `make_eq_error_iff`: the pick that a rejected selection fails for.
- `mem_keep_iff_of_make`: the columns that an accepted selection of dashed picks keeps.
- `carries_iff`: the column that a place of the output comes from.
- `make_selects`: which selections are accepted, and what they make of a header and of its rows.
-/

set_option autoImplicit false

namespace Haulage

open Haulage.Text

variable {header : String}

/-! ## Names that no column has -/

/-- A name that no column has. -/
def Lacks (header name : String) : Prop :=
  ∀ field ∈ trimmedFields header, sameIgnoringCase field name = false

theorem findColumn?_eq_none_iff {name : String} :
    findColumn? header name = none ↔ Lacks header name :=
  List.findIdx?_eq_none_iff

/-- A name means a column unless no column has it. -/
theorem exists_isColumn_iff {name : String} :
    (∃ column, IsColumn header name column) ↔ ¬Lacks header name := by
  simp only [← findColumn?_eq_some_iff, ← findColumn?_eq_none_iff, ← Option.ne_none_iff_exists',
    ne_eq]

/-- A name means at most one column. -/
theorem IsColumn.unique {name : String} {i j : Nat} (hi : IsColumn header name i)
    (hj : IsColumn header name j) : i = j :=
  hi.eq_of_named hj hi.named

/-! ## Columns that a list of picks names -/

section Named

variable {nameOf : String → String} {picks : List String} {named : List Nat}

/-- The columns named are those that some pick means. -/
theorem mem_named_iff
    (h : List.Forall₂ (fun pick column => IsColumn header (nameOf pick) column) picks named)
    {column : Nat} : column ∈ named ↔ ∃ pick ∈ picks, IsColumn header (nameOf pick) column := by
  induction h with
  | nil => simp
  | @cons pick first picks named hpick _ ih =>
      have hfirst : column = first ↔ IsColumn header (nameOf pick) column := by
        constructor
        · rintro rfl
          exact hpick
        · intro hcolumn
          exact hcolumn.unique hpick
      rw [List.mem_cons, ih, hfirst]
      simp only [List.mem_cons, exists_eq_or_imp]

/-- Each pick means a column. -/
theorem not_lacks_of_named
    (h : List.Forall₂ (fun pick column => IsColumn header (nameOf pick) column) picks named) :
    ∀ pick ∈ picks, ¬Lacks header (nameOf pick) := by
  induction h with
  | nil => exact fun _ hpick => absurd hpick List.not_mem_nil
  | cons hpick _ ih => exact List.forall_mem_cons.mpr ⟨exists_isColumn_iff.mp ⟨_, hpick⟩, ih⟩

end Named

namespace ColumnSelector

variable {s : ColumnSelector} {selection : String}

/-! ## Accepted and rejected selections -/

theorem pickIndex_eq_error_iff {name : String} {f : Failure} :
    pickIndex header name = .error f ↔ Lacks header name ∧ f = .of (.noSourceColumn name) := by
  rw [pickIndex, ← findColumn?_eq_none_iff]
  cases findColumn? header name with
  | none => simp [failWith, eq_comm]
  | some column => simp

/-- A selection is rejected for the first pick that names no column. -/
theorem make_eq_error_iff {f : Failure} : make selection header = .error f ↔
    ∃ front pick rest, picks selection = front ++ pick :: rest ∧
      (∀ earlier ∈ front, ¬Lacks header (pickedName selection earlier)) ∧
      Lacks header (pickedName selection pick) ∧
      f = .of (.noSourceColumn (pickedName selection pick)) := by
  have hall : make selection header = .error f ↔
      Attempt.all (fun pick => pickIndex header (pickedName selection pick)) (picks selection) =
        .error f := by
    rw [make_eq]
    cases Attempt.all (fun pick => pickIndex header (pickedName selection pick))
        (picks selection) <;>
      simp [Except.map]
  simp only [hall, Attempt.all_eq_error_iff, pickIndex_eq_ok_iff, pickIndex_eq_error_iff,
    exists_isColumn_iff]

/-- A selection is rejected exactly when some pick names no column. -/
theorem exists_make_eq_error_iff : (∃ f, make selection header = .error f) ↔
    ∃ pick ∈ picks selection, Lacks header (pickedName selection pick) := by
  constructor
  · rintro ⟨f, hf⟩
    obtain ⟨front, pick, rest, hsplit, -, hlacks, -⟩ := make_eq_error_iff.mp hf
    exact ⟨pick, by simp [hsplit], hlacks⟩
  · rintro ⟨pick, hpick, hlacks⟩
    cases hmake : make selection header with
    | error f => exact ⟨f, rfl⟩
    | ok s =>
        obtain ⟨named, hnamed, -⟩ := make_eq_ok_iff.mp hmake
        exact absurd hlacks (not_lacks_of_named hnamed pick hpick)

theorem lt_of_mem_keep (hmake : make selection header = .ok s) {column : Nat}
    (hcolumn : column ∈ s.keep) : column < (fields header).length := by
  obtain ⟨named, hnamed, hkeep⟩ := make_eq_ok_iff.mp hmake
  rw [hkeep, keptOf] at hcolumn
  split at hcolumn
  · exact (mem_without_iff.mp hcolumn).1
  · obtain ⟨pick, -, hpick⟩ := (mem_named_iff hnamed).mp hcolumn
    exact length_trimmedFields header ▸ hpick.present

/-! ## The column that a place comes from -/

/-- A place of the output that holds the field of a column, whatever the line. -/
def Carries (s : ColumnSelector) (place column : Nat) : Prop :=
  ∀ line, (fields (s.apply line))[place]? = some (fieldAt (fields line) column)

/-- Without columns every line is empty. -/
theorem apply_of_keep_eq_nil (h : s.keep = []) (line : String) : s.apply line = "" := by
  rw [apply_eq_join, h]
  rfl

/-- A line that is blank but for one column. -/
def markedLine (column : Nat) : String :=
  join ',' (List.replicate column "" ++ ["x"])

theorem fields_markedLine (column : Nat) :
    fields (markedLine column) = List.replicate column "" ++ ["x"] := by
  rw [fields, markedLine, split_join (by simp)]
  intro field hfield
  rcases List.mem_append.mp hfield with hblank | hmark
  · rw [List.eq_of_mem_replicate hblank]
    exact List.not_mem_nil
  · rw [List.mem_singleton.mp hmark]
    decide

/-- The mark is in its column only. -/
theorem fieldAt_markedLine_eq_iff {column other : Nat} :
    fieldAt (fields (markedLine column)) other = "x" ↔ other = column := by
  rw [fields_markedLine, fieldAt, List.getD_eq_getElem?_getD]
  rcases Nat.lt_trichotomy other column with hlt | rfl | hgt
  · simp [List.getElem?_append_left, hlt, Nat.ne_of_lt hlt]
  · simp
  · rw [List.getElem?_eq_none (by simpa using Nat.succ_le_of_lt hgt)]
    simp [Nat.ne_of_gt hgt]

/-- The column that a place comes from is the one that is kept for it. -/
theorem carries_iff {place column : Nat} :
    s.Carries place column ↔ s.keep[place]? = some column := by
  constructor
  · intro hcarries
    have hmark := hcarries (markedLine column)
    rw [fieldAt_markedLine_eq_iff.mpr rfl] at hmark
    by_cases hnil : s.keep = []
    · -- the mark does not come through when no column is kept
      rw [apply_of_keep_eq_nil hnil, show fields "" = [""] from rfl] at hmark
      cases place <;> simp at hmark
    · rw [fields_apply hnil, List.getElem?_map] at hmark
      obtain ⟨kept, hkept, hmark⟩ := Option.map_eq_some_iff.mp hmark
      rw [hkept, fieldAt_markedLine_eq_iff.mp hmark]
  · intro hkept line
    have hne : s.keep ≠ [] := List.ne_nil_of_mem (List.mem_of_getElem? hkept)
    rw [fields_apply hne, List.getElem?_map, hkept]
    rfl

/-- A column comes to some place when it is kept. -/
theorem exists_carries_iff {column : Nat} :
    (∃ place, s.Carries place column) ↔ column ∈ s.keep := by
  simp only [carries_iff, List.mem_iff_getElem?]

/-! ## Accepted selections and their lines -/

theorem length_fields_apply (line : String) :
    (fields (s.apply line)).length = max 1 s.keep.length := by
  by_cases hnil : s.keep = []
  · rw [apply_of_keep_eq_nil hnil, hnil]
    rfl
  · have hpos := List.length_pos_of_ne_nil hnil
    rw [fields_apply hnil, List.length_map, Nat.max_eq_right hpos]

theorem fieldAt_of_length_le {fields : List String} {i : Nat} (h : fields.length ≤ i) :
    fieldAt fields i = "" := by
  rw [fieldAt, List.getD_eq_getElem?_getD, List.getElem?_eq_none h, Option.getD_none]

/-- When every pick has a dash, the columns are those that no pick names. -/
theorem mem_keep_iff_of_make (hmake : make selection header = .ok s)
    (hdashes : ∀ pick ∈ picks selection, isExclusion pick = true) {column : Nat} :
    column ∈ s.keep ↔ column < (fields header).length ∧
      ∀ pick ∈ picks selection, ¬IsColumn header (excludedName pick) column := by
  have hall : (picks selection).all isExclusion = true := List.all_eq_true.mpr hdashes
  obtain ⟨named, hnamed, hkeep⟩ := make_eq_ok_iff.mp hmake
  simp only [pickedName, keptOf, hall, if_true] at hnamed hkeep
  rw [hkeep, mem_without_iff, mem_named_iff hnamed]
  simp only [not_exists, not_and]

/-- A selection without picks keeps all columns. -/
theorem keep_of_picks_eq_nil (hmake : make selection header = .ok s) (h : picks selection = []) :
    s.keep = List.range (fields header).length := by
  obtain ⟨named, hnamed, hkeep⟩ := make_eq_ok_iff.mp hmake
  rw [h, List.forall₂_nil_left_iff] at hnamed
  rw [hkeep, keptOf, h, hnamed]
  simp [without]

/-- What an accepted selection makes of a header and of its rows. -/
structure Selects (selection header : String) (s : ColumnSelector) : Prop where
  /-- A row has as many fields afterwards as the header has. -/
  aligned : ∀ row, (fields (s.apply row)).length = (fields (s.apply header)).length
  /-- In the header and in every row a place comes from the same column of the source, unless no
  column is kept and every line is empty. -/
  carried : ∀ place < (fields (s.apply header)).length,
    (∃ column < (fields header).length, s.keep[place]? = some column ∧ s.Carries place column) ∨
      s.keep = [] ∧ ∀ line, s.apply line = ""
  /-- A field that a row lacks is empty. -/
  missing : ∀ row place column, s.Carries place column → (fields row).length ≤ column →
    (fields (s.apply row))[place]? = some ""
  /-- When some pick has no dash, the columns are those that the picks name, in their order. -/
  included : (∃ pick ∈ picks selection, isExclusion pick = false) →
    List.Forall₂ (fun pick column => IsColumn header pick column) (picks selection) s.keep ∧
      List.Forall₂ (fun pick field => sameIgnoringCase field pick = true) (picks selection)
        (trimmedFields (s.apply header))
  /-- When every pick has a dash, the columns are all but those that the picks name, in the order
  of the source. -/
  excluded : (∀ pick ∈ picks selection, isExclusion pick = true) →
    s.keep.Pairwise (· < ·) ∧ ∀ column, column ∈ s.keep ↔ column < (fields header).length ∧
      ∀ pick ∈ picks selection, ¬IsColumn header (excludedName pick) column
  /-- A selection of blanks keeps all columns. -/
  blank : (∀ pick ∈ trimmedFields selection, pick = "") → s.keep = List.range (fields header).length

/-- A selection is accepted unless some pick names no column, and then it selects what
its picks say. -/
theorem make_selects (selection header : String) :
    (∀ s, make selection header = .ok s → Selects selection header s) ∧
      ((∃ f, make selection header = .error f) ↔
        ∃ pick ∈ picks selection, Lacks header (pickedName selection pick)) := by
  refine ⟨fun s hmake => ⟨?_, ?_, ?_, ?_, ?_, ?_⟩, exists_make_eq_error_iff⟩
  · intro row
    rw [length_fields_apply, length_fields_apply]
  · intro place hplace
    by_cases hnil : s.keep = []
    · exact .inr ⟨hnil, apply_of_keep_eq_nil hnil⟩
    · rw [fields_apply hnil, List.length_map] at hplace
      have hkept := List.getElem?_eq_getElem hplace
      exact .inl ⟨_, lt_of_mem_keep hmake (List.getElem_mem hplace), hkept, carries_iff.mpr hkept⟩
  · intro row place column hcarries hlacking
    rw [hcarries row, fieldAt_of_length_le hlacking]
  · intro hplain
    have hnamed := named_of_make hmake hplain
    refine ⟨hnamed, ?_⟩
    have hne : s.keep ≠ [] := by
      obtain ⟨pick, hpick, -⟩ := hplain
      intro hnil
      rw [hnil, List.forall₂_nil_right_iff] at hnamed
      exact List.ne_nil_of_mem hpick hnamed
    -- each column named has the name of its pick
    rw [trimmedFields_apply hne, List.forall₂_map_right_iff]
    exact hnamed.imp fun _ _ hcolumn => hcolumn.named
  · intro hdashes
    exact ⟨pairwise_keep_of_make hmake hdashes, fun column => mem_keep_iff_of_make hmake hdashes⟩
  · intro hblank
    apply keep_of_picks_eq_nil hmake
    rw [picks, List.filter_eq_nil_iff]
    intro pick hpick
    simp [hblank pick hpick]

/-- Names in any order, one of them twice, and one that is not there. -/
theorem selects_sumIdSum :
    Selects " Sum, id ,,sum" "id,at,sum" ⟨[2, 0, 2]⟩ ∧
      ∃ f, make "sum,-at" "id,at,sum" = .error f := by
  constructor
  · apply (make_selects " Sum, id ,,sum" "id,at,sum").1
    rfl
  · apply (make_selects "sum,-at" "id,at,sum").2.mpr
    refine ⟨"-at", ?_, ?_⟩
    · decide +kernel
    · unfold Lacks
      decide +kernel

end ColumnSelector

end Haulage
