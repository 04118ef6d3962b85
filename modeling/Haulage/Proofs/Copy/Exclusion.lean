import Haulage.Proofs.Copy.Rows
import Haulage.Proofs.Copy.Selection
import Haulage.Proofs.Run.Task

/-!
# Columns that a selection leaves out

A selection of dashed picks drops the first column that has the name of a pick. Where the header has
the name again, whatever the case of its letters, the other columns of this name stay, and their
fields are copied. So the columns of these names are left out exactly when each name stands once in
the header.

- `mem_keep_iff_not_isColumn`: of the columns with an excluded name, the first one is dropped.
- `keepsOut_iff`: when none of these columns is copied.
- `lines_leavesOut`: what a copy under such a selection writes, and which of these columns it
  copies.
- `second_column_copied`: a column that is copied although its name is excluded.
-/

set_option autoImplicit false

namespace Haulage

open Haulage.Text

variable {header name : String} {column : Nat}

/-! ## Columns of one name -/

/-- A column that has a name, whatever the case of its letters. -/
structure HasName (header name : String) (column : Nat) : Prop where
  present : column < (trimmedFields header).length
  named : sameIgnoringCase (fieldAt (trimmedFields header) column) name = true

/-- A name that stands at most once in a header. -/
def StandsOnce (header name : String) : Prop :=
  ∀ column other, HasName header name column → HasName header name other → column = other

/-- The column that a name means is the first one that has it. -/
theorem HasName.isColumn_iff (h : HasName header name column) :
    IsColumn header name column ↔ ∀ earlier < column, ¬HasName header name earlier := by
  constructor
  · intro hcolumn earlier hlt hearlier
    have hno := hcolumn.first earlier hlt
    rw [hearlier.named] at hno
    cases hno
  · intro hfirst
    refine ⟨h.present, h.named, fun earlier hlt => ?_⟩
    rw [← Bool.not_eq_true]
    exact fun hnamed => hfirst earlier hlt ⟨Nat.lt_trans hlt h.present, hnamed⟩

/-- A name that a column has means a column. -/
theorem HasName.exists_isColumn (h : HasName header name column) :
    ∃ first, IsColumn header name first := by
  rw [exists_isColumn_iff]
  intro hlacks
  have hno := hlacks _ (List.getElem_mem h.present)
  rw [← fieldAt_of_lt h.present, h.named] at hno
  cases hno

/-- A name stands once when the column that it means is the only one that has it. -/
theorem standsOnce_iff :
    StandsOnce header name ↔ ∀ column, HasName header name column →
      IsColumn header name column := by
  constructor
  · intro honce column hcolumn
    rw [hcolumn.isColumn_iff]
    intro earlier hlt hearlier
    exact Nat.ne_of_lt hlt (honce earlier column hearlier hcolumn)
  · intro hfirst column other hcolumn hother
    exact (hfirst column hcolumn).unique (hfirst other hother)

namespace ColumnSelector

variable {s : ColumnSelector} {selection : String}

/-! ## Names that a selection excludes -/

/-- Of the columns with an excluded name, the one that is dropped is the one that the name means. -/
theorem mem_keep_iff_not_isColumn (hmake : make selection header = .ok s)
    (hdashes : ∀ pick ∈ picks selection, isExclusion pick = true) {pick : String}
    (hpick : pick ∈ picks selection) (hcolumn : HasName header (excludedName pick) column) :
    column ∈ s.keep ↔ ¬IsColumn header (excludedName pick) column := by
  rw [mem_keep_iff_of_make hmake hdashes]
  constructor
  · intro hkept
    exact hkept.2 pick hpick
  · intro hnot
    rw [← length_trimmedFields]
    refine ⟨hcolumn.present, fun other _ hother => hnot ?_⟩
    -- a pick that means this column means the column of its other name, too
    obtain ⟨first, hfirst⟩ := hcolumn.exists_isColumn
    rwa [hother.eq_of_named hfirst hcolumn.named]

/-- An excluded name stands once when no column that has it is kept. -/
theorem standsOnce_iff_of_make (hmake : make selection header = .ok s)
    (hdashes : ∀ pick ∈ picks selection, isExclusion pick = true) {pick : String}
    (hpick : pick ∈ picks selection) : StandsOnce header (excludedName pick) ↔
      ∀ column, HasName header (excludedName pick) column → column ∉ s.keep := by
  rw [standsOnce_iff]
  refine forall₂_congr fun column hcolumn => ?_
  rw [mem_keep_iff_not_isColumn hmake hdashes hpick hcolumn, not_not]

/-! ## What is copied of these columns -/

/-- A selection that keeps the columns of excluded names out. -/
structure KeepsOut (selection header : String) (s : ColumnSelector) : Prop where
  /-- No column of the header that is written has such a name. -/
  names : ∀ pick ∈ picks selection, Lacks (s.apply header) (excludedName pick)
  /-- No place of any line holds the field of a source column that has such a name. -/
  fields : ∀ pick ∈ picks selection, ∀ column, HasName header (excludedName pick) column →
    ∀ place, ¬s.Carries place column

/-- Without columns the header that is written is blank. -/
theorem lacks_apply_of_keep_eq_nil (h : s.keep = []) : Lacks (s.apply header) name ↔ name ≠ "" := by
  have hblank : trimmedFields "" = [""] := rfl
  rw [apply_of_keep_eq_nil h, Lacks, hblank, List.forall_mem_singleton]
  simp [sameIgnoringCase]

theorem lacks_apply_iff (hmake : make selection header = .ok s) (hne : s.keep ≠ []) :
    Lacks (s.apply header) name ↔ ∀ column ∈ s.keep, ¬HasName header name column := by
  rw [Lacks, trimmedFields_apply hne, List.forall_mem_map]
  refine forall₂_congr fun column hkept => ?_
  have hpresent : column < (trimmedFields header).length := by
    rw [length_trimmedFields]
    exact lt_of_mem_keep hmake hkept
  rw [← Bool.not_eq_true, not_iff_not]
  exact ⟨fun hnamed => ⟨hpresent, hnamed⟩, HasName.named⟩

/-- The columns of excluded names are kept out when each of these names stands once. A header that
loses all its columns is written as a blank one, and this must not be an excluded name, either. -/
theorem keepsOut_iff (hmake : make selection header = .ok s)
    (hdashes : ∀ pick ∈ picks selection, isExclusion pick = true) :
    KeepsOut selection header s ↔
      (∀ pick ∈ picks selection, StandsOnce header (excludedName pick)) ∧
      (s.keep = [] → ∀ pick ∈ picks selection, excludedName pick ≠ "") := by
  constructor
  · rintro ⟨hnames, hfields⟩
    constructor
    · intro pick hpick
      rw [standsOnce_iff_of_make hmake hdashes hpick]
      intro column hcolumn hkept
      obtain ⟨place, hcarries⟩ := exists_carries_iff.mpr hkept
      exact hfields pick hpick column hcolumn place hcarries
    · intro hnil pick hpick
      exact (lacks_apply_of_keep_eq_nil hnil).mp (hnames pick hpick)
  · rintro ⟨honce, hblank⟩
    have hout : ∀ pick ∈ picks selection, ∀ column, HasName header (excludedName pick) column →
        column ∉ s.keep :=
      fun pick hpick => (standsOnce_iff_of_make hmake hdashes hpick).mp (honce pick hpick)
    constructor
    · intro pick hpick
      by_cases hnil : s.keep = []
      · exact (lacks_apply_of_keep_eq_nil hnil).mpr (hblank hnil pick hpick)
      · apply (lacks_apply_iff hmake hnil).mpr
        intro column hkept hcolumn
        exact hout pick hpick column hcolumn hkept
    · intro pick hpick column hcolumn place hcarries
      exact hout pick hpick column hcolumn (exists_carries_iff.mp ⟨place, hcarries⟩)

end ColumnSelector

/-! ## Copies with excluded columns -/

namespace Copy

open ColumnSelector

variable {options : RunOptions} {plan : CopyPlan} {source : CopySource} {selection : String}
  {more : List (Except LineFault String)} {s : ColumnSelector}

/-- What a copy leaves out when each pick of its selection has a dash. -/
structure LeavesOut (options : RunOptions) (plan : CopyPlan) (source : CopySource)
    (selection header : String) (s : ColumnSelector) : Prop where
  /-- Each line that is written holds what the selection makes of a line of the source. -/
  written : ∀ line ∈ (lines options plan source).written,
    ∃ sourceLine, .ok sourceLine ∈ source.lines ∧ line = s.apply sourceLine
  /-- A column with an excluded name comes to some place when an earlier one has the name. -/
  carries_iff : ∀ pick ∈ picks selection, ∀ column, HasName header (excludedName pick) column →
    ((∃ place, s.Carries place column) ↔
      ∃ earlier < column, HasName header (excludedName pick) earlier)
  /-- No such column is copied, and no such name written, exactly when each name stands once, and
  none is blank if no column is left. -/
  keepsOut_iff : KeepsOut selection header s ↔
    (∀ pick ∈ picks selection, StandsOnce header (excludedName pick)) ∧
      (s.keep = [] → ∀ pick ∈ picks selection, excludedName pick ≠ "")

/-- A copy leaves out the first column of each excluded name, and no other one. -/
theorem lines_leavesOut (hselection : options.selection = some selection)
    (hlines : source.lines = .ok header :: more) (hmake : make selection header = .ok s)
    (hdashes : ∀ pick ∈ picks selection, isExclusion pick = true) :
    LeavesOut options plan source selection header s := by
  have hselector : selectorFor options header = .ok (some s) := by
    simp only [selectorFor, hselection, hmake]
    rfl
  refine ⟨?_, ?_, ColumnSelector.keepsOut_iff hmake hdashes⟩
  · intro line hline
    obtain ⟨header', more', selector, hlines', hselector', sourceLine, hsource, rfl⟩ :=
      exists_of_mem_written hline
    rw [hlines, List.cons.injEq, Except.ok.injEq] at hlines'
    rw [← hlines'.1, hselector, Except.ok.injEq] at hselector'
    subst hselector'
    exact ⟨sourceLine, hsource, rfl⟩
  · intro pick hpick column hcolumn
    rw [exists_carries_iff, mem_keep_iff_not_isColumn hmake hdashes hpick hcolumn,
      hcolumn.isColumn_iff]
    simp only [not_forall, not_not, exists_prop]

/-- A copy of some lines under a selection. -/
def selecting (selection : String) : RunOptions :=
  { RunOptions.between "in.csv" "out.csv" .fullRefresh with selection := some selection }

/-- A name that stands once is kept out, whatever the case of its letters. -/
theorem lines_leavesOut_once : KeepsOut "-SSN" "id,ssn,name" ⟨[0, 2]⟩ := by
  have hout : LeavesOut (selecting "-SSN") .fresh
      ⟨⟨"in.csv"⟩, [.ok "id,ssn,name", .ok "1,2,3"], none⟩
      "-SSN" "id,ssn,name" ⟨[0, 2]⟩ :=
    lines_leavesOut rfl rfl rfl (by decide +kernel)
  rw [hout.keepsOut_iff]
  refine ⟨?_, fun hnil => absurd hnil (List.cons_ne_nil _ _)⟩
  intro pick hpick
  have hpicks : picks "-SSN" = ["-SSN"] := rfl
  rw [hpicks, List.mem_singleton] at hpick
  subst hpick
  -- it is the name of the second column and of no other one
  have hsecond : ∀ column < 3, sameIgnoringCase (fieldAt (trimmedFields "id,ssn,name") column)
      (excludedName "-SSN") = true → column = 1 := by
    decide +kernel
  intro column other hcolumn hother
  rw [hsecond column hcolumn.present hcolumn.named, hsecond other hother.present hother.named]

/-- A header with a name twice: the second column of this name is copied although the
name is excluded. -/
theorem second_column_copied :
    make "-ssn" "id,ssn,SSN" = .ok ⟨[0, 2]⟩ ∧ ¬KeepsOut "-ssn" "id,ssn,SSN" ⟨[0, 2]⟩ ∧
      lines (selecting "-ssn") .fresh ⟨⟨"in.csv"⟩, [.ok "id,ssn,SSN", .ok "1,2,3"], none⟩ =
        ⟨["id,SSN", "1,3"], 1, none⟩ := by
  refine ⟨rfl, ?_, ?_⟩
  · intro hout
    have hcolumn : HasName "id,ssn,SSN" (excludedName "-ssn") 2 :=
      ⟨by decide +kernel, by decide +kernel⟩
    exact hout.fields "-ssn" (by decide +kernel) 2 hcolumn 1 (ColumnSelector.carries_iff.mpr rfl)
  · rfl

end Copy

end Haulage
