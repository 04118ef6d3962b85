import Haulage.Proofs.Copy.Columns
import Haulage.Proofs.Copy.Keys
import Haulage.Proofs.Copy.Loading
import Haulage.Proofs.Files.Roads
import Haulage.Proofs.Files.TextLines
import Haulage.Proofs.Run.Task

/-!
# Where an incremental copy starts

A target and a source each have the update column where their own header says. The watermark that a
target contributes is the newest of its update values, in whatever order its rows come. Rows that
are blank, too short or empty in that column have no value and do not count, so there is no
watermark when no row has one. A row of a source passes the update test when its value is newer than
all of these.

- `foldl_newest_eq_none_iff`: when a fold over values gives no watermark.
- `isNewerThan_foldl_newest_of_kind_iff`: what it means to be newer than the watermark.
- `forTarget_represents`: the plan for a target, and the filter that is made with it.
-/

set_option autoImplicit false

namespace Haulage

open Haulage.Numeric Haulage.Text

/-! ## The newest of some values -/

/-- A value that is a number if the values of a list are, and is none if they are not. -/
def IsOfKind (values : List String) (value : String) : Prop :=
  ∀ v ∈ values, (readLiteral? value).isSome = (readLiteral? v).isSome

/-- An empty value is newer than no value. -/
theorem compareValues_empty_ne_gt (v : String) : compareValues "" v ≠ .gt := by
  have htext : readLiteral? "" = none := by rfl
  rw [compareValues, htext]
  simp only [ne_eq, compareTexts_eq_gt_iff]
  rw [String.lt_iff_toList_lt]
  exact List.not_lt_nil _

/-- A NaN is newer than no number. -/
theorem compareValues_nan_ne_gt {value v : String} (hnan : readLiteral? value = some .nan)
    (hv : (readLiteral? v).isSome = true) : compareValues value v ≠ .gt := by
  obtain ⟨y, hy⟩ := Option.isSome_iff_exists.mp hv
  have hnothing : Binary64.nan.compare? y = none := rfl
  simp only [compareValues, hnan, hy, hnothing, Option.getD_none, ne_eq, reduceCtorEq,
    not_false_eq_true]

/-- A value that is of the kind of comparable ones can be compared with them, or it is newer than
none of them. -/
theorem comparable_cons_of_kind {values : List String} {value : String} (h : Comparable values)
    (hne : values ≠ []) (hvalue : value = "" ∨ IsOfKind values value) :
    Comparable (value :: values) ∨ ∀ v ∈ values, compareValues value v ≠ .gt := by
  obtain ⟨v, hv⟩ := List.exists_mem_of_ne_nil values hne
  rcases hvalue with rfl | hkind
  · exact .inr fun v _ => compareValues_empty_ne_gt v
  · rcases h with hnumbers | htexts
    · have hsome : ∀ v ∈ values, (readLiteral? v).isSome = true := by
        intro v hv
        obtain ⟨x, hx, -⟩ := hnumbers v hv
        rw [hx]
        rfl
      obtain ⟨x, hx⟩ := Option.isSome_iff_exists.mp ((hkind v hv).trans (hsome v hv))
      -- of the values that are numbers only a NaN cannot be compared
      by_cases hnan : x = .nan
      · subst hnan
        exact .inr fun v hv => compareValues_nan_ne_gt hx (hsome v hv)
      · exact .inl (.inl (List.forall_mem_cons.mpr ⟨⟨x, hx, hnan⟩, hnumbers⟩))
    · have htext : readLiteral? value = none := by
        rw [← Option.not_isSome_iff_eq_none, hkind v hv, htexts v hv]
        exact Bool.false_ne_true
      exact .inl (.inr (List.forall_mem_cons.mpr ⟨htext, htexts⟩))

namespace CopyPlan

theorem newest_eq_none_iff {mark : Option String} {value : String} :
    newest mark value = none ↔ mark = none ∧ value.isEmpty = true := by
  simp only [newest]
  split
  · rename_i hempty
    simp [hempty]
  · rename_i hfull
    cases mark with
    | none => simp [hfull]
    | some w => by_cases hnewer : compareValues value w = .gt <;> simp [hnewer]

/-- There is no watermark when there is none to begin with and no value. -/
theorem foldl_newest_eq_none_iff {mark : Option String} {values : List String} :
    values.foldl newest mark = none ↔ mark = none ∧ ∀ v ∈ values, v.isEmpty = true := by
  induction values generalizing mark with
  | nil => simp
  | cons v more ih =>
      rw [List.foldl_cons, ih, newest_eq_none_iff, List.forall_mem_cons, and_assoc]

theorem mem_foldl_newest {mark : Option String} {values : List String} {w : String}
    (h : w ∈ values.foldl newest mark) : w ∈ mark ∨ w ∈ values := by
  induction values generalizing mark with
  | nil => exact .inl h
  | cons v more ih =>
      rw [List.foldl_cons] at h
      rcases ih h with hnewest | hmore
      · rcases mem_newest hnewest with hmark | rfl
        · exact .inl hmark
        · exact .inr List.mem_cons_self
      · exact .inr (List.mem_cons_of_mem _ hmore)

/-- Empty values do not count. -/
theorem foldl_newest_filter (mark : Option String) (values : List String) :
    (values.filter (!·.isEmpty)).foldl newest mark = values.foldl newest mark := by
  induction values generalizing mark with
  | nil => rfl
  | cons v more ih =>
      rw [List.filter_cons, List.foldl_cons, ← ih]
      cases hempty : v.isEmpty with
      | true =>
          rw [newest_of_isEmpty hempty]
          rfl
      | false => rfl

end CopyPlan

/-- A value of the same kind is newer than the newest of some values when it is newer than
all of them. -/
theorem isNewerThan_foldl_newest_of_kind_iff {values : List String} {value : String}
    (h : Comparable values) (hfull : ∀ v ∈ values, v ≠ "")
    (hvalue : value = "" ∨ IsOfKind values value) :
    IsNewerThan (values.foldl CopyPlan.newest none) value ↔
      ∀ v ∈ values, compareValues value v = .gt := by
  by_cases hne : values = []
  · subst hne
    simp [isNewerThan_none]
  · rcases comparable_cons_of_kind h hne hvalue with hcomparable | hnever
    · have hvalues : ∀ v ∈ values, v ∈ value :: values ∧ v ≠ "" :=
        fun v hv => ⟨List.mem_cons_of_mem _ hv, hfull v hv⟩
      rw [isNewerThan_foldl_newest_iff hcomparable (by simp) hvalues List.mem_cons_self]
      exact and_iff_right (isNewerThan_none value)
    · -- the watermark is one of the values
      obtain ⟨v, hv⟩ := List.exists_mem_of_ne_nil values hne
      refine iff_of_false (fun hnewer => ?_) fun hall => hnever v hv (hall v hv)
      cases hmark : values.foldl CopyPlan.newest none with
      | none =>
          have hempty := (CopyPlan.foldl_newest_eq_none_iff.mp hmark).2 v hv
          exact hfull v hv (String.isEmpty_iff.mp hempty)
      | some w =>
          have hw : w ∈ values := (CopyPlan.mem_foldl_newest hmark).resolve_left (by simp)
          rw [hmark, isNewerThan_some] at hnewer
          exact hnever w hw hnewer

/-! ## The plan for a target -/

/-- The update values in a target, without those of rows that have none. -/
def valuesOf (column : Nat) (rows : List String) : List String :=
  (rows.map (updateValue column)).filter (!·.isEmpty)

theorem mem_valuesOf_iff {column : Nat} {rows : List String} {v : String} :
    v ∈ valuesOf column rows ↔ v ≠ "" ∧ ∃ row ∈ rows, updateValue column row = v := by
  simp [valuesOf, and_comm]

theorem watermarkOf_eq_foldl (column : Nat) (rows : List String) :
    watermarkOf column rows = (valuesOf column rows).foldl CopyPlan.newest none :=
  (CopyPlan.foldl_newest_filter none _).symm

/-- There is no watermark when no row has an update value. -/
theorem watermarkOf_eq_none_iff {column : Nat} {rows : List String} :
    watermarkOf column rows = none ↔ ∀ row ∈ rows, updateValue column row = "" := by
  simp [watermarkOf, CopyPlan.foldl_newest_eq_none_iff]

/-- A watermark that stands for all update values in the rows of a target. -/
structure Represents (key : String) (column : Nat) (rows : List String) (mark : Option String) :
    Prop where
  /-- It is absent when no row has an update value. -/
  absent_iff : mark = none ↔ ∀ row ∈ rows, updateValue column row = ""
  /-- A filter can be made with it for a header that has the columns asked for. -/
  makes : ∀ header primaryKey keys own, RowFilter.readKeyColumns header primaryKey = .ok keys →
    IsColumn header (trim key) own → ∃ f, RowFilter.make header primaryKey (some key) mark = .ok f
  /-- With such a filter a row whose value is of the same kind, if it has one, passes the update
  test when the target has no value or the row's own value is newer than each of these. -/
  newer_iff : ∀ header primaryKey f, RowFilter.make header primaryKey (some key) mark = .ok f →
    ∀ earlier line, (∀ own, IsColumn header (trim key) own →
        updateValue own line = "" ∨ IsOfKind (valuesOf column rows) (updateValue own line)) →
      ((f.after earlier).isNewer (trimmedFields line) = true ↔
        (∀ row ∈ rows, updateValue column row = "") ∨
          ∃ own, IsColumn header (trim key) own ∧ ∀ row ∈ rows, updateValue column row ≠ "" →
            compareValues (updateValue own line) (updateValue column row) = .gt)

/-- The watermark of some rows stands for all of their update values that can be compared. -/
theorem watermarkOf_represents {key : String} {column : Nat} {rows : List String}
    (h : Comparable (valuesOf column rows)) :
    Represents key column rows (watermarkOf column rows) where
  absent_iff := watermarkOf_eq_none_iff
  makes _ _ _ _ hkeys hown :=
    ⟨_, RowFilter.make_eq_ok hkeys (columnIndex_eq_ok_iff.mpr hown)⟩
  newer_iff header primaryKey f hmake earlier line hkind := by
    rw [RowFilter.isNewer_congr (RowFilter.tests_after f earlier).2,
      RowFilter.isNewer_of_make hmake]
    -- without a watermark every row passes, and no value is there to compare with
    rw [← watermarkOf_eq_none_iff]
    cases hmark : watermarkOf column rows with
    | none => simp [RowFilter.IsNewRow]
    | some w =>
        have hnewer : ∀ own, IsColumn header (trim key) own →
            (compareValues (updateValue own line) w = .gt ↔
              ∀ row ∈ rows, updateValue column row ≠ "" →
              compareValues (updateValue own line) (updateValue column row) = .gt) := by
          intro own hown
          have hall := isNewerThan_foldl_newest_of_kind_iff h
            (fun v hv => (mem_valuesOf_iff.mp hv).1) (hkind own hown)
          rw [← watermarkOf_eq_foldl, hmark, isNewerThan_some] at hall
          rw [hall]
          simp only [mem_valuesOf_iff]
          constructor
          · intro hv row hrow hfull
            exact hv _ ⟨hfull, row, hrow, rfl⟩
          · rintro hrow v ⟨hfull, row, hmem, rfl⟩
            exact hrow row hmem hfull
        simp only [RowFilter.IsNewRow, Option.mem_def, Option.some.injEq, forall_eq',
          columnIndex_eq_ok_iff, reduceCtorEq, false_or]
        exact exists_congr fun own => and_congr_right (hnewer own)

/-- The plan for a target that holds a text in which the header has the update key. -/
theorem forTarget_represents {fs : FileSystem} {target : Path} {text header key : String}
    {rows : List String} {column : Nat} {o : RunOptions}
    (hopen : fs.openToRead target = .ok (.content (Utf8.encode text)))
    (htext : Text.lines text = header :: rows) (hincremental : o.isIncremental = true)
    (hkey : o.updateKey = some key) (hcolumn : IsColumn header (trim key) column)
    (hcomparable : Comparable (valuesOf column rows)) :
    ∃ mark, CopyPlan.forTarget fs target o = .ok ⟨true, mark⟩ ∧
      Represents key column rows mark := by
  refine ⟨watermarkOf column rows, ?_, watermarkOf_represents hcomparable⟩
  have hlines : Lines.ofOpened (.content (Utf8.encode text)) = (header :: rows).map .ok := by
    rw [← htext]
    exact Lines.ofBytes_encode text
  rw [CopyPlan.forTarget, if_pos (RunOptions.appends_of_isIncremental hincremental), hopen]
  simp only [hlines]
  exact CopyPlan.ofLines_map_ok hincremental hkey (columnIndex_eq_ok_iff.mpr hcolumn) target rows

/-- Readings in no order, with a blank row, a short one and one without a time among them. -/
def readings : String :=
  "id, At \n1,7\n2,12\n\n3, \n4\n5,9"

/-- The readings below their header. -/
def readingRows : List String :=
  ["1,7", "2,12", "", "3, ", "4", "5,9"]

/-- A run that adds newer readings. -/
def newerReadings : RunOptions :=
  { RunOptions.between "in.csv" "out.csv" .incremental with updateKey := some " at" }

/-- What is newer is later than all readings, not only than the last one; a row without a
time is not. -/
theorem forTarget_represents_readings :
    ∃ mark f, CopyPlan.forTarget (.ofFiles [("out.csv", Utf8.encode readings)]) ⟨"out.csv"⟩
        newerReadings = .ok ⟨true, mark⟩ ∧
      RowFilter.make "at,id" (some "id") (some " at") mark = .ok f ∧
      f.isNewer (trimmedFields "12.5,4") = true ∧ f.isNewer (trimmedFields "11,5") = false ∧
      f.isNewer (trimmedFields " ,6") = false := by
  have hopen : (FileSystem.ofFiles [("out.csv", Utf8.encode readings)]).openToRead ⟨"out.csv"⟩ =
      .ok (.content (Utf8.encode readings)) :=
    FileSystem.openToRead_of_find_file (FileSystem.find_of_isPlain (by decide +kernel) rfl)
  have hlines : Text.lines readings = "id, At " :: readingRows := by
    decide +kernel
  have hcolumn : IsColumn "id, At " (trim " at") 1 := columnIndex_eq_ok_iff.mp rfl
  have hvalues : valuesOf 1 readingRows = ["7", "12", "9"] := by decide +kernel
  have hcomparable : Comparable (valuesOf 1 readingRows) := by
    rw [hvalues]
    exact .inl (by decide +kernel)
  obtain ⟨mark, hplan, hmark⟩ : ∃ mark,
      CopyPlan.forTarget (.ofFiles [("out.csv", Utf8.encode readings)]) ⟨"out.csv"⟩ newerReadings =
        .ok ⟨true, mark⟩ ∧ Represents " at" 1 readingRows mark :=
    forTarget_represents hopen hlines rfl rfl hcolumn hcomparable
  have hown : IsColumn "at,id" (trim " at") 0 := columnIndex_eq_ok_iff.mp rfl
  obtain ⟨f, hmake⟩ := hmark.makes "at,id" (some "id") [1] 0 (by rfl) hown
  have hnewer : ∀ line, updateValue 0 line = "" ∨ IsOfKind ["7", "12", "9"] (updateValue 0 line) →
      (f.isNewer (trimmedFields line) = true ↔
        ∀ row ∈ readingRows, updateValue 1 row ≠ "" →
          compareValues (updateValue 0 line) (updateValue 1 row) = .gt) := by
    intro line hkind
    have heq : ∀ own, IsColumn "at,id" (trim " at") own ↔ own = 0 := by
      intro own
      rw [← columnIndex_eq_ok_iff, show columnIndex "at,id" " at" = .ok 0 by rfl, Except.ok.injEq,
        eq_comm]
    have hiff := hmark.newer_iff "at,id" (some "id") f hmake [] line fun own h => by
      rw [hvalues, (heq own).mp h]
      exact hkind
    simp only [heq, exists_eq_left] at hiff
    refine hiff.trans (or_iff_right fun hempty => ?_)
    exact absurd (hempty "1,7" (by simp [readingRows])) (by decide +kernel)
  refine ⟨mark, f, hplan, hmake, ?_, ?_, ?_⟩
  · rw [hnewer "12.5,4" (.inr (by unfold IsOfKind; decide +kernel))]
    decide +kernel
  · rw [← Bool.not_eq_true, hnewer "11,5" (.inr (by unfold IsOfKind; decide +kernel))]
    decide +kernel
  · rw [← Bool.not_eq_true, hnewer " ,6" (.inl (by decide +kernel))]
    decide +kernel

end Haulage
