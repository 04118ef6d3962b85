import Haulage.Copy.Rows
import Haulage.Proofs.Text.Split
import Mathlib.Order.Basic
import Mathlib.Data.String.Basic

/-!
# Watermarks

The watermark of a target is the newest update value among its rows, so a row is newer than the
watermark exactly when it is newer than each row that the target holds. This needs values that can
be compared with each other: a number compares with a text as a text, which is not transitive, and a
NaN is neither newer nor older than anything.

- `Comparable.exists_rank`: such values compare by a rank in a linear order.
- `watermarkFrom_map_ok`: the watermark is a fold over the rows.
- `isNewerThan_watermarkOf_iff`: a value is newer than the watermark when it is newer than every
  row.
- `newRows_append_newRows`: loading in two steps loads what one step does.
-/

set_option autoImplicit false

namespace Haulage

open Haulage.Numeric

/-! ## Values that compare -/

/-- Values that can be compared with each other: all of them are numbers, or none of them is. -/
def Comparable (values : List String) : Prop :=
  (∀ v ∈ values, ∃ x, readLiteral? v = some x ∧ x ≠ .nan) ∨ ∀ v ∈ values, readLiteral? v = none

theorem Comparable.mono {values fewer : List String} (h : Comparable values)
    (hsub : ∀ v ∈ fewer, v ∈ values) : Comparable fewer := by
  rcases h with h | h
  · exact .inl fun v hv => h v (hsub v hv)
  · exact .inr fun v hv => h v (hsub v hv)

theorem exists_rank?_of_ne_nan {x : Binary64} (h : x ≠ .nan) : ∃ i, x.rank? = some i := by
  cases x with
  | nan => exact absurd rfl h
  | infinity negative => cases negative <;> exact ⟨_, rfl⟩
  | finite negative units => cases negative <;> exact ⟨_, rfl⟩

theorem compareTexts_eq_gt_iff {a b : String} : compareTexts a b = .gt ↔ b < a := by
  rw [compareTexts]
  split
  · rename_i hlt
    simp [lt_asymm hlt]
  · rename_i hlt
    split
    · rename_i heq
      simp [heq]
    · rename_i hne
      simp [lt_of_le_of_ne (not_lt.mp hlt) (Ne.symm hne)]

/-- Comparable values compare by a rank in a linear order. -/
theorem Comparable.exists_rank {values : List String} (h : Comparable values) :
    ∃ (α : Type) (_ : LinearOrder α) (rank : String → α),
      ∀ a ∈ values, ∀ b ∈ values, compareValues a b = .gt ↔ rank b < rank a := by
  rcases h with hnumbers | htexts
  · -- numbers rank by their place in the numeric order, where both zeros are one
    refine ⟨Int, inferInstance, fun v => ((readLiteral? v).bind Binary64.rank?).getD 0, ?_⟩
    intro a ha b hb
    obtain ⟨x, hx, hxn⟩ := hnumbers a ha
    obtain ⟨y, hy, hyn⟩ := hnumbers b hb
    obtain ⟨i, hi⟩ := exists_rank?_of_ne_nan hxn
    obtain ⟨j, hj⟩ := exists_rank?_of_ne_nan hyn
    simp only [compareValues, hx, hy, Binary64.compare?, hi, hj, Option.getD_some, Option.bind_some]
    exact compare_gt_iff_gt
  · -- texts rank by themselves
    refine ⟨String, inferInstance, id, ?_⟩
    intro a ha b hb
    simp only [compareValues, htexts a ha]
    exact compareTexts_eq_gt_iff

/-! ## The newest value -/

/-- The update value of a row. -/
def updateValue (column : Nat) (line : String) : String :=
  fieldAt (trimmedFields line) column

/-- A value is newer than a watermark, if there is one. -/
def IsNewerThan (mark : Option String) (value : String) : Prop :=
  ∀ w ∈ mark, compareValues value w = .gt

theorem isNewerThan_none (value : String) : IsNewerThan none value :=
  fun _ h => nomatch h

theorem isNewerThan_some {w value : String} :
    IsNewerThan (some w) value ↔ compareValues value w = .gt := by
  simp [IsNewerThan]

namespace CopyPlan

theorem newest_of_isEmpty {mark : Option String} {value : String} (h : value.isEmpty = true) :
    newest mark value = mark := by
  simp only [newest]
  rw [if_pos h]

/-- The watermark is a fold over the rows; a row too short for the column counts as one without a
value. -/
theorem watermarkFrom_map_ok (column : Nat) (mark : Option String) (rows : List String) :
    watermarkFrom column mark (rows.map .ok) =
      .ok ((rows.map (updateValue column)).foldl newest mark) := by
  induction rows generalizing mark with
  | nil => rfl
  | cons line more ih =>
      rw [List.map_cons, watermarkFrom, List.map_cons, List.foldl_cons]
      cases hfield : (fields line)[column]? with
      | none =>
          have hvalue : updateValue column line = "" := by
            simp [updateValue, fieldAt, trimmedFields, List.getD_eq_getElem?_getD, hfield]
          rw [hvalue, newest_of_isEmpty rfl]
          exact ih mark
      | some field =>
          have hvalue : updateValue column line = Text.trim field := by
            simp [updateValue, fieldAt, trimmedFields, List.getD_eq_getElem?_getD, hfield]
          rw [hvalue]
          exact ih _

/-- The newer one of a watermark and a value is one of the two. -/
theorem mem_newest {mark : Option String} {value w : String} (h : w ∈ newest mark value) :
    w ∈ mark ∨ w = value := by
  simp only [newest] at h
  split at h
  · exact .inl h
  · split at h
    · exact .inr (Option.some.inj h).symm
    · split at h
      · exact .inr (Option.some.inj h).symm
      · exact .inl h

end CopyPlan

section Newer

variable {values : List String}

/-- A value is newer than the newer one of a watermark and another value when it is
newer than both. -/
theorem isNewerThan_newest_iff (h : Comparable values) {mark : Option String} {v value : String}
    (hmark : ∀ w ∈ mark, w ∈ values) (hv : v ∈ values) (hnonempty : v ≠ "")
    (hvalue : value ∈ values) :
    IsNewerThan (CopyPlan.newest mark v) value ↔
      IsNewerThan mark value ∧ compareValues value v = .gt := by
  obtain ⟨α, _, rank, hrank⟩ := h.exists_rank
  have hfull : v.isEmpty = false := by simpa using hnonempty
  simp only [CopyPlan.newest]
  rw [hfull, if_neg Bool.false_ne_true]
  cases mark with
  | none => simp [isNewerThan_some, isNewerThan_none]
  | some w =>
      have hw : w ∈ values := hmark w rfl
      simp only [hrank v hv w hw]
      -- the order is linear, so what is above the upper one of the two is above both
      split
      · rename_i hnewer
        rw [isNewerThan_some, isNewerThan_some, hrank value hvalue v hv, hrank value hvalue w hw]
        exact ⟨fun hlt => ⟨hnewer.trans hlt, hlt⟩, And.right⟩
      · rename_i holder
        rw [isNewerThan_some, hrank value hvalue v hv, hrank value hvalue w hw]
        exact ⟨fun hlt => ⟨hlt, lt_of_le_of_lt (not_lt.mp holder) hlt⟩, And.left⟩

/-- A value is newer than the newest one of a watermark and some values when it is newer than all of
them. -/
theorem isNewerThan_foldl_newest_iff (h : Comparable values) {mark : Option String}
    {loaded : List String} {value : String} (hmark : ∀ w ∈ mark, w ∈ values)
    (hloaded : ∀ v ∈ loaded, v ∈ values ∧ v ≠ "") (hvalue : value ∈ values) :
    IsNewerThan (loaded.foldl CopyPlan.newest mark) value ↔
      IsNewerThan mark value ∧ ∀ v ∈ loaded, compareValues value v = .gt := by
  induction loaded generalizing mark with
  | nil => simp
  | cons v more ih =>
      obtain ⟨hv, hnonempty⟩ := hloaded v List.mem_cons_self
      have hmark' : ∀ w ∈ CopyPlan.newest mark v, w ∈ values := by
        intro w hw
        rcases CopyPlan.mem_newest hw with hw | rfl
        · exact hmark w hw
        · exact hv
      rw [List.foldl_cons, ih hmark' fun u hu => hloaded u (List.mem_cons_of_mem _ hu),
        isNewerThan_newest_iff h hmark hv hnonempty hvalue, List.forall_mem_cons, and_assoc]

/-- The newest update value of the rows that a target holds. -/
def watermarkOf (column : Nat) (loaded : List String) : Option String :=
  (loaded.map (updateValue column)).foldl CopyPlan.newest none

/-- A value is newer than the watermark of a target when it is newer than each row there. -/
theorem isNewerThan_watermarkOf_iff (h : Comparable values) {column : Nat} {loaded : List String}
    {value : String}
    (hloaded : ∀ row ∈ loaded, updateValue column row ∈ values ∧ updateValue column row ≠ "")
    (hvalue : value ∈ values) :
    IsNewerThan (watermarkOf column loaded) value ↔
      ∀ row ∈ loaded, compareValues value (updateValue column row) = .gt := by
  rw [watermarkOf, isNewerThan_foldl_newest_iff h (by simp) ?_ hvalue]
  · simp [isNewerThan_none]
  · intro v hv
    obtain ⟨row, hrow, rfl⟩ := List.mem_map.mp hv
    exact hloaded row hrow

end Newer

/-! ## New rows -/

/-- The rows of a source that are newer than every row loaded before. -/
def newRows (column : Nat) (loaded source : List String) : List String :=
  source.filter fun line =>
    loaded.all fun row => compareValues (updateValue column line) (updateValue column row) == .gt

theorem mem_newRows_iff {column : Nat} {loaded source : List String} {line : String} :
    line ∈ newRows column loaded source ↔ line ∈ source ∧
      ∀ row ∈ loaded, compareValues (updateValue column line) (updateValue column row) = .gt := by
  simp [newRows]

theorem newRows_append (column : Nat) (loaded first second : List String) :
    newRows column loaded (first ++ second) =
      newRows column loaded first ++ newRows column loaded second :=
  List.filter_append ..

/-- Only the update values of the loaded rows count. -/
theorem newRows_congr {column : Nat} {loaded loaded' : List String}
    (h : loaded.map (updateValue column) = loaded'.map (updateValue column))
    (source : List String) :
    newRows column loaded source = newRows column loaded' source := by
  rw [newRows]
  congr 1
  funext line
  have hall : ∀ rows : List String,
      (rows.all fun row =>
        compareValues (updateValue column line) (updateValue column row) == .gt) =
        (rows.map (updateValue column)).all fun v =>
          compareValues (updateValue column line) v == .gt := by
    intro rows
    simp only [List.all_map, Function.comp_def]
  rw [hall, hall, h]

/-- No value is newer than itself. -/
theorem compareValues_self_ne_gt {values : List String} (h : Comparable values) {v : String}
    (hv : v ∈ values) : compareValues v v ≠ .gt := by
  obtain ⟨α, _, rank, hrank⟩ := h.exists_rank
  rw [ne_eq, hrank v hv v hv]
  exact lt_irrefl _

/-- What has been loaded is not new again. -/
theorem newRows_of_loaded {column : Nat} {loaded source : List String}
    (h : Comparable (source.map (updateValue column))) :
    newRows column (loaded ++ newRows column loaded source) source = [] := by
  rw [List.eq_nil_iff_forall_not_mem]
  intro line hline
  obtain ⟨hmem, hnewer⟩ := mem_newRows_iff.mp hline
  -- a line that is newer than the rows loaded before is among those loaded since
  have hloaded : line ∈ newRows column loaded source :=
    mem_newRows_iff.mpr ⟨hmem, fun row hrow => hnewer row (List.mem_append_left _ hrow)⟩
  exact compareValues_self_ne_gt h (List.mem_map_of_mem hmem)
    (hnewer line (List.mem_append_right _ hloaded))

/-- Loading the first part of a source and then all of it loads what loading all of it
at once does. -/
theorem newRows_append_newRows {column : Nat} {loaded first second : List String}
    (hcomparable : Comparable (first.map (updateValue column)))
    (hlater : ∀ row ∈ second, ∀ earlier ∈ first,
      compareValues (updateValue column row) (updateValue column earlier) = .gt) :
    newRows column loaded first ++
        newRows column (loaded ++ newRows column loaded first) (first ++ second) =
      newRows column loaded (first ++ second) := by
  have hsecond : newRows column (loaded ++ newRows column loaded first) second =
      newRows column loaded second := by
    refine List.filter_congr fun row hrow => ?_
    rw [List.all_append, Bool.and_eq_left_iff_imp]
    intro _
    rw [List.all_eq_true]
    intro earlier hearlier
    rw [hlater row hrow earlier (mem_newRows_iff.mp hearlier).1]
    rfl
  rw [newRows_append, newRows_append, newRows_of_loaded hcomparable, hsecond, List.nil_append]

end Haulage
