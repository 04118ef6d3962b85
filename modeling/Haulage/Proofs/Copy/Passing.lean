import Haulage.Proofs.Copy.Rows
import Haulage.Proofs.Copy.Watermark

/-!
# Rows that pass a filter

A filter remembers the keys of the rows that came as far as its key test. As long as no two
rows share a key, this memory stops none of them, and the rows that pass are those that are
newer than the watermark.

- `passing_eq_filter`: which rows pass when no two of them share a key.
- `passing_eq_newRows`: these are the rows newer than all that the target holds.
- `lines_map_ok`: a copy that nothing stops writes the rows that pass, as many as its limit allows.
-/

set_option autoImplicit false

namespace Haulage

namespace RowFilter

variable {f : RowFilter} {line : String}

/-- The key of a row, given the key columns. -/
def rowKey (keys : List Nat) (line : String) : String :=
  Text.join '\x1f' (keys.map (fieldAt (trimmedFields line)))

theorem keyOf_trimmedFields : f.keyOf (trimmedFields line) = rowKey f.keyColumns line :=
  rfl

theorem pass_of_older (h : f.isNewer (trimmedFields line) = false) : f.pass line = (false, f) := by
  simp [pass, h]

theorem pass_of_keyless (h : f.isNewer (trimmedFields line) = true) (hkeys : f.keyColumns = []) :
    f.pass line = (true, f) := by
  simp [pass, h, hkeys]

/-- A newer row whose key has not been seen passes, and its key is seen from then on. -/
theorem pass_of_unseen (h : f.isNewer (trimmedFields line) = true) (hkeys : f.keyColumns ≠ [])
    (hunseen : rowKey f.keyColumns line ∉ f.seen) :
    f.pass line = (true, { f with seen := f.seen.insert (rowKey f.keyColumns line) }) := by
  simp [pass, h, hkeys, hunseen, keyOf_trimmedFields]

/-- The rows that a filter lets through, one after the other. -/
def passing (f : RowFilter) : List String → List String
  | [] => []
  | line :: more =>
    match f.pass line with
    | (true, f) => line :: f.passing more
    | (false, f) => f.passing more

/-- As long as no two rows share a key, all newer rows pass. -/
theorem passing_eq_filter {rows : List String}
    (hunseen : ∀ line ∈ rows, rowKey f.keyColumns line ∉ f.seen)
    (hunique : f.keyColumns ≠ [] → (rows.map (rowKey f.keyColumns)).Nodup) :
    f.passing rows = rows.filter fun line => f.isNewer (trimmedFields line) := by
  -- the keys seen are keys of earlier rows, so none of them comes again
  induction rows generalizing f with
  | nil => rfl
  | cons line more ih =>
      have hunseen' : ∀ row ∈ more, rowKey f.keyColumns row ∉ f.seen :=
        fun row hrow => hunseen row (List.mem_cons_of_mem _ hrow)
      have hunique' : f.keyColumns ≠ [] → (more.map (rowKey f.keyColumns)).Nodup :=
        fun hkeys => (List.nodup_cons.mp (hunique hkeys)).2
      rw [passing]
      cases hnewer : f.isNewer (trimmedFields line) with
      | false =>
          simp only [pass_of_older hnewer, List.filter_cons, hnewer]
          exact ih hunseen' hunique'
      | true =>
          by_cases hkeys : f.keyColumns = []
          · simp only [pass_of_keyless hnewer hkeys, List.filter_cons, hnewer, if_true]
            exact congrArg (line :: ·) (ih hunseen' hunique')
          · simp only [pass_of_unseen hnewer hkeys (hunseen line List.mem_cons_self),
              List.filter_cons, hnewer, if_true]
            refine congrArg (line :: ·) (ih ?_ hunique')
            intro row hrow hseen
            -- the key just seen is the key of no later row
            rcases Std.HashSet.mem_insert.mp hseen with hkey | hseen
            · have hne := (List.nodup_cons.mp (hunique hkeys)).1
              exact hne (List.mem_map.mpr ⟨row, hrow, (eq_of_beq hkey).symm⟩)
            · exact hunseen' row hrow hseen

/-- A filter lets through what is newer than its watermark. -/
theorem isNewer_iff {keys : List Nat} {column : Nat} {mark : Option String}
    {seen : Std.HashSet String} :
    (RowFilter.mk keys (mark.map (UpdateTest.mk column)) seen).isNewer (trimmedFields line) = true ↔
      IsNewerThan mark (updateValue column line) := by
  cases mark with
  | none => simp [isNewer, isNewerThan_none]
  | some w => simp [isNewer, isNewerThan_some, updateValue]

/-- The filter for a header that has the columns asked for. -/
theorem make_eq_ok {header key : String} {primaryKey mark : Option String} {keys : List Nat}
    {column : Nat} (hkeys : readKeyColumns header primaryKey = .ok keys)
    (hcolumn : columnIndex header key = .ok column) :
    make header primaryKey (some key) mark =
      .ok ⟨keys, mark.map (UpdateTest.mk column), ∅⟩ := by
  rw [make, hkeys]
  cases mark with
  | none => rfl
  | some w => simp [readUpdateTest, hcolumn, Except.map]

/-- With the watermark of the rows loaded before, the rows newer than all of these pass. -/
theorem passing_eq_newRows {keys : List Nat} {column : Nat} {loaded source : List String}
    (hcomparable : Comparable ((loaded ++ source).map (updateValue column)))
    (hvalued : ∀ row ∈ loaded, updateValue column row ≠ "")
    (hunique : keys ≠ [] → (source.map (rowKey keys)).Nodup) :
    (RowFilter.mk keys ((watermarkOf column loaded).map (UpdateTest.mk column)) ∅).passing source =
      newRows column loaded source := by
  rw [passing_eq_filter (fun _ _ => Std.HashSet.not_mem_empty) hunique]
  refine List.filter_congr fun line hline => ?_
  have hloaded : ∀ row ∈ loaded,
      updateValue column row ∈ (loaded ++ source).map (updateValue column) ∧
        updateValue column row ≠ "" :=
    fun row hrow => ⟨List.mem_map_of_mem (List.mem_append_left _ hrow), hvalued row hrow⟩
  have hvalue : updateValue column line ∈ (loaded ++ source).map (updateValue column) :=
    List.mem_map_of_mem (List.mem_append_right _ hline)
  rw [Bool.eq_iff_iff, isNewer_iff, isNewerThan_watermarkOf_iff hcomparable hloaded hvalue]
  simp

end RowFilter

/-! ## Copies that nothing stops -/

namespace Copy

/-- The first rows, as many as a limit still allows after the rows that were copied. -/
def upTo (limit : Option UInt64) (copied : Nat) (rows : List String) : List String :=
  match limit with
  | none => rows
  | some n => rows.take (n.toNat - copied)

theorem upTo_of_reached {limit : Option UInt64} {copied : Nat} (h : reached limit copied = true)
    (rows : List String) : upTo limit copied rows = [] := by
  cases limit with
  | none => cases h
  | some n =>
      have hn : n.toNat ≤ copied := of_decide_eq_true h
      rw [upTo, Nat.sub_eq_zero_of_le hn, List.take_zero]

theorem upTo_cons {limit : Option UInt64} {copied : Nat} (h : reached limit copied = false)
    (row : String) (rows : List String) :
    upTo limit copied (row :: rows) = row :: upTo limit (copied + 1) rows := by
  cases limit with
  | none => rfl
  | some n =>
      have hn : ¬n.toNat ≤ copied := of_decide_eq_false h
      obtain ⟨left, hleft⟩ : ∃ left, n.toNat - copied = left + 1 := ⟨n.toNat - copied - 1, by omega⟩
      have hleft' : n.toNat - (copied + 1) = left := by omega
      rw [upTo, upTo, hleft, hleft', List.take_succ_cons]

/-- Without a fault or a cancellation the rows that pass are written, as many as the limit
allows. -/
theorem rowsFrom_map_ok (selector : Option ColumnSelector) (limit : Option UInt64) (path : Path)
    (filter : RowFilter) (rows : Nat) (written source : List String) :
    rowsFrom selector limit path none filter rows written (source.map .ok) =
      ⟨written.reverse ++ (upTo limit rows (filter.passing source)).map (project selector),
        rows + (upTo limit rows (filter.passing source)).length, none⟩ := by
  induction source generalizing filter rows written with
  | nil => cases limit <;> simp [rowsFrom, RowFilter.passing, upTo]
  | cons line more ih =>
      rw [List.map_cons, rowsFrom, if_neg (by simp)]
      cases hreached : reached limit rows with
      | true =>
          -- the limit stops the copy, whatever the filter makes of the line
          simp [upTo_of_reached hreached]
      | false =>
          rw [RowFilter.passing]
          rcases filter.pass line with ⟨_ | _, filter'⟩
          · exact ih filter' rows written
          · simp only [Option.map_none, ih, upTo_cons hreached, List.map_cons, List.length_cons]
            simp [Nat.add_assoc, Nat.add_comm]

/-- A copy that nothing stops writes the header, unless it skips it, and the rows that pass, as many
as the limit allows. -/
theorem lines_map_ok {options : RunOptions} {plan : CopyPlan} {path : Path} {header : String}
    {rows : List String} {selector : Option ColumnSelector} {filter : RowFilter}
    (hselector : selectorFor options header = .ok selector)
    (hfilter : filterFor options plan header = .ok filter) :
    lines options plan ⟨path, (header :: rows).map .ok, none⟩ =
      ⟨(if plan.skipHeader then [] else [project selector header]) ++
          (upTo options.limit 0 (filter.passing rows)).map (project selector),
        (upTo options.limit 0 (filter.passing rows)).length, none⟩ := by
  rw [lines]
  simp only [List.map_cons, hselector, hfilter, Option.map_none, rowsFrom_map_ok, Nat.zero_add]
  cases plan.skipHeader <;> rfl

end Copy

end Haulage
