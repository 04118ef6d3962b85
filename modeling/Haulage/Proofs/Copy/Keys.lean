import Haulage.Proofs.Copy.Passing
import Haulage.Proofs.Text.Split
import Haulage.Proofs.Text.Words
import Mathlib.Data.List.Induction
import Mathlib.Data.List.Nodup

/-!
# One row for each key

A filter with key columns lets through the first row of each key among the rows that pass its update
test. Keys are kept as one text, the key fields joined by a separator, and fields that are free of
the separator can be told apart in it. A row that fails the update test leaves no trace.

- `rowKey_eq_iff`: joined keys are equal when the key fields are.
- `mem_seen_after`: what a filter remembers of the rows it was given.
- `admits_iff`: when a row is let through, given the rows before it.
- `mem_passing_iff`: the rows that are let through, each after the rows before it.
- `keepsFirst_of_make`: what follows for all of them.
-/

set_option autoImplicit false

namespace Haulage.RowFilter

open Haulage.Text

/-! ## Keys -/

/-- The key fields of a row without the blanks around them; a field the row lacks is empty. -/
def keyFields (keys : List Nat) (line : String) : List String :=
  keys.map (fieldAt (trimmedFields line))

/-- A line none of whose fields holds the separator of keys. -/
def IsSeparatorFree (line : String) : Prop :=
  ∀ field ∈ fields line, '\x1f' ∉ field.toList

theorem IsSeparatorFree.not_mem_keyFields {line : String} (h : IsSeparatorFree line)
    (keys : List Nat) : ∀ field ∈ keyFields keys line, '\x1f' ∉ field.toList := by
  intro field hfield
  obtain ⟨i, -, rfl⟩ := List.mem_map.mp hfield
  rw [fieldAt, List.getD_eq_getElem?_getD]
  cases hi : (trimmedFields line)[i]? with
  | none => exact List.not_mem_nil
  | some trimmed =>
      obtain ⟨raw, hraw, rfl⟩ := List.mem_map.mp (List.mem_of_getElem? hi)
      exact not_mem_trim (h raw hraw)

theorem keyFields_ne_nil {keys : List Nat} (hne : keys ≠ []) (line : String) :
    keyFields keys line ≠ [] := by
  rw [keyFields, ne_eq, List.map_eq_nil_iff]
  exact hne

/-- The key fields are found again in the joined key. -/
theorem split_rowKey {keys : List Nat} (hne : keys ≠ []) {line : String}
    (h : IsSeparatorFree line) : split '\x1f' (rowKey keys line) = keyFields keys line :=
  split_join (keyFields_ne_nil hne line) (h.not_mem_keyFields keys)

/-- Rows have the same joined key when they have the same key fields. -/
theorem rowKey_eq_iff {keys : List Nat} (hne : keys ≠ []) {a b : String} (ha : IsSeparatorFree a)
    (hb : IsSeparatorFree b) :
    rowKey keys a = rowKey keys b ↔ keyFields keys a = keyFields keys b := by
  constructor
  · intro h
    rw [← split_rowKey hne ha, ← split_rowKey hne hb, h]
  · exact congrArg (join '\x1f')

/-! ## The update test -/

/-- A row that passes the update test: without an update key or a watermark there is
none to pass. -/
def IsNewRow (header : String) (updateKey mark : Option String) (line : String) : Prop :=
  ∀ key ∈ updateKey, ∀ w ∈ mark, ∃ column, columnIndex header key = .ok column ∧
    compareValues (updateValue column line) w = .gt

/-- A filter that could be made for a header. -/
theorem make_eq_ok_iff {header : String} {primaryKey updateKey mark : Option String}
    {f : RowFilter} :
    make header primaryKey updateKey mark = .ok f ↔
      ∃ keys update, readKeyColumns header primaryKey = .ok keys ∧
        readUpdateTest header updateKey mark = .ok update ∧ f = ⟨keys, update, ∅⟩ := by
  rw [make]
  cases readKeyColumns header primaryKey with
  | error e => simp
  | ok keys =>
      cases readUpdateTest header updateKey mark with
      | error e => simp
      | ok update => simp [eq_comm]

theorem isNewer_of_make {header : String} {primaryKey updateKey mark : Option String}
    {f : RowFilter} (h : make header primaryKey updateKey mark = .ok f) (line : String) :
    f.isNewer (trimmedFields line) = true ↔ IsNewRow header updateKey mark line := by
  obtain ⟨keys, update, -, hupdate, rfl⟩ := make_eq_ok_iff.mp h
  cases updateKey with
  | none =>
      cases hupdate
      simp [isNewer, IsNewRow]
  | some key =>
      cases mark with
      | none =>
          cases hupdate
          simp [isNewer, IsNewRow]
      | some w =>
          rw [readUpdateTest] at hupdate
          cases hcolumn : columnIndex header key with
          | error e =>
              rw [hcolumn] at hupdate
              cases hupdate
          | ok column =>
              rw [hcolumn] at hupdate
              cases hupdate
              simp [isNewer, IsNewRow, hcolumn, updateValue]

/-! ## What a filter remembers -/

section Admission

variable {f : RowFilter} {line : String}

/-- The filter after it was given some lines. -/
def after (f : RowFilter) (lines : List String) : RowFilter :=
  lines.foldl (fun f line => (f.pass line).2) f

/-- Whether a filter lets a line through after it was given some lines. -/
def Admits (f : RowFilter) (earlier : List String) (line : String) : Prop :=
  ((f.after earlier).pass line).1 = true

theorem pass_of_seen (h : f.isNewer (trimmedFields line) = true) (hkeys : f.keyColumns ≠ [])
    (hseen : rowKey f.keyColumns line ∈ f.seen) :
    f.pass line = (false, { f with seen := f.seen.insert (rowKey f.keyColumns line) }) := by
  simp [pass, h, hkeys, hseen, keyOf_trimmedFields]

/-- A line never changes what a filter tests. -/
theorem tests_pass (f : RowFilter) (line : String) :
    (f.pass line).2.keyColumns = f.keyColumns ∧ (f.pass line).2.update = f.update := by
  simp only [pass]
  split
  · exact ⟨rfl, rfl⟩
  · split <;> exact ⟨rfl, rfl⟩

theorem fst_pass_iff (hkeys : f.keyColumns ≠ []) :
    (f.pass line).1 = true ↔
      f.isNewer (trimmedFields line) = true ∧ rowKey f.keyColumns line ∉ f.seen := by
  cases hnewer : f.isNewer (trimmedFields line) with
  | false => simp [pass_of_older hnewer]
  | true =>
      by_cases hseen : rowKey f.keyColumns line ∈ f.seen
      · simp [pass_of_seen hnewer hkeys hseen, hseen]
      · simp [pass_of_unseen hnewer hkeys hseen, hseen]

/-- The key of a newer line is seen from then on, whether the line was let through or not. -/
theorem mem_seen_pass (hkeys : f.keyColumns ≠ []) {key : String} :
    key ∈ (f.pass line).2.seen ↔
      key ∈ f.seen ∨ f.isNewer (trimmedFields line) = true ∧ rowKey f.keyColumns line = key := by
  cases hnewer : f.isNewer (trimmedFields line) with
  | false => simp [pass_of_older hnewer]
  | true =>
      by_cases hseen : rowKey f.keyColumns line ∈ f.seen
      · simp [pass_of_seen hnewer hkeys hseen, or_comm]
      · simp [pass_of_unseen hnewer hkeys hseen, or_comm]

theorem tests_after (f : RowFilter) (lines : List String) :
    (f.after lines).keyColumns = f.keyColumns ∧ (f.after lines).update = f.update := by
  induction lines generalizing f with
  | nil => exact ⟨rfl, rfl⟩
  | cons line more ih =>
      obtain ⟨hkeys, hupdate⟩ := tests_pass f line
      obtain ⟨hkeys', hupdate'⟩ := ih (f.pass line).2
      exact ⟨hkeys'.trans hkeys, hupdate'.trans hupdate⟩

theorem isNewer_congr {g : RowFilter} (h : g.update = f.update) (fields : List String) :
    g.isNewer fields = f.isNewer fields := by
  rw [isNewer, isNewer, h]

/-- A filter remembers the keys of the newer lines that it was given. -/
theorem mem_seen_after (hkeys : f.keyColumns ≠ []) {lines : List String} {key : String} :
    key ∈ (f.after lines).seen ↔
      key ∈ f.seen ∨ ∃ earlier ∈ lines,
        f.isNewer (trimmedFields earlier) = true ∧ rowKey f.keyColumns earlier = key := by
  induction lines generalizing f with
  | nil => simp [after]
  | cons line more ih =>
      -- the other lines meet a filter with the same tests, which may have seen one key more
      obtain ⟨hcolumns, hupdate⟩ := tests_pass f line
      have hmore := @ih (f.pass line).2 (hcolumns ▸ hkeys)
      rw [hcolumns, mem_seen_pass hkeys] at hmore
      simp only [isNewer_congr hupdate] at hmore
      rw [after, List.foldl_cons]
      rw [after] at hmore
      rw [hmore, List.exists_mem_cons_iff, or_assoc]

/-- A new filter lets a line through when it is newer and no newer line before it had its key. -/
theorem admits_iff (hkeys : f.keyColumns ≠ []) (hfresh : f.seen = ∅) {earlier : List String} :
    f.Admits earlier line ↔ f.isNewer (trimmedFields line) = true ∧
      ∀ e ∈ earlier, f.isNewer (trimmedFields e) = true →
        rowKey f.keyColumns e ≠ rowKey f.keyColumns line := by
  obtain ⟨hcolumns, hupdate⟩ := tests_after f earlier
  rw [Admits, fst_pass_iff (hcolumns ▸ hkeys), isNewer_congr hupdate, hcolumns,
    mem_seen_after hkeys, hfresh]
  simp

/-! ## The lines that are let through -/

theorem passing_append (f : RowFilter) (first second : List String) :
    f.passing (first ++ second) = f.passing first ++ (f.after first).passing second := by
  induction first generalizing f with
  | nil => rfl
  | cons line more ih =>
      rw [List.cons_append, passing, passing, after, List.foldl_cons]
      rcases f.pass line with ⟨_ | _, filter⟩
      · exact ih filter
      · exact congrArg (line :: ·) (ih filter)

theorem passing_singleton_of_admits {earlier : List String} (h : f.Admits earlier line) :
    (f.after earlier).passing [line] = [line] := by
  rw [passing]
  rw [Admits] at h
  rcases hpass : (f.after earlier).pass line with ⟨admitted, filter⟩
  rw [hpass] at h
  subst h
  rfl

theorem passing_singleton_of_not_admits {earlier : List String} (h : ¬f.Admits earlier line) :
    (f.after earlier).passing [line] = [] := by
  rw [passing]
  rw [Admits] at h
  rcases hpass : (f.after earlier).pass line with ⟨_ | _, filter⟩
  · rfl
  · rw [hpass] at h
    exact absurd rfl h

/-- The lines let through are those that are let through after the lines before them. -/
theorem mem_passing_iff {lines : List String} :
    line ∈ f.passing lines ↔ ∃ earlier later, lines = earlier ++ line :: later ∧
      f.Admits earlier line := by
  -- by induction from the end, as whether a line is let through depends on the lines before it
  induction lines using List.reverseRecOn with
  | nil => simp [passing]
  | append_singleton lines last ih =>
      rw [passing_append, List.mem_append, ih]
      constructor
      · rintro (⟨earlier, later, rfl, hadmits⟩ | hlast)
        · exact ⟨earlier, later ++ [last], by simp, hadmits⟩
        · by_cases hadmits : f.Admits lines last
          · rw [passing_singleton_of_admits hadmits, List.mem_singleton] at hlast
            subst hlast
            exact ⟨lines, [], rfl, hadmits⟩
          · rw [passing_singleton_of_not_admits hadmits] at hlast
            cases hlast
      · rintro ⟨earlier, later, hsplit, hadmits⟩
        rcases List.eq_nil_or_concat later with rfl | ⟨later, last', rfl⟩
        · obtain ⟨rfl, hlast⟩ := List.append_inj' hsplit rfl
          cases hlast
          refine .inr ?_
          rw [passing_singleton_of_admits hadmits]
          exact List.mem_singleton_self _
        · rw [List.concat_eq_append, ← List.cons_append, ← List.append_assoc] at hsplit
          obtain ⟨rfl, -⟩ := List.append_inj' hsplit rfl
          exact .inl ⟨earlier, later, rfl, hadmits⟩

/-- A line that is not newer can be left out. -/
theorem passing_append_of_older {earlier : List String}
    (h : f.isNewer (trimmedFields line) = false) (later : List String) :
    f.passing (earlier ++ line :: later) = f.passing (earlier ++ later) := by
  obtain ⟨-, hupdate⟩ := tests_after f earlier
  have hpass : (f.after earlier).pass line = (false, f.after earlier) := by
    apply pass_of_older
    rw [isNewer_congr hupdate, h]
  rw [passing_append, passing_append, passing, hpass]

/-- The keys of the lines that are let through are pairwise different. -/
theorem nodup_map_rowKey_passing (hkeys : f.keyColumns ≠ []) (hfresh : f.seen = ∅)
    (lines : List String) : ((f.passing lines).map (rowKey f.keyColumns)).Nodup := by
  induction lines using List.reverseRecOn with
  | nil => exact List.nodup_nil
  | append_singleton lines last ih =>
      rw [passing_append]
      by_cases hadmits : f.Admits lines last
      · rw [passing_singleton_of_admits hadmits, List.map_append, List.nodup_append]
        refine ⟨ih, List.nodup_singleton _, ?_⟩
        -- what was let through before is newer, so the last line has another key
        intro key hkey key' hkey'
        obtain ⟨line, hline, rfl⟩ := List.mem_map.mp hkey
        rw [List.map_singleton, List.mem_singleton] at hkey'
        subst hkey'
        obtain ⟨earlier, later, rfl, hbefore⟩ := mem_passing_iff.mp hline
        exact ((admits_iff hkeys hfresh).mp hadmits).2 line (by simp)
          ((admits_iff hkeys hfresh).mp hbefore).1
      · rw [passing_singleton_of_not_admits hadmits, List.append_nil]
        exact ih

end Admission

/-- Lines of which one has a property have a first one that does. -/
theorem exists_first {P : String → Prop} {lines : List String} (h : ∃ line ∈ lines, P line) :
    ∃ earlier first later, lines = earlier ++ first :: later ∧ P first ∧ ∀ e ∈ earlier, ¬P e := by
  induction lines with
  | nil => simp at h
  | cons line more ih =>
      by_cases hline : P line
      · exact ⟨[], line, more, rfl, hline, by simp⟩
      · rw [List.exists_mem_cons_iff] at h
        obtain ⟨earlier, first, later, rfl, hfirst, hearlier⟩ := ih (h.resolve_left hline)
        refine ⟨line :: earlier, first, later, rfl, hfirst, ?_⟩
        rw [List.forall_mem_cons]
        exact ⟨hline, hearlier⟩

/-- Of the lines that pass a test, a filter lets through the first one of each key. -/
structure KeepsFirst (f : RowFilter) (IsNew : String → Prop) (key : String → List String)
    (lines : List String) : Prop where
  /-- A line is let through when it passes the test and no line before it that passes
  has its key. -/
  admits : ∀ earlier line later, lines = earlier ++ line :: later →
    (f.Admits earlier line ↔ IsNew line ∧ ∀ e ∈ earlier, IsNew e → key e ≠ key line)
  /-- The keys of the lines let through are pairwise different. -/
  distinct : ((f.passing lines).map key).Nodup
  /-- The key of a line that passes the test comes through once, with the first line that has it. -/
  once : ∀ line ∈ lines, IsNew line → ((f.passing lines).map key).count (key line) = 1 ∧
    ∃ earlier first later, lines = earlier ++ first :: later ∧ f.Admits earlier first ∧
      key first = key line ∧ ∀ e ∈ earlier, IsNew e → key e ≠ key line
  /-- A line that fails the test does not count for the lines after it. -/
  traceless : ∀ earlier line later, lines = earlier ++ line :: later → ¬IsNew line →
    f.passing lines = f.passing (earlier ++ later)

/-- A filter with key columns lets through the first line of each key among those that pass
the update test. -/
theorem keepsFirst_of_make {header names : String} {updateKey mark : Option String}
    {keys : List Nat} {f : RowFilter} {lines : List String}
    (hkeys : readKeyColumns header (some names) = .ok keys) (hne : keys ≠ [])
    (hmake : make header (some names) updateKey mark = .ok f)
    (hfree : ∀ line ∈ lines, IsSeparatorFree line) :
    f.KeepsFirst (IsNewRow header updateKey mark) (keyFields keys) lines := by
  have hnewer := isNewer_of_make hmake
  obtain ⟨keys', update, hkeys', -, hf⟩ := make_eq_ok_iff.mp hmake
  rw [hkeys, Except.ok.injEq] at hkeys'
  subst hkeys'
  have hcolumns : f.keyColumns = keys := by rw [hf]
  have hfresh : f.seen = ∅ := by rw [hf]
  clear hf
  subst hcolumns
  -- in lines without the separator, keys are told apart by their fields
  have hadmits : ∀ earlier line later, lines = earlier ++ line :: later →
      (f.Admits earlier line ↔ IsNewRow header updateKey mark line ∧
        ∀ e ∈ earlier, IsNewRow header updateKey mark e →
          keyFields f.keyColumns e ≠ keyFields f.keyColumns line) := by
    rintro earlier line later rfl
    rw [admits_iff hne hfresh, hnewer]
    refine and_congr_right fun _ => forall₂_congr fun e he => ?_
    rw [hnewer, ne_eq, rowKey_eq_iff hne (hfree e (by simp [he])) (hfree line (by simp))]
  have hdistinct : ((f.passing lines).map (keyFields f.keyColumns)).Nodup := by
    refine List.Nodup.of_map (join '\x1f') ?_
    rw [List.map_map]
    exact nodup_map_rowKey_passing hne hfresh lines
  refine ⟨hadmits, hdistinct, ?_, ?_⟩
  · -- the first line that passes with this key is let through
    intro line hline hnew
    obtain ⟨earlier, first, later, hsplit, ⟨hnew', hsame⟩, hearlier⟩ :=
      exists_first (P := fun e => IsNewRow header updateKey mark e ∧
        keyFields f.keyColumns e = keyFields f.keyColumns line) ⟨line, hline, hnew, rfl⟩
    have hothers : ∀ e ∈ earlier, IsNewRow header updateKey mark e →
        keyFields f.keyColumns e ≠ keyFields f.keyColumns line :=
      fun e he hnew hkey => hearlier e he ⟨hnew, hkey⟩
    have hlet : f.Admits earlier first := by
      rw [hadmits earlier first later hsplit, hsame]
      exact ⟨hnew', hothers⟩
    refine ⟨?_, earlier, first, later, hsplit, hlet, hsame, hothers⟩
    apply List.count_eq_one_of_mem hdistinct
    rw [← hsame]
    exact List.mem_map_of_mem (mem_passing_iff.mpr ⟨earlier, later, hsplit, hlet⟩)
  · rintro earlier line later rfl hold
    apply passing_append_of_older
    rw [← Bool.not_eq_true, hnewer]
    exact hold

/-- Sales with a key of two columns; the first one is too old. -/
def sales : List String :=
  ["1,eu,4", "1,eu,6", "1,us", "2, eu ,8,late", " 1,eu,7"]

/-- The old sale does not stop the newer one of its key, which stops the last one. -/
theorem keepsFirst_sales :
    ∃ f, make "id,region,at" (some "region,, ID ") (some "At") (some "5") = .ok f ∧
      f.KeepsFirst (IsNewRow "id,region,at" (some "At") (some "5")) (keyFields [1, 0]) sales ∧
      f.Admits ["1,eu,4"] "1,eu,6" ∧
      ¬f.Admits ["1,eu,4", "1,eu,6", "1,us", "2, eu ,8,late"] " 1,eu,7" := by
  have hkeys : readKeyColumns "id,region,at" (some "region,, ID ") = .ok [1, 0] := by rfl
  have hcolumn : columnIndex "id,region,at" "At" = .ok 2 := by rfl
  have hmake : make "id,region,at" (some "region,, ID ") (some "At") (some "5") =
      .ok ⟨[1, 0], some ⟨2, "5"⟩, ∅⟩ := make_eq_ok hkeys hcolumn
  have hfree : ∀ line ∈ sales, IsSeparatorFree line := by
    unfold IsSeparatorFree
    decide +kernel
  have hfirst := keepsFirst_of_make hkeys (List.cons_ne_nil _ _) hmake hfree
  have hnew : ∀ line, IsNewRow "id,region,at" (some "At") (some "5") line ↔
      compareValues (updateValue 2 line) "5" = .gt := by
    intro line
    simp [IsNewRow, hcolumn]
  refine ⟨_, hmake, hfirst, ?_, ?_⟩
  · rw [hfirst.admits ["1,eu,4"] "1,eu,6" ["1,us", "2, eu ,8,late", " 1,eu,7"] rfl]
    simp only [hnew]
    decide +kernel
  · rw [hfirst.admits ["1,eu,4", "1,eu,6", "1,us", "2, eu ,8,late"] " 1,eu,7" [] rfl]
    simp only [hnew]
    decide +kernel

end Haulage.RowFilter
