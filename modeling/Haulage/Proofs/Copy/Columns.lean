import Haulage.Proofs.Text.Split
import Mathlib.Data.List.Forall2
import Mathlib.Data.List.Pairwise

/-!
# Columns of a selection

A name means the first column that has it. The line that a selection makes of another one has one
field for each column that it keeps, and that of a header has the same names in the same places. A
column that is meant by a name before the selection and kept by it is the one meant afterwards: of
several columns with one name the selection keeps the first one first.

- `findColumn?_eq_some_iff`, `columnIndex_eq_ok_iff`: the column that a name means.
- `make_eq_ok_iff`: the columns that a selection keeps, from those that its picks name.
- `trimmedFields_apply`: the fields of what a selection makes of a line.
- `columnIndex_apply`: where a column is found that the selection keeps.
-/

set_option autoImplicit false

namespace Haulage

open Haulage.Text

/-! ## Names of columns -/

theorem fieldAt_of_lt {fields : List String} {i : Nat} (h : i < fields.length) :
    fieldAt fields i = fields[i] := by
  rw [fieldAt, List.getD_eq_getElem?_getD, List.getElem?_eq_getElem h, Option.getD_some]

theorem length_trimmedFields (line : String) : (trimmedFields line).length = (fields line).length :=
  List.length_map trim

/-- The column that a name means: the first one that has the name, whatever the case of its
letters. -/
structure IsColumn (header name : String) (i : Nat) : Prop where
  present : i < (trimmedFields header).length
  named : sameIgnoringCase (fieldAt (trimmedFields header) i) name = true
  first : ∀ j < i, sameIgnoringCase (fieldAt (trimmedFields header) j) name = false

theorem findColumn?_eq_some_iff {header name : String} {i : Nat} :
    findColumn? header name = some i ↔ IsColumn header name i := by
  rw [findColumn?, List.findIdx?_eq_some_iff_getElem]
  constructor
  · rintro ⟨hi, hnamed, hbefore⟩
    rw [← fieldAt_of_lt hi] at hnamed
    refine ⟨hi, hnamed, fun j hj => ?_⟩
    rw [fieldAt_of_lt (Nat.lt_trans hj hi)]
    simpa using hbefore j hj
  · rintro ⟨hi, hnamed, hfirst⟩
    rw [fieldAt_of_lt hi] at hnamed
    refine ⟨hi, hnamed, fun j hj => ?_⟩
    rw [← fieldAt_of_lt (Nat.lt_trans hj hi), hfirst j hj]
    exact Bool.false_ne_true

/-- Blanks around the name of a key do not count. -/
theorem columnIndex_eq_ok_iff {header name : String} {i : Nat} :
    columnIndex header name = .ok i ↔ IsColumn header (trim name) i := by
  rw [columnIndex, ← findColumn?_eq_some_iff]
  cases findColumn? header (trim name) with
  | none => simp [failWith]
  | some j => simp

theorem pickIndex_eq_ok_iff {header name : String} {i : Nat} :
    ColumnSelector.pickIndex header name = .ok i ↔ IsColumn header name i := by
  rw [ColumnSelector.pickIndex, ← findColumn?_eq_some_iff]
  cases findColumn? header name with
  | none => simp [failWith]
  | some j => simp

/-- The column that a name means is the one that each of its names means. -/
theorem IsColumn.eq_of_named {header first second : String} {i j : Nat}
    (hi : IsColumn header first i) (hj : IsColumn header second j)
    (hnamed : sameIgnoringCase (fieldAt (trimmedFields header) i) second = true) : i = j := by
  have hfirst := hi.named
  have hsecond := hj.named
  rw [sameIgnoringCase_iff] at hnamed hfirst hsecond
  rcases Nat.lt_trichotomy i j with hlt | heq | hgt
  · have hno := hj.first i hlt
    rw [← Bool.not_eq_true, sameIgnoringCase_iff] at hno
    exact absurd hnamed hno
  · exact heq
  · have hno := hi.first j hgt
    rw [← Bool.not_eq_true, sameIgnoringCase_iff] at hno
    exact absurd (hsecond.trans (hnamed.symm.trans hfirst)) hno

/-! ## Attempts one after the other -/

/-- The attempts on a list succeed when each of them does. -/
theorem Attempt.all_eq_ok_iff {α β : Type} {f : α → Attempt β} {as : List α} {bs : List β} :
    Attempt.all f as = .ok bs ↔ List.Forall₂ (fun a b => f a = .ok b) as bs := by
  induction as generalizing bs with
  | nil => simp [Attempt.all, eq_comm]
  | cons a as ih =>
      rw [Attempt.all, List.forall₂_cons_left_iff]
      cases hb : f a with
      | error e => simp
      | ok b =>
          cases hmore : Attempt.all f as with
          | error e =>
              -- one of the later attempts fails, so no list of results fits
              have hnone : ∀ bs, ¬List.Forall₂ (fun a b => f a = .ok b) as bs := by
                intro bs hbs
                rw [← ih, hmore] at hbs
                cases hbs
              simp [Except.map, hnone]
          | ok bs' =>
              have hsome : ∀ bs, List.Forall₂ (fun a b => f a = .ok b) as bs ↔ bs' = bs := by
                intro bs
                rw [← ih, hmore, Except.ok.injEq]
              simp [Except.map, hsome, eq_comm]

/-- The attempts on a list fail as the first of them that fails. -/
theorem Attempt.all_eq_error_iff {α β : Type} {f : α → Attempt β} {as : List α} {e : Failure} :
    Attempt.all f as = .error e ↔ ∃ front a rest, as = front ++ a :: rest ∧
      (∀ earlier ∈ front, ∃ b, f earlier = .ok b) ∧ f a = .error e := by
  induction as with
  | nil => simp [Attempt.all]
  | cons a as ih =>
      rw [Attempt.all]
      cases hb : f a with
      | error e' =>
          constructor
          · intro he
            cases he
            exact ⟨[], a, as, rfl, fun _ h => absurd h List.not_mem_nil, hb⟩
          · -- nothing succeeds in front of it
            rintro ⟨front, a', rest, hsplit, hfront, he⟩
            cases front with
            | nil =>
                obtain ⟨rfl, -⟩ := List.cons.inj hsplit
                rw [hb] at he
                cases he
                rfl
            | cons first front =>
                obtain ⟨rfl, -⟩ := List.cons.inj hsplit
                obtain ⟨b, hok⟩ := hfront a List.mem_cons_self
                rw [hb] at hok
                cases hok
      | ok b =>
          have hmap : (Attempt.all f as).map (b :: ·) = .error e ↔ Attempt.all f as = .error e := by
            cases Attempt.all f as <;> simp [Except.map]
          rw [hmap, ih]
          constructor
          · rintro ⟨front, a', rest, rfl, hfront, he⟩
            exact ⟨a :: front, a', rest, rfl, List.forall_mem_cons.mpr ⟨⟨b, hb⟩, hfront⟩, he⟩
          · rintro ⟨front, a', rest, hsplit, hfront, he⟩
            cases front with
            | nil =>
                obtain ⟨rfl, -⟩ := List.cons.inj hsplit
                rw [hb] at he
                cases he
            | cons first front =>
                obtain ⟨rfl, rfl⟩ := List.cons.inj hsplit
                exact ⟨front, a', rest, rfl, fun c hc => hfront c (List.mem_cons_of_mem _ hc), he⟩

/-! ## What a selection makes of a line -/

theorem comma_not_mem_fieldAt (line : String) (i : Nat) :
    ',' ∉ (fieldAt (fields line) i).toList := by
  rw [fieldAt, List.getD_eq_getElem?_getD]
  cases hi : (fields line)[i]? with
  | none => exact List.not_mem_nil
  | some field => exact not_mem_of_mem_split (List.mem_of_getElem? hi)

theorem fieldAt_trimmedFields (line : String) (i : Nat) :
    fieldAt (trimmedFields line) i = trim (fieldAt (fields line) i) := by
  rw [fieldAt, fieldAt, trimmedFields, List.getD_eq_getElem?_getD, List.getD_eq_getElem?_getD,
    List.getElem?_map]
  cases (fields line)[i]? <;> rfl

namespace ColumnSelector

variable {s : ColumnSelector} {selection header key line : String}

/-- A line has one field for each column that is kept. -/
theorem fields_apply (hne : s.keep ≠ []) (line : String) :
    fields (s.apply line) = s.keep.map (fieldAt (fields line)) := by
  rw [s.apply_eq_join, fields, split_join (by simpa using hne)]
  intro field hfield
  obtain ⟨i, -, rfl⟩ := List.mem_map.mp hfield
  exact comma_not_mem_fieldAt line i

theorem trimmedFields_apply (hne : s.keep ≠ []) (line : String) :
    trimmedFields (s.apply line) = s.keep.map (fieldAt (trimmedFields line)) := by
  rw [trimmedFields, fields_apply hne, List.map_map]
  exact List.map_congr_left fun i _ => (fieldAt_trimmedFields line i).symm

/-- The name of the column that a pick is about: dashes are left out when every pick has one. -/
def pickedName (selection pick : String) : String :=
  if (picks selection).all isExclusion then excludedName pick else pick

/-- The columns that are left when some are dropped, in their order. -/
def without (header : String) (dropped : List Nat) : List Nat :=
  (List.range (fields header).length).filter fun column => !dropped.contains column

theorem mem_without_iff {dropped : List Nat} {column : Nat} :
    column ∈ without header dropped ↔ column < (fields header).length ∧ column ∉ dropped := by
  simp [without]

theorem pairwise_without (header : String) (dropped : List Nat) :
    (without header dropped).Pairwise (· < ·) :=
  List.Pairwise.filter _ List.pairwise_lt_range

/-- The columns that a selection keeps, given those that its picks name. -/
def keptOf (selection header : String) (named : List Nat) : List Nat :=
  if (picks selection).all isExclusion then without header named else named

/-- A selection of either kind looks for the columns that its picks name. -/
theorem make_eq (selection header : String) : make selection header =
    (Attempt.all (fun pick => pickIndex header (pickedName selection pick)) (picks selection)).map
      fun named => ⟨keptOf selection header named⟩ := by
  cases hall : (picks selection).all isExclusion with
  | true =>
      simp only [make, pickedName, keptOf, hall, if_true]
      rfl
  | false =>
      simp only [make, pickedName, keptOf, hall, Bool.false_eq_true, if_false]

/-- An accepted selection has a column for each of its picks. -/
theorem make_eq_ok_iff : make selection header = .ok s ↔ ∃ named,
    List.Forall₂ (fun pick column => IsColumn header (pickedName selection pick) column)
      (picks selection) named ∧ s.keep = keptOf selection header named := by
  rw [make_eq]
  simp only [← pickIndex_eq_ok_iff, ← Attempt.all_eq_ok_iff]
  obtain ⟨keep⟩ := s
  cases Attempt.all (fun pick => pickIndex header (pickedName selection pick))
    (picks selection) with
  | error f => simp [Except.map]
  | ok named => simp [Except.map, eq_comm]

/-- When some pick has no dash, the columns are those that the picks name. -/
theorem named_of_make (hmake : make selection header = .ok s)
    (hplain : ∃ pick ∈ picks selection, isExclusion pick = false) :
    List.Forall₂ (fun pick column => IsColumn header pick column) (picks selection) s.keep := by
  have hall : (picks selection).all isExclusion = false := by
    obtain ⟨pick, hpick, hplain⟩ := hplain
    exact List.all_eq_false.mpr ⟨pick, hpick, Bool.eq_false_iff.mp hplain⟩
  obtain ⟨named, hnamed, hkeep⟩ := make_eq_ok_iff.mp hmake
  simp only [pickedName, keptOf, hall, Bool.false_eq_true, if_false] at hnamed hkeep
  rw [hkeep]
  exact hnamed

/-- When every pick has a dash, the columns stay in their order. -/
theorem pairwise_keep_of_make (hmake : make selection header = .ok s)
    (hdashes : ∀ pick ∈ picks selection, isExclusion pick = true) : s.keep.Pairwise (· < ·) := by
  have hall : (picks selection).all isExclusion = true := List.all_eq_true.mpr hdashes
  obtain ⟨named, -, hkeep⟩ := make_eq_ok_iff.mp hmake
  rw [hkeep, keptOf, if_pos hall]
  exact pairwise_without header named

/-- The columns that a selection keeps are meant by its names, or they come in their order. -/
theorem keep_of_make (hmake : make selection header = .ok s) :
    List.Forall₂ (fun pick i => IsColumn header pick i) (picks selection) s.keep ∨
      s.keep.Pairwise (· < ·) := by
  by_cases hdashes : ∀ pick ∈ picks selection, isExclusion pick = true
  · exact .inr (pairwise_keep_of_make hmake hdashes)
  · simp only [not_forall, Bool.not_eq_true] at hdashes
    obtain ⟨pick, hpick, hplain⟩ := hdashes
    exact .inl (named_of_make hmake ⟨pick, hpick, hplain⟩)

/-- Of the columns kept, the first one with a name is the column that the name means, if
that is kept. -/
theorem eq_of_first_kept (hmake : make selection header = .ok s) {column : Nat}
    (hcolumn : IsColumn header key column) (hkept : column ∈ s.keep) {t i : Nat}
    (ht : s.keep[t]? = some i)
    (hnamed : sameIgnoringCase (fieldAt (trimmedFields header) i) key = true)
    (hfirst : ∀ t' < t, s.keep[t']? ≠ some column) : i = column := by
  rcases keep_of_make hmake with hpicks | hsorted
  · -- every kept column is the first one of its name
    obtain ⟨hlength, hall⟩ := List.forall₂_iff_get.mp hpicks
    obtain ⟨ht', hi⟩ := List.getElem?_eq_some_iff.mp ht
    have hpick := hall t (hlength ▸ ht') ht'
    simp only [List.get_eq_getElem, hi] at hpick
    exact hpick.eq_of_named hcolumn hnamed
  · -- the columns before it in the header have other names, and those after it are kept later
    obtain ⟨u, hu⟩ := List.getElem?_of_mem hkept
    have hle : t ≤ u := Nat.not_lt.mp fun hlt => hfirst u hlt hu
    refine Nat.le_antisymm ?_ ?_
    · rcases Nat.eq_or_lt_of_le hle with rfl | hlt
      · rw [ht, Option.some.injEq] at hu
        exact Nat.le_of_eq hu
      · obtain ⟨ht', rfl⟩ := List.getElem?_eq_some_iff.mp ht
        obtain ⟨hu', rfl⟩ := List.getElem?_eq_some_iff.mp hu
        exact Nat.le_of_lt (List.pairwise_iff_getElem.mp hsorted t u ht' hu' hlt)
    · refine Nat.not_lt.mp fun hlt => ?_
      rw [hcolumn.first i hlt] at hnamed
      cases hnamed

/-- A column that is kept is found by its name in what the selection makes of the header. -/
theorem columnIndex_apply (hmake : make selection header = .ok s) {column : Nat}
    (hcolumn : columnIndex header key = .ok column) (hkept : column ∈ s.keep) :
    ∃ t, columnIndex (s.apply header) key = .ok t ∧ s.keep[t]? = some column := by
  rw [columnIndex_eq_ok_iff] at hcolumn
  have hfields := s.trimmedFields_apply (List.ne_nil_of_mem hkept) header
  cases ht : findColumn? (s.apply header) (trim key) with
  | none =>
      -- the kept column has the name
      rw [findColumn?, hfields, List.findIdx?_eq_none_iff] at ht
      have hno := ht _ (List.mem_map_of_mem hkept)
      rw [hcolumn.named] at hno
      cases hno
  | some t =>
      have hfound := findColumn?_eq_some_iff.mp ht
      refine ⟨t, columnIndex_eq_ok_iff.mpr hfound, ?_⟩
      have hfield : ∀ {u i}, s.keep[u]? = some i → fieldAt (trimmedFields (s.apply header)) u =
          fieldAt (trimmedFields header) i := by
        intro u i hu
        rw [hfields, fieldAt, List.getD_eq_getElem?_getD, List.getElem?_map, hu]
        rfl
      have hlt : t < s.keep.length := by
        have hpresent := hfound.present
        rwa [hfields, List.length_map] at hpresent
      have hi := List.getElem?_eq_getElem hlt
      have hnamed := hfound.named
      rw [hfield hi] at hnamed
      rw [hi, eq_of_first_kept hmake hcolumn hkept hi hnamed]
      intro u hu hcolumn'
      have hno := hfound.first u hu
      rw [hfield hcolumn', hcolumn.named] at hno
      cases hno

end ColumnSelector

end Haulage
