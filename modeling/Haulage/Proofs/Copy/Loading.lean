import Haulage.Proofs.Copy.Passing

/-!
# Loading rows into a target

A target that an incremental copy reads consists of a header and rows. The copy adds the rows of its
source that are newer than all of these, and the header only to an empty target. What it adds is
read back as rows of the target, with the same fields.

- `ofLines_map_ok`, `ofLines_of_holds`: the plan that a target contributes.
- `lines_of_loadable`: what a copy onto a target writes.
- `Holds.append_lines`: a target that was added to is a target again.
- `addedLines_append_addedLines`: the lines of two copies are the lines of one.
-/

set_option autoImplicit false

namespace Haulage

/-! ## Lines read back -/

/-- A line has the same fields when it is read back. -/
theorem trimmedFields_readBack (line : String) :
    trimmedFields (Lines.readBack line) = trimmedFields line := by
  rw [Lines.readBack, trimmedFields_dropEnd, trimmedFields_append_blank (by decide),
    String.ofList_toList]

theorem updateValue_readBack (column : Nat) (line : String) :
    updateValue column (Lines.readBack line) = updateValue column line := by
  rw [updateValue, trimmedFields_readBack, updateValue]

/-- Headers with the same fields have the same columns. -/
theorem columnIndex_congr {first header : String} (h : trimmedFields first = trimmedFields header)
    (key : String) : columnIndex first key = columnIndex header key := by
  rw [columnIndex, columnIndex, findColumn?, findColumn?, h]

/-! ## Rows that can be loaded -/

section Loading

variable {header primaryKey updateKey : String} {keys : List Nat} {column : Nat}
  {content : Bytes} {loaded source first second : List String} {o : RunOptions}

/-- Rows of a target and of a source that can be told apart: the header has the key columns,
every row has an update value, all of these values can be compared, and no two rows of the source
share a key. -/
structure Loadable (header primaryKey updateKey : String) (keys : List Nat) (column : Nat)
    (loaded source : List String) : Prop where
  keyColumns : RowFilter.readKeyColumns header (some primaryKey) = .ok keys
  updateColumn : columnIndex header updateKey = .ok column
  valued : ∀ row ∈ loaded ++ source, updateValue column row ≠ ""
  comparable : Comparable ((loaded ++ source).map (updateValue column))
  unique : keys ≠ [] → (source.map (RowFilter.rowKey keys)).Nodup

/-- A part of a source can be loaded when all of it can. -/
theorem Loadable.left
    (h : Loadable header primaryKey updateKey keys column loaded (first ++ second)) :
    Loadable header primaryKey updateKey keys column loaded first where
  keyColumns := h.keyColumns
  updateColumn := h.updateColumn
  valued row hrow := by
    apply h.valued row
    rw [← List.append_assoc]
    exact List.mem_append_left _ hrow
  comparable := by
    apply h.comparable.mono
    rw [← List.append_assoc]
    exact List.map_subset _ (List.subset_append_left _ _)
  unique hkeys := by
    have hunique := h.unique hkeys
    rw [List.map_append] at hunique
    exact (List.nodup_append.mp hunique).1

theorem Loadable.comparable_source
    (h : Loadable header primaryKey updateKey keys column loaded source) :
    Comparable (source.map (updateValue column)) :=
  h.comparable.mono (List.map_subset _ (List.subset_append_right _ _))

/-- A source can be loaded again onto rows of its own. -/
theorem Loadable.of_subset (h : Loadable header primaryKey updateKey keys column [] source)
    (hloaded : loaded ⊆ source) :
    Loadable header primaryKey updateKey keys column loaded source := by
  have hall : loaded ++ source ⊆ source := List.append_subset.mpr ⟨hloaded, List.Subset.refl _⟩
  exact ⟨h.keyColumns, h.updateColumn, fun row hrow => h.valued row (hall hrow),
    h.comparable.mono (List.map_subset _ hall), h.unique⟩

/-- The rows of a target once a source has been loaded. -/
def loadedOnce (column : Nat) (loaded source : List String) : List String :=
  loaded ++ (newRows column loaded source).map Lines.readBack

theorem map_updateValue_loadedOnce :
    (loadedOnce column loaded source).map (updateValue column) =
      (loaded ++ newRows column loaded source).map (updateValue column) := by
  simp only [loadedOnce, List.map_append, List.map_map, Function.comp_def, updateValue_readBack]

/-- No update value comes up that the target or the source did not have. -/
theorem exists_of_mem_loadedOnce {row : String} (h : row ∈ loadedOnce column loaded source) :
    ∃ row' ∈ loaded ++ source, updateValue column row = updateValue column row' := by
  have hvalue : updateValue column row ∈
      (loadedOnce column loaded source).map (updateValue column) :=
    List.mem_map_of_mem h
  rw [map_updateValue_loadedOnce] at hvalue
  obtain ⟨row', hrow', heq⟩ := List.mem_map.mp hvalue
  refine ⟨row', ?_, heq.symm⟩
  rcases List.mem_append.mp hrow' with hrow' | hrow'
  · exact List.mem_append_left _ hrow'
  · exact List.mem_append_right _ (mem_newRows_iff.mp hrow').1

/-- All of a source can be loaded after a part of it. -/
theorem Loadable.next
    (h : Loadable header primaryKey updateKey keys column loaded (first ++ second)) :
    Loadable header primaryKey updateKey keys column (loadedOnce column loaded first)
      (first ++ second) := by
  have hrows : ∀ row ∈ loadedOnce column loaded first ++ (first ++ second),
      ∃ row' ∈ loaded ++ (first ++ second), updateValue column row = updateValue column row' := by
    intro row hrow
    rcases List.mem_append.mp hrow with hrow | hrow
    · obtain ⟨row', hrow', heq⟩ := exists_of_mem_loadedOnce hrow
      refine ⟨row', ?_, heq⟩
      rw [← List.append_assoc]
      exact List.mem_append_left _ hrow'
    · exact ⟨row, List.mem_append_right _ hrow, rfl⟩
  -- a row read back has the update value of the row that was written
  refine ⟨h.keyColumns, h.updateColumn, fun row hrow => ?_, h.comparable.mono fun v hv => ?_,
    h.unique⟩
  · obtain ⟨row', hrow', heq⟩ := hrows row hrow
    rw [heq]
    exact h.valued row' hrow'
  · obtain ⟨row, hrow, rfl⟩ := List.mem_map.mp hv
    obtain ⟨row', hrow', heq⟩ := hrows row hrow
    rw [heq]
    exact List.mem_map_of_mem hrow'

/-! ## One copy -/

/-- A target with some rows, as an incremental copy reads it: nothing at all, or a header of the
given fields and then the rows, ending in a newline. -/
inductive Holds (header : String) : Bytes → List String → Prop where
  | nothing : Holds header [] []
  | rows {content : Bytes} {top : String} {rows : List String} :
      content.getLast? = some 0x0A → trimmedFields top = trimmedFields header →
      Lines.ofBytes content = (top :: rows).map .ok → Holds header content rows

/-- An incremental run adds to its target. -/
theorem RunOptions.appends_of_isIncremental (h : o.isIncremental = true) : o.appends = true := by
  have hmode : Mode.named? o.mode = some .incremental := eq_of_beq h
  rw [RunOptions.appends, hmode]
  rfl

theorem isEmpty_of_getLast? {b : UInt8} (h : content.getLast? = some b) :
    content.isEmpty = false := by
  cases content with
  | nil => cases h
  | cons c more => rfl

/-- The plan for a header that has the update column and rows below it. -/
theorem CopyPlan.ofLines_map_ok (hincremental : o.isIncremental = true)
    (hkey : o.updateKey = some updateKey) (hcolumn : columnIndex header updateKey = .ok column)
    (target : Path) (rows : List String) :
    ofLines target o ((header :: rows).map .ok) = .ok ⟨true, watermarkOf column rows⟩ := by
  rw [List.map_cons]
  simp only [ofLines, hincremental, hkey, if_true, hcolumn, watermarkFrom_map_ok]
  rfl

/-- The plan that a target contributes. -/
theorem ofLines_of_holds (h : Holds header content loaded) (hincremental : o.isIncremental = true)
    (hkey : o.updateKey = some updateKey) (hcolumn : columnIndex header updateKey = .ok column)
    (target : Path) :
    CopyPlan.ofLines target o (Lines.ofBytes content) =
      .ok ⟨!content.isEmpty, watermarkOf column loaded⟩ := by
  cases h with
  | nothing => rfl
  | rows hnewline hfields hlines =>
      rw [← columnIndex_congr hfields] at hcolumn
      rw [hlines, isEmpty_of_getLast? hnewline]
      exact CopyPlan.ofLines_map_ok hincremental hkey hcolumn target loaded

/-- What a selection and a limit leave of the lines that a copy adds to a target: the header, when
the target has none, and newer rows. -/
def addedUnder (selector : Option ColumnSelector) (limit : Option UInt64) (header : String)
    (column : Nat) (content : Bytes) (loaded source : List String) : List String :=
  (if content.isEmpty then [Copy.project selector header] else []) ++
    (Copy.upTo limit 0 (newRows column loaded source)).map (Copy.project selector)

/-- What a copy onto a target writes, given the watermark of the rows loaded before. -/
theorem lines_of_loadable (h : Loadable header primaryKey updateKey keys column loaded source)
    {selector : Option ColumnSelector} (hselector : Copy.selectorFor o header = .ok selector)
    (hprimary : o.primaryKey = some primaryKey) (hupdate : o.updateKey = some updateKey)
    (path : Path) :
    ∃ c, Copy.lines o ⟨!content.isEmpty, watermarkOf column loaded⟩
        ⟨path, (header :: source).map .ok, none⟩ = c ∧ c.failure = none ∧
      c.written = addedUnder selector o.limit header column content loaded source := by
  have hfilter : Copy.filterFor o ⟨!content.isEmpty, watermarkOf column loaded⟩ header =
      .ok ⟨keys, (watermarkOf column loaded).map (UpdateTest.mk column), ∅⟩ := by
    rw [Copy.filterFor, hprimary, hupdate]
    exact RowFilter.make_eq_ok h.keyColumns h.updateColumn
  have hvalued : ∀ row ∈ loaded, updateValue column row ≠ "" :=
    fun row hrow => h.valued row (List.mem_append_left _ hrow)
  refine ⟨_, rfl, ?_⟩
  rw [Copy.lines_map_ok hselector hfilter]
  refine ⟨rfl, ?_⟩
  rw [addedUnder, RowFilter.passing_eq_newRows h.comparable hvalued h.unique]
  cases content.isEmpty <;> rfl

/-- The lines that a copy adds to a target. -/
def addedLines (header : String) (column : Nat) (content : Bytes) (loaded source : List String) :
    List String :=
  (if content.isEmpty then [header] else []) ++ newRows column loaded source

/-- Without a selection and a limit all of them are added as they are. -/
theorem addedUnder_none_none :
    addedUnder none none header column content loaded source =
      addedLines header column content loaded source :=
  congrArg _ (List.map_id _)

theorem mem_addedLines {line : String} (h : line ∈ addedLines header column content loaded source) :
    line ∈ header :: source := by
  rcases List.mem_append.mp h with h | h
  · split at h
    · exact List.mem_cons.mpr (.inl (List.mem_singleton.mp h))
    · cases h
  · exact List.mem_cons_of_mem _ (mem_newRows_iff.mp h).1

/-- A target ends in a newline once a header or a row has been written to it. -/
theorem Holds.getLast?_append_lines {new : List String} (h : Holds header content loaded) :
    (content ++ Utf8.encode
      (Lines.unlines ((if content.isEmpty then [header] else []) ++ new))).getLast? =
        some 0x0A := by
  apply Lines.getLast?_append_encode_unlines
  cases h with
  | nothing => exact .inr (List.cons_ne_nil _ _)
  | rows hnewline => exact .inl hnewline

theorem Holds.getLast?_append (h : Holds header content loaded) :
    (content ++ Utf8.encode
      (Lines.unlines (addedLines header column content loaded source))).getLast? = some 0x0A :=
  h.getLast?_append_lines

/-- A target that was added to holds the rows that were added, as they are read back. -/
theorem Holds.append_lines {new : List String} (h : Holds header content loaded)
    (hadded : ∀ line ∈ (if content.isEmpty then [header] else []) ++ new, '\n' ∉ line.toList) :
    Holds header
      (content ++ Utf8.encode (Lines.unlines ((if content.isEmpty then [header] else []) ++ new)))
      (loaded ++ new.map Lines.readBack) := by
  have hlast : (content ++ Utf8.encode
      (Lines.unlines ((if content.isEmpty then [header] else []) ++ new))).getLast? = some 0x0A :=
    h.getLast?_append_lines
  cases h with
  | nothing =>
      -- the header was added as well
      refine .rows hlast (trimmedFields_readBack header) ?_
      rw [Lines.ofBytes_append_encode_unlines (.inl rfl) hadded]
      simp [Lines.ofBytes, Lines.raw, Lines.rawFrom]
  | rows hnewline hfields hcontent =>
      refine .rows hlast hfields ?_
      rw [Lines.ofBytes_append_encode_unlines (.inr hnewline) hadded, hcontent]
      simp [isEmpty_of_getLast? hnewline]

theorem Holds.append (h : Holds header content loaded)
    (hlines : ∀ line ∈ header :: source, '\n' ∉ line.toList) :
    Holds header
      (content ++ Utf8.encode (Lines.unlines (addedLines header column content loaded source)))
      (loadedOnce column loaded source) :=
  h.append_lines fun line hline => hlines line (mem_addedLines hline)

/-! ## Two copies -/

/-- The lines of two copies are the lines of one. -/
theorem addedLines_append_addedLines {between : Bytes}
    (h : Loadable header primaryKey updateKey keys column loaded (first ++ second))
    (hlater : ∀ row ∈ second, ∀ earlier ∈ first,
      compareValues (updateValue column row) (updateValue column earlier) = .gt)
    (hbetween : between.isEmpty = false) :
    addedLines header column content loaded first ++
        addedLines header column between (loadedOnce column loaded first) (first ++ second) =
      addedLines header column content loaded (first ++ second) := by
  rw [addedLines, addedLines, addedLines, hbetween, if_neg Bool.false_ne_true, List.nil_append,
    newRows_congr map_updateValue_loadedOnce, List.append_assoc,
    newRows_append_newRows h.left.comparable_source hlater]

/-- A copy of a source that has been loaded adds no line. -/
theorem addedLines_of_loadedOnce {between : Bytes}
    (h : Loadable header primaryKey updateKey keys column loaded source)
    (hbetween : between.isEmpty = false) :
    addedLines header column between (loadedOnce column loaded source) source = [] := by
  rw [addedLines, hbetween, if_neg Bool.false_ne_true, List.nil_append,
    newRows_congr map_updateValue_loadedOnce, newRows_of_loaded h.comparable_source]

end Loading

end Haulage
