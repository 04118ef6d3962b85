import Haulage.Proofs.Copy.Batches
import Haulage.Proofs.Copy.Columns
import Haulage.Proofs.Copy.Keys
import Haulage.Proofs.Run.Repeated

/-!
# Runs in batches

An incremental run with a limit loads the first rows that are newer than its target, and the same
run after it goes on from there. Each run reads back the update values that the runs before it
wrote, under whatever name and place the selection has left the update column, as long as it is
kept. The runs come to an end, and what they leave is what one run without a limit leaves exactly
when the update value changes wherever a batch ends: of two rows with one value, the one behind the
end of a batch is never newer than the target.

- `exists_kept_column`: the update column of a source in its target.
- `Repeats.files_first`, `Repeats.files_next`: what one of the runs leaves behind.
- `Repeats.filesAfter_succ`: what so many of them leave behind.
- `limited_eq_unlimited_iff`: all of them, compared with a run without a limit.
- `limited_ne_unlimited`: what makes the two differ.
-/

set_option autoImplicit false

namespace Haulage

open FileSystem Transfer Numeric

/-! ## Rows under a selection -/

/-- Without a selection there is no selector, and with one there is its selector. -/
theorem Copy.selectorFor_eq_ok_iff {o : RunOptions} {header : String}
    {selector : Option ColumnSelector} :
    Copy.selectorFor o header = .ok selector ↔ (o.selection = none ∧ selector = none) ∨
      ∃ selection s, o.selection = some selection ∧ ColumnSelector.make selection header = .ok s ∧
        selector = some s := by
  rw [Copy.selectorFor]
  cases o.selection with
  | none => simp [eq_comm]
  | some selection =>
      cases hmake : ColumnSelector.make selection header with
      | error f => simp [Except.map, hmake]
      | ok s => simp [Except.map, hmake, eq_comm]

/-- A column that the selection keeps has its values in the target as well. -/
theorem exists_kept_column {o : RunOptions} {header key : String} {column : Nat}
    {selector : Option ColumnSelector} (hselector : Copy.selectorFor o header = .ok selector)
    (hcolumn : columnIndex header key = .ok column) (hkeeps : ∀ s ∈ selector, column ∈ s.keep) :
    ∃ kept, columnIndex (Copy.project selector header) key = .ok kept ∧
      ∀ row, updateValue kept (Copy.project selector row) = updateValue column row := by
  rcases Copy.selectorFor_eq_ok_iff.mp hselector with ⟨-, rfl⟩ | ⟨selection, s, -, hmake, rfl⟩
  · exact ⟨column, hcolumn, fun _ => rfl⟩
  · have hmem := hkeeps s rfl
    obtain ⟨kept, hkept, hplace⟩ := ColumnSelector.columnIndex_apply hmake hcolumn hmem
    refine ⟨kept, hkept, fun row => ?_⟩
    rw [Copy.project, updateValue, s.trimmedFields_apply (List.ne_nil_of_mem hmem), fieldAt,
      List.getD_eq_getElem?_getD, List.getElem?_map, hplace]
    rfl

/-- The bytes of a target with some rows below a header, all of them as the selection leaves
them. -/
def tableOf (selector : Option ColumnSelector) (header : String) (rows : List String) : Bytes :=
  Utf8.encode (Lines.unlines (Copy.project selector header :: rows.map (Copy.project selector)))

section Table

variable {selector : Option ColumnSelector} {header : String} {rows : List String}

theorem tableOf_append (first second : List String) :
    tableOf selector header (first ++ second) = tableOf selector header first ++
      Utf8.encode (Lines.unlines (second.map (Copy.project selector))) := by
  rw [tableOf, tableOf, List.map_append, ← List.cons_append, Lines.encode_unlines_append]

theorem newline_not_mem_table (hlines : ∀ line ∈ header :: rows, '\n' ∉ line.toList) :
    ∀ line ∈ Copy.project selector header :: rows.map (Copy.project selector),
      '\n' ∉ line.toList := by
  intro line hline
  rw [← List.map_cons] at hline
  obtain ⟨line', hline', rfl⟩ := List.mem_map.mp hline
  exact Copy.newline_not_mem_project (hlines line' hline')

theorem holds_tableOf (hlines : ∀ line ∈ header :: rows, '\n' ∉ line.toList) :
    Holds (Copy.project selector header) (tableOf selector header rows)
      (rows.map fun row => Lines.readBack (Copy.project selector row)) := by
  have hholds : Holds (Copy.project selector header) (tableOf selector header rows)
      ([] ++ (rows.map (Copy.project selector)).map Lines.readBack) :=
    Holds.nothing.append_lines (newline_not_mem_table hlines)
  rw [List.map_map] at hholds
  exact hholds

theorem isEmpty_tableOf (selector : Option ColumnSelector) (header : String) (rows : List String) :
    (tableOf selector header rows).isEmpty = false := by
  have hlast : ([] ++ tableOf selector header rows).getLast? = some 0x0A :=
    Lines.getLast?_append_encode_unlines (.inr (List.cons_ne_nil _ _))
  exact isEmpty_of_getLast? hlast

/-- A target has one newline for its header and one for each of its rows. -/
theorem count_newline_tableOf (hlines : ∀ line ∈ header :: rows, '\n' ∉ line.toList) :
    (tableOf selector header rows).count 0x0A = rows.length + 1 := by
  rw [tableOf, Lines.count_newline_encode_unlines (newline_not_mem_table hlines), List.length_cons,
    List.length_map]

end Table

/-! ## One batch -/

/-- Rows that can be loaded in batches: they are in the order of their update values, and the
selection keeps the column of these. -/
structure Batched (o : RunOptions) (primaryKey updateKey header : String) (keys : List Nat)
    (column : Nat) (selector : Option ColumnSelector) (rows : List String) : Prop where
  loadable : Loadable header primaryKey updateKey keys column [] rows
  ordered : InOrder column rows
  selected : Copy.selectorFor o header = .ok selector
  keeps : ∀ s ∈ selector, column ∈ s.keep

/-- The lines of a source for runs in batches: none at all, or a header and rows. -/
inductive Batchable (o : RunOptions) (primaryKey updateKey : String) (column : Nat)
    (rows : List String) : List String → Prop where
  | nothing : rows = [] → Batchable o primaryKey updateKey column rows []
  | rows {header : String} {keys : List Nat} {selector : Option ColumnSelector} :
      Batched o primaryKey updateKey header keys column selector rows →
      Batchable o primaryKey updateKey column rows (header :: rows)

namespace Load

variable {l : Load} {primaryKey updateKey header : String} {lines loaded source : List String}
  {keys : List Nat} {column : Nat} {selector : Option ColumnSelector} {fs₁ : FileSystem}
  {d : Destination}

namespace Repeats

/-- The first run leaves the header and the first rows. -/
theorem files_first (h : l.Repeats primaryKey updateKey (header :: source) fs₁ d)
    (hselector : Copy.selectorFor l.options header = .ok selector)
    (hrows : Loadable header primaryKey updateKey keys column [] source) :
    l.out.result = .ok () ∧ l.out.files = fs₁.put d.place
      (.file (tableOf selector header (Copy.upTo l.options.limit 0 source))) := by
  have hfresh : CopyPlan.fresh = ⟨!([] : Bytes).isEmpty, watermarkOf column []⟩ := rfl
  obtain ⟨c, hc, hsucceeds, hwritten⟩ : ∃ c,
      Copy.lines l.options .fresh ⟨l.source, (header :: source).map .ok, none⟩ = c ∧
        c.failure = none ∧
          c.written = addedUnder selector l.options.limit header column [] [] source := by
    rw [hfresh]
    exact lines_of_loadable hrows hselector h.primaryKey h.updateKey l.source
  have hout := h.out_first hc hsucceeds
  rwa [Copied.text_eq_unlines, hwritten, addedUnder, newRows_nil] at hout

/-- A later run leaves what was there and the first of the rows that are newer. -/
theorem files_next (h : l.Repeats primaryKey updateKey (header :: source) fs₁ d)
    (hb : Batched l.options primaryKey updateKey header keys column selector source)
    (hloaded : loaded ⊆ source) :
    (l.onFiles (fs₁.put d.place (.file (tableOf selector header loaded)))).out.result = .ok () ∧
      (l.onFiles (fs₁.put d.place (.file (tableOf selector header loaded)))).out.files =
        fs₁.put d.place (.file (tableOf selector header
          (loaded ++ Copy.upTo l.options.limit 0 (newRows column loaded source)))) := by
  obtain ⟨kept, hkept, hvalue⟩ := exists_kept_column hb.selected hb.loadable.updateColumn hb.keeps
  have hbefore := h.before_put (tableOf selector header loaded)
  have hlines : ∀ line ∈ header :: loaded, '\n' ∉ line.toList :=
    fun line hline => h.reads.newline_not_mem line (List.cons_subset_cons header hloaded hline)
  have hholds : Holds (Copy.project selector header)
      (l.onFiles (fs₁.put d.place (.file (tableOf selector header loaded)))).before
      (loaded.map fun row => Lines.readBack (Copy.project selector row)) := by
    rw [hbefore]
    exact holds_tableOf hlines
  -- what is read back has the update values of the rows that were loaded
  have hvalues : (loaded.map fun row => Lines.readBack (Copy.project selector row)).map
      (updateValue kept) = loaded.map (updateValue column) := by
    simp only [List.map_map, Function.comp_def, updateValue_readBack, hvalue]
  obtain ⟨hresult, hfiles⟩ := (h.starts_put _).files_out (h.reads_put _) (h.makeParent_put _)
    (destination_put_destination h.destination _) hb.selected hholds hkept hvalues
    (hb.loadable.of_subset hloaded)
  refine ⟨hresult, hfiles.trans ?_⟩
  rw [put_put, hbefore, addedUnder, isEmpty_tableOf, if_neg Bool.false_ne_true, List.nil_append,
    tableOf_append]
  rfl

/-! ## One batch after the other -/

/-- What is left after so many runs, each of which has succeeded. -/
theorem filesAfter_succ (h : l.Repeats primaryKey updateKey (header :: source) fs₁ d)
    (hb : Batched l.options primaryKey updateKey header keys column selector source) {n : UInt64}
    (hlimit : l.options.limit = some n) (k : Nat) :
    (l.again k).out.result = .ok () ∧ l.filesAfter (k + 1) =
      fs₁.put d.place
        (.file (tableOf selector header (loadedBy column n.toNat source (k + 1)))) := by
  -- the first run finds no target, and each later one finds what the runs before it have left
  induction k with
  | zero =>
      obtain ⟨hresult, hfiles⟩ := h.files_first hb.selected hb.loadable
      refine ⟨hresult, hfiles.trans ?_⟩
      rw [hlimit, loadedBy_succ, leftBy_zero]
      rfl
  | succ k ih =>
      obtain ⟨hresult, hfiles⟩ := h.files_next hb (loadedBy_subset column n.toNat source (k + 1))
      rw [filesAfter_eq_out, again, ih.2]
      refine ⟨hresult, hfiles.trans ?_⟩
      rw [hlimit]
      rfl

/-- A run without a limit leaves all rows. -/
theorem files_unlimited (h : l.Repeats primaryKey updateKey (header :: source) fs₁ d)
    (hselector : Copy.selectorFor l.options header = .ok selector)
    (hrows : Loadable header primaryKey updateKey keys column [] source) :
    l.unlimited.out.result = .ok () ∧
      l.unlimited.out.files = fs₁.put d.place (.file (tableOf selector header source)) :=
  h.unlimited.files_first hselector hrows

/-- Of a source without a header every run leaves an empty target. -/
theorem filesAfter_succ_of_nothing (h : l.Repeats primaryKey updateKey [] fs₁ d) (k : Nat) :
    (l.again k).out.result = .ok () ∧ l.filesAfter (k + 1) = fs₁.put d.place (.file []) := by
  induction k with
  | zero => exact h.out_first rfl rfl
  | succ k ih =>
      have hplan : CopyPlan.ofLines l.target l.options (Lines.ofBytes []) = .ok .fresh := rfl
      rw [filesAfter_eq_out, again, ih.2]
      exact h.out_next hplan rfl rfl

end Repeats

/-! ## Batches and the whole -/

/-- A run other than the first one adds nothing when those before it have left nothing. -/
theorem Repeats.addsNothing_iff (h : l.Repeats primaryKey updateKey (header :: source) fs₁ d)
    (hb : Batched l.options primaryKey updateKey header keys column selector source) {n : UInt64}
    (hlimit : l.options.limit = some n) (hn : 0 < n.toNat) (k : Nat) :
    l.AddsNothing k ↔ k ≠ 0 ∧ leftBy column n.toNat source k = [] := by
  have hlines : ∀ k, ∀ line ∈ header :: loadedBy column n.toNat source k, '\n' ∉ line.toList :=
    fun k line hline => h.reads.newline_not_mem line
      (List.cons_subset_cons header (loadedBy_subset column n.toNat source k) hline)
  have hafter := fun k => (h.filesAfter_succ hb hlimit k).2
  cases k with
  | zero =>
      -- the first run adds the header
      rw [h.addsNothing_zero_iff (hafter 0)]
      refine iff_of_false (fun hnil => ?_) fun hno => hno.1 rfl
      have hfull := isEmpty_tableOf selector header (loadedBy column n.toNat source (0 + 1))
      rw [hnil] at hfull
      cases hfull
  | succ k =>
      rw [h.addsNothing_iff_of_put (hafter k) (hafter (k + 1))]
      constructor
      · -- a target that has not grown has as many newlines as before
        intro heq
        refine ⟨Nat.succ_ne_zero k, ?_⟩
        have hcount := congrArg (List.count 0x0A) heq
        rw [count_newline_tableOf (hlines _), count_newline_tableOf (hlines _),
          loadedBy_succ column n.toNat source (k + 1), List.length_append,
            List.length_take] at hcount
        exact List.eq_nil_of_length_eq_zero (by omega)
      · rintro ⟨-, hend⟩
        rw [loadedBy_succ column n.toNat source (k + 1), hend, List.take_nil, List.append_nil]

/-- What is left when nothing is added any more, of a source with a header. -/
theorem Repeats.content_of_addsNothing
    (h : l.Repeats primaryKey updateKey (header :: source) fs₁ d)
    (hb : Batched l.options primaryKey updateKey header keys column selector source) {n : UInt64}
    (hlimit : l.options.limit = some n) (hn : 0 < n.toNat) {k : Nat} (hnothing : l.AddsNothing k) :
    ∃ content, (l.filesAfter (k + 1)).readFile l.target = .ok content ∧
      (content = tableOf selector header source ↔ ChangesBetween column n.toNat source) := by
  have hcomparable := hb.loadable.comparable_source
  obtain ⟨-, hend⟩ := (h.addsNothing_iff hb hlimit hn k).mp hnothing
  have hend' := leftBy_succ_eq_nil hcomparable hend
  refine ⟨tableOf selector header (loadedBy column n.toNat source (k + 1)), ?_, ?_⟩
  · rw [(h.filesAfter_succ hb hlimit k).2]
    exact h.readFile_put _
  · rw [← length_loadedBy_eq_iff hcomparable hb.ordered hend']
    constructor
    · -- targets with the same bytes have as many rows
      intro heq
      have hlines := h.reads.newline_not_mem
      have hcount := congrArg (List.count 0x0A) heq
      rw [count_newline_tableOf hlines, count_newline_tableOf fun line hline =>
        hlines line
          (List.cons_subset_cons header (loadedBy_subset column _ source _) hline)] at hcount
      exact Nat.succ.inj hcount
    · intro hlength
      rw [loadedBy_eq_self hcomparable hend' hlength]

/-- Runs with a limit, repeated until one adds nothing, leave what one run without a limit leaves
exactly when the update value changes wherever a batch ends. -/
theorem limited_eq_unlimited_iff {rows : List String} {n : UInt64}
    (h : l.Repeats primaryKey updateKey lines fs₁ d)
    (hbatches : Batchable l.options primaryKey updateKey column rows lines)
    (hlimit : l.options.limit = some n) (hn : 0 < n) :
    (∀ k, (l.again k).out.result = .ok ()) ∧ (∃ k, l.AddsNothing k) ∧
      l.unlimited.out.result = .ok () ∧
      ∃ whole, l.unlimited.out.files.readFile l.target = .ok whole ∧
        ∀ k, l.AddsNothing k → ∃ content, (l.filesAfter (k + 1)).readFile l.target = .ok content ∧
          (content = whole ↔ ChangesBetween column n.toNat rows) := by
  have hsize : 0 < n.toNat := UInt64.lt_iff_toNat_lt.mp hn
  -- where the source has no rows to load, nothing changes and there is no boundary to split
  cases hbatches with
  | nothing hrows =>
      obtain ⟨hresult, hfiles⟩ := h.unlimited.out_first rfl rfl
      have hafter := fun k => h.filesAfter_succ_of_nothing k
      refine ⟨fun k => (hafter k).1, ⟨0, ?_⟩, hresult, [], ?_, fun k _ => ⟨[], ?_, ?_⟩⟩
      · exact (h.addsNothing_zero_iff (hafter 0).2).mpr rfl
      · rw [hfiles]
        exact h.readFile_put []
      · rw [(hafter k).2]
        exact h.readFile_put []
      · refine iff_of_true rfl ?_
        rintro k front last next back hsplit
        rw [hrows] at hsplit
        simp at hsplit
  | rows hb =>
      obtain ⟨hresult, hfiles⟩ := h.files_unlimited hb.selected hb.loadable
      refine ⟨fun k => (h.filesAfter_succ hb hlimit k).1, ?_, hresult, _, ?_,
        fun k hnothing => h.content_of_addsNothing hb hlimit hsize hnothing⟩
      · have hcomparable := hb.loadable.comparable_source
        obtain ⟨k, hend⟩ := exists_leftBy_eq_nil hcomparable hsize
        exact ⟨k + 1, (h.addsNothing_iff hb hlimit hsize (k + 1)).mpr
          ⟨Nat.succ_ne_zero k, leftBy_succ_eq_nil hcomparable hend⟩⟩
      · rw [hfiles]
        exact h.readFile_put _

/-! ## Runs side by side -/

/-- An incremental run with a limit from a file of some lines to a file that is not there. -/
def batchLoad (lines : List String) (primaryKey : String) (selection : Option String) (n : UInt64) :
    Load where
  surroundings := .quiet
  registry := .empty
  options :=
    { RunOptions.between "in.csv" "out.csv" .incremental with
      selection := selection
      limit := some n
      primaryKey := some primaryKey
      updateKey := some "at" }
  files := ofFiles [("in.csv", Utf8.encode (Lines.unlines lines))]
  context := []
  source := ⟨"in.csv"⟩
  target := ⟨"out.csv"⟩

theorem repeats_batchLoad {lines : List String}
    (hlines : ∀ line ∈ lines, '\n' ∉ line.toList ∧ line.toList.getLast? ≠ some '\r')
    (primaryKey : String) (selection : Option String) (n : UInt64) :
    (batchLoad lines primaryKey selection n).Repeats primaryKey "at" lines
      (ofFiles [("in.csv", Utf8.encode (Lines.unlines lines))]) ⟨["out.csv"], []⟩ := by
  have hin : Location.read "in.csv" = .file ⟨"in.csv"⟩ := by decide +kernel
  have hout : Location.read "out.csv" = .file ⟨"out.csv"⟩ := by decide +kernel
  have hplain : IsPlain "out.csv" := by decide +kernel
  have hbare : Path.parent? ⟨"out.csv"⟩ = some ⟨""⟩ := by decide +kernel
  have hne : pathOf ["in.csv"] ≠ pathOf ["out.csv"] := by decide +kernel
  have hends : (batchLoad lines primaryKey selection n).HasEnds
      (ofFiles [("in.csv", Utf8.encode (Lines.unlines lines))]) :=
    ⟨_, Task.ofOptions_of_endpoints rfl ⟨rfl, rfl, rfl⟩ (Registry.endpoint_path hin) rfl
      (Registry.endpoint_path hout), rfl, rfl⟩
  exact {
    task := hends
    incremental := rfl
    primaryKey := rfl
    updateKey := rfl
    uncancelled := rfl
    absent := find_of_isPlain_of_free hplain rfl
    parents := makeParent_of_inPlace (parentInPlace_of_bare hbare)
    settled := hends
    destination := @destination_of_isPlain _ _ hplain none rfl
    fresh := rfl
    source := ⟨_, _, find_of_isPlain (by decide +kernel) rfl, Lines.ofBytes_encode_unlines hlines,
      hne⟩ }

theorem loadable_of_numbers {header primaryKey : String} {keys : List Nat} {column : Nat}
    {rows : List String} (hkeys : RowFilter.readKeyColumns header (some primaryKey) = .ok keys)
    (hcolumn : columnIndex header "at" = .ok column)
    (hnumeric : ∀ row ∈ rows, ∃ x, readLiteral? (updateValue column row) = some x ∧ x ≠ .nan)
    (hunique : (rows.map (RowFilter.rowKey keys)).Nodup) :
    Loadable header primaryKey "at" keys column [] rows where
  keyColumns := hkeys
  updateColumn := hcolumn
  valued row hrow := by
    intro hempty
    obtain ⟨x, hx, -⟩ := hnumeric row hrow
    rw [hempty] at hx
    cases hx
  comparable := .inl fun v hv => by
    obtain ⟨row, hrow, rfl⟩ := List.mem_map.mp hv
    exact hnumeric row hrow
  unique _ := hunique

/-- Three rows in batches of two, with the update column moved to the front. -/
def pairedLoad : Load :=
  batchLoad ["id,at", "1,5", "2,5", "3,7"] "id" (some "at, id") 2

/-- Rows that tie within a batch are loaded like any others. -/
theorem limited_eq_unlimited_pairedLoad :
    ∃ k, pairedLoad.AddsNothing k ∧
      (pairedLoad.filesAfter (k + 1)).readFile pairedLoad.target =
        .ok (Utf8.encode (Lines.unlines ["at,id", "5,1", "5,2", "7,3"])) ∧
      pairedLoad.unlimited.out.files.readFile pairedLoad.target =
        .ok (Utf8.encode (Lines.unlines ["at,id", "5,1", "5,2", "7,3"])) := by
  have h : pairedLoad.Repeats "id" "at" ["id,at", "1,5", "2,5", "3,7"] _ _ :=
    repeats_batchLoad (by decide +kernel) "id" (some "at, id") 2
  have hselector : Copy.selectorFor pairedLoad.options "id,at" = .ok (some ⟨[1, 0]⟩) := by rfl
  have hrows : Loadable "id,at" "id" "at" [0] 1 [] ["1,5", "2,5", "3,7"] :=
    loadable_of_numbers rfl rfl (by decide +kernel) (by decide +kernel)
  have hb : Batched pairedLoad.options "id" "at" "id,at" [0] 1 (some ⟨[1, 0]⟩)
      ["1,5", "2,5", "3,7"] := ⟨hrows, by decide +kernel, hselector, by simp⟩
  -- the only batch that is followed by a row ends behind the two rows with one value
  have hchange : ChangesBetween 1 (2 : UInt64).toNat ["1,5", "2,5", "3,7"] := by
    rintro k front last next back hsplit hplace
    rcases front with _ | ⟨first, _ | ⟨second, more⟩⟩
    · have htwo : (2 : UInt64).toNat = 2 := rfl
      rw [List.length_nil, htwo] at hplace
      omega
    · cases hsplit
      decide +kernel
    · have hlength := congrArg List.length hsplit
      simp only [List.length_append, List.length_cons, List.length_nil] at hlength
      omega
  obtain ⟨-, ⟨k, hnothing⟩, -, whole, hwhole, hafter⟩ :=
    limited_eq_unlimited_iff h (.rows hb) rfl (by decide)
  obtain ⟨content, hcontent, hiff⟩ := hafter k hnothing
  have htable : tableOf (some ⟨[1, 0]⟩) "id,at" ["1,5", "2,5", "3,7"] =
      Utf8.encode (Lines.unlines ["at,id", "5,1", "5,2", "7,3"]) := by decide +kernel
  have hall : pairedLoad.unlimited.out.files.readFile pairedLoad.target =
      .ok (Utf8.encode (Lines.unlines ["at,id", "5,1", "5,2", "7,3"])) := by
    rw [(h.files_unlimited hselector hrows).2, htable]
    exact h.readFile_put _
  have heq : content = whole := hiff.mpr hchange
  exact ⟨k, hnothing, by rw [← hall, hwhole, ← heq, hcontent], hall⟩

/-! ### Ties, columns and keys -/

/-- Rows whose update values are numbers that never go down, and of which no two share
their key fields. -/
structure IsSequence (keys : List Nat) (column : Nat) (rows : List String) : Prop where
  numeric : ∀ row ∈ rows, ∃ x, readLiteral? (updateValue column row) = some x ∧ x ≠ .nan
  ordered : InOrder column rows
  distinct : (rows.map (RowFilter.keyFields keys)).Nodup

/-- A run that is the first one to add nothing has been repeated so many times before, and leaves
other lines than a run without a limit. -/
structure LeavesOther (l : Load) (k : Nat) (few all : List String) : Prop where
  addsNothing : l.AddsNothing k
  first : ∀ j < k, ¬l.AddsNothing j
  limited : (l.filesAfter (k + 1)).readFile l.target = .ok (Utf8.encode (Lines.unlines few))
  whole : l.unlimited.out.files.readFile l.target = .ok (Utf8.encode (Lines.unlines all))
  ne : Utf8.encode (Lines.unlines few) ≠ Utf8.encode (Lines.unlines all)

/-- Two rows with one update value, in batches of one row. -/
def tiedLoad : Load :=
  batchLoad ["id,at", "1,5", "2,5"] "id" none 1

/-- The row behind the end of a batch that ties with the row in front of it is lost. -/
theorem leavesOther_tiedLoad :
    tiedLoad.LeavesOther 1 ["id,at", "1,5"] ["id,at", "1,5", "2,5"] := by
  have h : tiedLoad.Repeats "id" "at" ["id,at", "1,5", "2,5"] _ _ :=
    repeats_batchLoad (by decide +kernel) "id" none 1
  have hselector : Copy.selectorFor tiedLoad.options "id,at" = .ok none := rfl
  have hrows : Loadable "id,at" "id" "at" [0] 1 [] ["1,5", "2,5"] :=
    loadable_of_numbers rfl rfl (by decide +kernel) (by decide +kernel)
  have hb : Batched tiedLoad.options "id" "at" "id,at" [0] 1 none ["1,5", "2,5"] :=
    ⟨hrows, by decide +kernel, hselector, nofun⟩
  have hends := h.addsNothing_iff hb rfl (by decide)
  have hloaded : loadedBy 1 (1 : UInt64).toNat ["1,5", "2,5"] (1 + 1) = ["1,5"] := by decide +kernel
  refine ⟨(hends 1).mpr ⟨Nat.one_ne_zero, by decide +kernel⟩, ?_, ?_, ?_, by decide +kernel⟩
  · intro j hj hnothing
    exact ((hends j).mp hnothing).1 (Nat.lt_one_iff.mp hj)
  · rw [(h.filesAfter_succ hb rfl 1).2, hloaded]
    exact h.readFile_put _
  · rw [(h.files_unlimited hselector hrows).2]
    exact h.readFile_put _

/-- Rows in order, of which the selection drops the update column. -/
def droppedLoad : Load :=
  batchLoad ["id,at", "1,5", "2,7"] "id" (some "id") 1

/-- A target without the update column cannot be planned, so the second run fails. -/
theorem leavesOther_droppedLoad : droppedLoad.LeavesOther 1 ["id", "1"] ["id", "1", "2"] := by
  have h : droppedLoad.Repeats "id" "at" ["id,at", "1,5", "2,7"] _ _ :=
    repeats_batchLoad (by decide +kernel) "id" (some "id") 1
  have hselector : Copy.selectorFor droppedLoad.options "id,at" = .ok (some ⟨[0]⟩) := by rfl
  have hrows : Loadable "id,at" "id" "at" [0] 1 [] ["1,5", "2,7"] :=
    loadable_of_numbers rfl rfl (by decide +kernel) (by decide +kernel)
  have htable : tableOf (some ⟨[0]⟩) "id,at" (Copy.upTo (some 1) 0 ["1,5", "2,7"]) =
      Utf8.encode (Lines.unlines ["id", "1"]) := by decide +kernel
  have hwhole : tableOf (some ⟨[0]⟩) "id,at" ["1,5", "2,7"] =
      Utf8.encode (Lines.unlines ["id", "1", "2"]) := by decide +kernel
  have hone : droppedLoad.filesAfter 1 = droppedLoad.files.put ["out.csv"]
      (.file (Utf8.encode (Lines.unlines ["id", "1"]))) := by
    rw [← htable]
    exact (h.files_first hselector hrows).2
  obtain ⟨f, hplan⟩ : ∃ f, CopyPlan.ofLines droppedLoad.target droppedLoad.options
      (Lines.ofBytes (Utf8.encode (Lines.unlines ["id", "1"]))) = .error f := by
    rw [Lines.ofBytes_encode_unlines (by decide +kernel)]
    exact ⟨_, rfl⟩
  have htwo : droppedLoad.filesAfter 2 = droppedLoad.files.put ["out.csv"]
      (.file (Utf8.encode (Lines.unlines ["id", "1"]))) := by
    rw [filesAfter_eq_out, again, hone]
    exact h.out_refused hplan
  refine ⟨(h.addsNothing_iff_of_put hone htwo).mpr rfl, ?_, ?_, ?_, by decide +kernel⟩
  · intro j hj hnothing
    rw [Nat.lt_one_iff.mp hj] at hnothing
    exact absurd ((h.addsNothing_zero_iff hone).mp hnothing) (by decide +kernel)
  · rw [htwo]
    exact h.readFile_put _
  · rw [(h.files_unlimited hselector hrows).2, hwhole]
    exact h.readFile_put _

/-- Two rows in order, whose key fields differ but are joined to the same key. -/
def joinedLoad : Load :=
  batchLoad ["x,y,at", "a\x1fb,c,1", "a,b\x1fc,2"] "x,y" none 1

/-- The filter of these rows with a watermark. -/
def joinedFilter (mark : Option String) : RowFilter :=
  ⟨[0, 1], mark.map (UpdateTest.mk 2), ∅⟩

/-- Without a watermark both rows are new, but the second one comes with the key of the first
one. -/
theorem passing_joinedFilter_none :
    (joinedFilter none).passing ["a\x1fb,c,1", "a,b\x1fc,2"] = ["a\x1fb,c,1"] := by
  have hkeys : (joinedFilter none).keyColumns ≠ [] := List.cons_ne_nil _ _
  have hadmits : (joinedFilter none).Admits [] "a\x1fb,c,1" :=
    (RowFilter.admits_iff hkeys rfl).mpr ⟨rfl, by simp⟩
  have hdrops : ¬(joinedFilter none).Admits ["a\x1fb,c,1"] "a,b\x1fc,2" := fun hno =>
    ((RowFilter.admits_iff hkeys rfl).mp hno).2 _ (List.mem_singleton_self _) rfl
      (by decide +kernel)
  have hsplit : ["a\x1fb,c,1", "a,b\x1fc,2"] = ["a\x1fb,c,1"] ++ ["a,b\x1fc,2"] := rfl
  rw [hsplit, RowFilter.passing_append, RowFilter.passing_singleton_of_not_admits hdrops,
    List.append_nil]
  exact RowFilter.passing_singleton_of_admits hadmits

/-- Behind the first row only the second one is new. -/
theorem passing_joinedFilter_one :
    (joinedFilter (some "1")).passing ["a\x1fb,c,1", "a,b\x1fc,2"] = ["a,b\x1fc,2"] := by
  have hadmits : (joinedFilter (some "1")).Admits [] "a,b\x1fc,2" :=
    (RowFilter.admits_iff (List.cons_ne_nil _ _) rfl).mpr ⟨by decide +kernel, by simp⟩
  have hold : (joinedFilter (some "1")).isNewer (trimmedFields "a\x1fb,c,1") = false := by
    decide +kernel
  have hskip : (joinedFilter (some "1")).passing ([] ++ "a\x1fb,c,1" :: ["a,b\x1fc,2"]) =
      (joinedFilter (some "1")).passing ([] ++ ["a,b\x1fc,2"]) :=
    RowFilter.passing_append_of_older hold _
  have hlast := RowFilter.passing_singleton_of_admits hadmits
  rw [RowFilter.after, List.foldl_nil] at hlast
  rw [List.nil_append, List.nil_append, hlast] at hskip
  exact hskip

/-- Behind the second row none is. -/
theorem passing_joinedFilter_two :
    (joinedFilter (some "2")).passing ["a\x1fb,c,1", "a,b\x1fc,2"] = [] := by
  have hfirst : (joinedFilter (some "2")).isNewer (trimmedFields "a\x1fb,c,1") = false := by
    decide +kernel
  have hsecond : (joinedFilter (some "2")).isNewer (trimmedFields "a,b\x1fc,2") = false := by
    decide +kernel
  simp only [RowFilter.passing, RowFilter.pass_of_older hfirst, RowFilter.pass_of_older hsecond]

theorem leavesOther_joinedLoad :
    joinedLoad.LeavesOther 2 ["x,y,at", "a\x1fb,c,1", "a,b\x1fc,2"] ["x,y,at", "a\x1fb,c,1"] := by
  have h : joinedLoad.Repeats "x,y" "at" ["x,y,at", "a\x1fb,c,1", "a,b\x1fc,2"] _ _ :=
    repeats_batchLoad (by decide +kernel) "x,y" none 1
  have hselector : Copy.selectorFor joinedLoad.options "x,y,at" = .ok none := rfl
  have hfilter : ∀ mark, Copy.filterFor joinedLoad.options ⟨true, mark⟩ "x,y,at" =
      .ok (joinedFilter mark) := fun mark => RowFilter.make_eq_ok rfl rfl
  have hfresh : Copy.filterFor joinedLoad.options .fresh "x,y,at" = .ok (joinedFilter none) :=
    RowFilter.make_eq_ok rfl rfl
  have hwhole : joinedLoad.unlimited.out.files = joinedLoad.files.put ["out.csv"]
      (.file (Utf8.encode (Lines.unlines ["x,y,at", "a\x1fb,c,1"]))) := by
    have hout := (h.unlimited.out_first (Copy.lines_map_ok hselector hfresh) rfl).2
    rw [Copied.text_eq_unlines, passing_joinedFilter_none] at hout
    exact hout
  have hone : joinedLoad.filesAfter 1 = joinedLoad.files.put ["out.csv"]
      (.file (Utf8.encode (Lines.unlines ["x,y,at", "a\x1fb,c,1"]))) := by
    have hout := (h.out_first (Copy.lines_map_ok hselector hfresh) rfl).2
    rw [Copied.text_eq_unlines, passing_joinedFilter_none] at hout
    exact hout
  have hplan : ∀ rows mark, (∀ row ∈ rows, '\n' ∉ row.toList ∧ row.toList.getLast? ≠ some '\r') →
      watermarkOf 2 rows = mark → CopyPlan.ofLines joinedLoad.target joinedLoad.options
        (Lines.ofBytes (Utf8.encode (Lines.unlines ("x,y,at" :: rows)))) = .ok ⟨true, mark⟩ := by
    rintro rows mark hrows rfl
    rw [Lines.ofBytes_encode_unlines (List.forall_mem_cons.mpr ⟨by decide +kernel, hrows⟩)]
    exact CopyPlan.ofLines_map_ok h.incremental h.updateKey rfl _ _
  have htwo : joinedLoad.filesAfter 2 = joinedLoad.files.put ["out.csv"]
      (.file (Utf8.encode (Lines.unlines ["x,y,at", "a\x1fb,c,1", "a,b\x1fc,2"]))) := by
    have hout :=
      (h.out_next (hplan ["a\x1fb,c,1"] (some "1") (by decide +kernel) (by decide +kernel))
        (Copy.lines_map_ok hselector (hfilter (some "1"))) rfl).2
    rw [Copied.text_eq_unlines, passing_joinedFilter_one] at hout
    rw [filesAfter_eq_out, again, hone]
    exact hout
  have hthree : joinedLoad.filesAfter 3 = joinedLoad.files.put ["out.csv"]
      (.file (Utf8.encode (Lines.unlines ["x,y,at", "a\x1fb,c,1", "a,b\x1fc,2"]))) := by
    have hout := (h.out_next (hplan ["a\x1fb,c,1", "a,b\x1fc,2"] (some "2") (by decide +kernel)
      (by decide +kernel)) (Copy.lines_map_ok hselector (hfilter (some "2"))) rfl).2
    rw [Copied.text_eq_unlines, passing_joinedFilter_two] at hout
    rw [filesAfter_eq_out, again, htwo]
    exact hout
  refine ⟨(h.addsNothing_iff_of_put htwo hthree).mpr rfl, ?_, ?_, ?_, by decide +kernel⟩
  · intro j hj hnothing
    rcases Nat.lt_succ_iff_lt_or_eq.mp hj with hlt | rfl
    · rw [Nat.lt_one_iff.mp hlt] at hnothing
      exact absurd ((h.addsNothing_zero_iff hone).mp hnothing) (by decide +kernel)
    · exact absurd ((h.addsNothing_iff_of_put hone htwo).mp hnothing) (by decide +kernel)
  · rw [hthree]
    exact h.readFile_put _
  · rw [hwhole]
    exact h.readFile_put _

/-- Rows in order with different keys are loaded otherwise in batches than as a whole when two of
them tie behind the end of a batch, when the selection drops the update column, and when key fields
that differ are joined to the same key. -/
theorem limited_ne_unlimited :
    (IsSequence [0] 1 ["1,5", "2,5"] ∧
      tiedLoad.LeavesOther 1 ["id,at", "1,5"] ["id,at", "1,5", "2,5"]) ∧
    (IsSequence [0] 1 ["1,5", "2,7"] ∧
      droppedLoad.LeavesOther 1 ["id", "1"] ["id", "1", "2"]) ∧
    (IsSequence [0, 1] 2 ["a\x1fb,c,1", "a,b\x1fc,2"] ∧
      joinedLoad.LeavesOther 2 ["x,y,at", "a\x1fb,c,1", "a,b\x1fc,2"] ["x,y,at",
        "a\x1fb,c,1"]) := by
  refine ⟨⟨?_, leavesOther_tiedLoad⟩, ⟨?_, leavesOther_droppedLoad⟩, ⟨?_, leavesOther_joinedLoad⟩⟩
  · exact ⟨by decide +kernel, by decide +kernel, by decide +kernel⟩
  · exact ⟨by decide +kernel, by decide +kernel, by decide +kernel⟩
  · exact ⟨by decide +kernel, by decide +kernel, by decide +kernel⟩

end Load

end Haulage
