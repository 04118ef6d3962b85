import Haulage.Discovery
import Haulage.Proofs.Copy.Selection
import Haulage.Proofs.Copy.Stopping
import Haulage.Proofs.Files.Roads
import Haulage.Proofs.Files.TextLines
import Haulage.Proofs.Text.Words

/-!
# Columns that discovery lists

Discovery cuts its first line out of the bytes of a file and trims it; a copy reads its header as a
line of text. Both see the same fields. So each name that is listed means a column of the header,
and all of them together select the columns that have names.

- `Lines.raw_eq_cons`, `Lines.exists_ofBytes_of_text`: the first line as both of them cut it.
- `Discovery.columns_eq_picks`: the names listed are those that the header would pick as a
  selection.
- `ColumnSelector.picks_join`: names that are joined are picked again.
- `columns_usable`: what the names listed for a file are good for when it is copied.
- `blank_header_unmatched`: a header that lists no name, and of which nothing less than
  all can be selected.
-/

set_option autoImplicit false

namespace Haulage

open Haulage.Text

variable {fs : FileSystem} {path : Path} {bytes : Bytes} {header : String}

/-! ## The first line -/

theorem Discovery.firstLine_of_newline {body : Bytes} (h : (0x0A : UInt8) ∉ body) (rest : Bytes) :
    firstLine (body ++ 0x0A :: rest) = body ++ [0x0A] := by
  have hbody : ∀ b ∈ body, (decide (b ≠ 0x0A)) = true := by
    intro b hb
    exact decide_eq_true fun e => h (e ▸ hb)
  rw [firstLine, List.dropWhile_append_of_pos hbody, List.takeWhile_append_of_pos hbody]
  simp

theorem Discovery.firstLine_of_open (h : (0x0A : UInt8) ∉ bytes) : firstLine bytes = bytes := by
  have hbytes : ∀ b ∈ bytes, (decide (b ≠ 0x0A)) = true := by
    intro b hb
    exact decide_eq_true fun e => h (e ▸ hb)
  have hnone : (bytes ++ []).dropWhile (· ≠ 0x0A) = [].dropWhile (· ≠ 0x0A) :=
    List.dropWhile_append_of_pos hbytes
  rw [List.append_nil, List.dropWhile_nil] at hnone
  rw [firstLine, hnone]

/-- The first of the lines that a copy reads is cut where discovery cuts it. -/
theorem Lines.raw_eq_cons (hne : bytes ≠ []) :
    ∃ more, Lines.raw bytes = Discovery.firstLine bytes :: more := by
  by_cases hnewline : (0x0A : UInt8) ∈ bytes
  · obtain ⟨body, rest, rfl, hbody⟩ := List.eq_append_cons_of_mem hnewline
    refine ⟨Lines.raw rest, ?_⟩
    rw [Discovery.firstLine_of_newline hbody, List.append_cons, Lines.raw_append (.inr (by simp)),
      Lines.raw_append_newline hbody]
    rfl
  · exact ⟨[], by rw [Lines.raw_of_open hnewline hne, Discovery.firstLine_of_open hnewline]⟩

/-- A copy reads a header from a first line that is a text. -/
theorem Lines.exists_ofBytes_of_text {text : String} (hne : bytes ≠ [])
    (htext : Utf8.decode (Discovery.firstLine bytes) = .ok text) :
    ∃ header more, Lines.ofBytes bytes = .ok header :: more := by
  obtain ⟨more, hraw⟩ := Lines.raw_eq_cons hne
  rw [Utf8.decode] at htext
  cases hdecode : Utf8.decodeChars (Discovery.firstLine bytes) with
  | error flaw =>
      rw [hdecode] at htext
      cases htext
  | ok chars =>
      refine ⟨String.ofList (Lines.dropEnd chars), more.map Lines.ofRaw, ?_⟩
      rw [Lines.ofBytes, hraw, List.map_cons, Lines.ofRaw, hdecode]

/-! ## The names listed -/

theorem trimmedFields_trimEnd (s : String) : trimmedFields (trimEnd s) = trimmedFields s := by
  obtain ⟨blanks, hblanks, hsplit⟩ := exists_eq_trimEndChars_append s.toList
  rw [trimEnd, ← trimmedFields_append_blanks hblanks, ← hsplit, String.ofList_toList]

/-- The names that discovery lists for a file are those that its header would pick as a
selection. -/
theorem Discovery.columns_eq_picks {more : List (Except LineFault String)}
    (hopen : fs.openToRead path = .ok (.content bytes))
    (hlines : Lines.ofBytes bytes = .ok header :: more) :
    columns fs path = ColumnSelector.picks header := by
  have hne : bytes ≠ [] := by
    rintro rfl
    cases hlines
  obtain ⟨rest, hraw⟩ := Lines.raw_eq_cons hne
  rw [Lines.ofBytes, hraw, List.map_cons] at hlines
  have hheader : Lines.ofRaw (firstLine bytes) = .ok header := (List.cons.inj hlines).1
  rw [Lines.ofRaw] at hheader
  split at hheader
  · rename_i text htext
    cases hheader
    have hcolumns : columns fs path = columnsOfLine (firstLine bytes) := by
      rw [columns, FileSystem.readFile, hopen]
    rw [hcolumns, columnsOfLine, Utf8.decodeLossy_of_decodeChars htext, trimmedFields_trimEnd,
      ColumnSelector.picks, trimmedFields_dropEnd]
  · cases hheader

/-- Discovery lists no name for an empty file. -/
theorem Discovery.columns_of_empty (hopen : fs.openToRead path = .ok (.content [])) :
    columns fs path = [] := by
  have hdecode : Utf8.decodeLossy [] = "" :=
    Utf8.decodeLossy_of_decodeChars (Utf8.decodeChars_encodeChars [])
  rw [columns, FileSystem.readFile, hopen]
  show (trimmedFields (trimEnd (Utf8.decodeLossy []))).filter (!·.isEmpty) = []
  rw [hdecode]
  decide

namespace ColumnSelector

variable {name selection : String}

theorem mem_picks_iff : name ∈ picks selection ↔ name ∈ trimmedFields selection ∧ name ≠ "" := by
  rw [picks, List.mem_filter, Bool.not_eq_true', ← Bool.not_eq_true, String.isEmpty_iff]

/-- A name as a selection holds it: without blanks around it, not empty and free of commas. -/
structure IsPick (name : String) : Prop where
  trimmed : trim name = name
  nonempty : name ≠ ""
  whole : ',' ∉ name.toList

theorem isPick_of_mem_picks (h : name ∈ picks selection) : IsPick name := by
  obtain ⟨hname, hne⟩ := mem_picks_iff.mp h
  obtain ⟨field, hfield, rfl⟩ := List.mem_map.mp hname
  constructor
  case trimmed =>
    rw [trim, toList_trim, trimChars_of_isTrimmed (isTrimmed_trimChars _), trim]
  case nonempty => exact hne
  case whole => exact not_mem_trim (not_mem_of_mem_split hfield)

theorem IsPick.fields_eq (h : IsPick name) : fields name = [name] := by
  rw [fields, split, splitChars_of_not_mem h.whole, List.map_singleton, String.ofList_toList]

theorem IsPick.isBlankText_eq (h : IsPick name) : isBlankText name = false := by
  rw [isBlankText, ← Bool.not_eq_true, List.all_eq_true, ← trimChars_eq_nil_iff, ← toList_trim,
    h.trimmed, String.toList_eq_nil_iff]
  exact h.nonempty

/-- Names that are joined are picked again. -/
theorem picks_join {names : List String} (h : ∀ name ∈ names, IsPick name) :
    picks (join ',' names) = names := by
  by_cases hne : names = []
  · subst hne
    rfl
  · have hfields : trimmedFields (join ',' names) = names := by
      rw [trimmedFields, fields, split_join hne fun name hname => (h name hname).whole]
      exact (List.map_congr_left fun name hname => (h name hname).trimmed).trans
        (List.map_id' names)
    rw [picks, hfields, List.filter_eq_self]
    intro name hname
    simpa using (h name hname).nonempty

/-- A name that a header lists means one of its columns. -/
theorem exists_isColumn_of_mem_picks (h : name ∈ picks header) : ∃ i, IsColumn header name i := by
  apply exists_isColumn_iff.mpr
  intro hlacks
  have hno := hlacks name (mem_picks_iff.mp h).1
  rw [← Bool.not_eq_true, sameIgnoringCase_iff] at hno
  exact hno rfl

end ColumnSelector

/-- A key that means a column can be both the primary and the update key of a filter. -/
theorem RowFilter.exists_make_of_isColumn {name : String} (hname : ColumnSelector.IsPick name)
    {i : Nat} (hcolumn : columnIndex header name = .ok i) (mark : Option String) :
    ∃ filter, make header (some name) (some name) mark = .ok filter := by
  have hkeys : readKeyColumns header (some name) = .ok [i] := by
    rw [readKeyColumns, hname.fields_eq, List.filter_cons_of_pos (by simp [hname.isBlankText_eq])]
    simp only [List.filter_nil, Attempt.all, hcolumn, Except.map]
  cases mark with
  | none => exact ⟨_, make_eq_ok_iff.mpr ⟨[i], none, hkeys, rfl, rfl⟩⟩
  | some w =>
      refine ⟨_, make_eq_ok_iff.mpr ⟨[i], some ⟨i, w⟩, hkeys, ?_, rfl⟩⟩
      rw [readUpdateTest, hcolumn]
      rfl

/-! ## What the names are good for -/

/-- A selection of all the names is accepted, and what it makes of the header has the names for
its trimmed fields. -/
def SelectsAll (names : List String) (header : String) : Prop :=
  ∃ s, ColumnSelector.make (join ',' names) header = .ok s ∧
    List.Forall₂ (fun name field => sameIgnoringCase field name = true) names
      (trimmedFields (s.apply header))

/-- What names are good for when a file with a header is copied. -/
structure Usable (fs : FileSystem) (path : Path) (header : String)
    (names : List String) : Prop where
  /-- Each name means a column that has it. -/
  found : ∀ name ∈ names, ∃ i, columnIndex header name = .ok i ∧ i < (fields header).length ∧
    sameIgnoringCase (trim (fieldAt (fields header) i)) name = true
  /-- Each name can be the primary key and the update key. -/
  keys : ∀ name ∈ names, ∀ mark, ∃ filter,
    RowFilter.make header (some name) (some name) mark = .ok filter
  /-- Together they select the columns that have names. -/
  selected : names ≠ [] → (∀ name ∈ names, ColumnSelector.isExclusion name = false) →
    SelectsAll names header
  /-- A copy that is neither refused nor cancelled writes the selected header first. -/
  written : ∀ options plan cancelAfter selector filter,
    Copy.selectorFor options header = .ok selector →
    Copy.filterFor options plan header = .ok filter → plan.skipHeader = false →
      cancelAfter ≠ some 0 →
    ∃ copied rest, Copy.file fs path options plan cancelAfter = .ok copied ∧
      copied.written = Copy.project selector header :: rest

/-- The names that a header lists, joined, select columns that have these names. -/
theorem selectsAll_picks (hne : ColumnSelector.picks header ≠ [])
    (hplain : ∀ name ∈ ColumnSelector.picks header, ColumnSelector.isExclusion name = false) :
    SelectsAll (ColumnSelector.picks header) header := by
  have hpicks : ColumnSelector.picks (join ',' (ColumnSelector.picks header)) =
      ColumnSelector.picks header :=
    ColumnSelector.picks_join fun name => ColumnSelector.isPick_of_mem_picks
  obtain ⟨hselects, hrejects⟩ :=
    ColumnSelector.make_selects (join ',' (ColumnSelector.picks header)) header
  rw [hpicks] at hrejects
  -- no name has a dash, so the selection keeps the columns that it names
  have hsome : ∃ name ∈ ColumnSelector.picks header, ColumnSelector.isExclusion name = false := by
    obtain ⟨first, more, hcons⟩ := List.exists_cons_of_ne_nil hne
    have hfirst : first ∈ ColumnSelector.picks header := hcons ▸ List.mem_cons_self
    exact ⟨first, hfirst, hplain first hfirst⟩
  cases hmake : ColumnSelector.make (join ',' (ColumnSelector.picks header)) header with
  | error f =>
      obtain ⟨name, hname, hlacks⟩ := hrejects.mp ⟨f, hmake⟩
      have hall : (ColumnSelector.picks header).all ColumnSelector.isExclusion = false := by
        obtain ⟨plain, hmem, hplain⟩ := hsome
        exact List.all_eq_false.mpr ⟨plain, hmem, Bool.eq_false_iff.mp hplain⟩
      rw [ColumnSelector.pickedName, hpicks, hall] at hlacks
      exact absurd hlacks
        (exists_isColumn_iff.mp (ColumnSelector.exists_isColumn_of_mem_picks hname))
  | ok s =>
      have hincluded := ((hselects s hmake).included (hpicks.symm ▸ hsome)).2
      rw [hpicks] at hincluded
      exact ⟨s, hmake, hincluded⟩

/-- A copy of a file writes the header as its selection leaves it. -/
theorem Copy.exists_written_of_accepted {opened : FileSystem.Opened}
    {more : List (Except LineFault String)} {options : RunOptions} {plan : CopyPlan}
    {cancelAfter : Option Nat} {selector : Option ColumnSelector} {filter : RowFilter}
    (hopen : fs.openToRead path = .ok opened) (hlines : Lines.ofOpened opened = .ok header :: more)
    (hselector : selectorFor options header = .ok selector)
    (hfilter : filterFor options plan header = .ok filter) (hskip : plan.skipHeader = false)
    (hcancel : cancelAfter ≠ some 0) :
    ∃ copied rest, file fs path options plan cancelAfter = .ok copied ∧
      copied.written = project selector header :: rest := by
  refine ⟨lines options plan ⟨path, .ok header :: more, cancelAfter⟩, ?_⟩
  have hlead : [project selector header] <+:
      (lines options plan ⟨path, .ok header :: more, cancelAfter⟩).written := by
    rw [lines_of_accepted hselector hfilter hcancel, hskip, if_neg Bool.false_ne_true]
    show [project selector header].reverse <+: _
    exact reverse_prefix_written_rowsFrom
  obtain ⟨rest, hrest⟩ := hlead
  refine ⟨rest, ?_, hrest.symm⟩
  rw [file, hopen, ← hlines]
  rfl

/-- What a header lists is usable when a copy reads that header. -/
theorem usable_picks {opened : FileSystem.Opened} {more : List (Except LineFault String)}
    (hopen : fs.openToRead path = .ok opened)
    (hlines : Lines.ofOpened opened = .ok header :: more) :
    Usable fs path header (ColumnSelector.picks header) := by
  constructor
  case found =>
    intro name hname
    obtain ⟨i, hi⟩ := ColumnSelector.exists_isColumn_of_mem_picks hname
    have htrim := (ColumnSelector.isPick_of_mem_picks hname).trimmed
    refine ⟨i, columnIndex_eq_ok_iff.mpr (htrim.symm ▸ hi), length_trimmedFields _ ▸ hi.present, ?_⟩
    rw [← fieldAt_trimmedFields]
    exact hi.named
  case keys =>
    intro name hname mark
    obtain ⟨i, hi⟩ := ColumnSelector.exists_isColumn_of_mem_picks hname
    have hpick := ColumnSelector.isPick_of_mem_picks hname
    exact RowFilter.exists_make_of_isColumn hpick
      (columnIndex_eq_ok_iff.mpr (hpick.trimmed.symm ▸ hi)) mark
  case selected => exact selectsAll_picks
  case written =>
    intro options plan cancelAfter selector filter hselector hfilter hskip hcancel
    exact Copy.exists_written_of_accepted hopen hlines hselector hfilter hskip hcancel

/-- The names that discovery lists for a file whose first line is a text are usable when it is
copied: each means a column of the header that the copy reads, and when there are some and none has
a leading dash, all of them together select the columns that have them. A file without a line lists
no name. -/
theorem columns_usable {text : String} (hopen : fs.openToRead path = .ok (.content bytes))
    (htext : Utf8.decode (Discovery.firstLine bytes) = .ok text) :
    Lines.ofBytes bytes = [] ∧ Discovery.columns fs path = [] ∨
      ∃ header more, Lines.ofBytes bytes = .ok header :: more ∧
        Usable fs path header (Discovery.columns fs path) := by
  by_cases hne : bytes = []
  · subst hne
    exact .inl ⟨rfl, Discovery.columns_of_empty hopen⟩
  · apply Or.inr
    obtain ⟨header, more, hlines⟩ := Lines.exists_ofBytes_of_text hne htext
    refine ⟨header, more, hlines, ?_⟩
    rw [Discovery.columns_eq_picks hopen hlines]
    exact usable_picks hopen hlines

/-- Three columns, one of them blank, with odd spaces and a carriage return in the header. -/
def spacedFile : FileSystem :=
  .ofFiles [("in.csv", Utf8.encode " id ,,Name\t\r\n1,2,3\n")]

theorem columns_usable_spaced : Usable spacedFile ⟨"in.csv"⟩ " id ,,Name\t" ["id", "Name"] := by
  have hopen : spacedFile.openToRead ⟨"in.csv"⟩ =
      .ok (.content (Utf8.encode " id ,,Name\t\r\n1,2,3\n")) :=
    FileSystem.openToRead_of_find_file (FileSystem.find_of_isPlain (by decide) rfl)
  have hlines : Lines.ofBytes (Utf8.encode " id ,,Name\t\r\n1,2,3\n") =
      [.ok " id ,,Name\t", .ok "1,2,3"] := by
    rw [Lines.ofBytes_encode]
    decide
  have hcolumns : Discovery.columns spacedFile ⟨"in.csv"⟩ = ["id", "Name"] := by
    rw [Discovery.columns_eq_picks hopen hlines]
    decide
  have hfirst : Utf8.decode (Discovery.firstLine (Utf8.encode " id ,,Name\t\r\n1,2,3\n")) =
      .ok " id ,,Name\t\r\n" :=
    Utf8.decode_encode " id ,,Name\t\r\n"
  rcases columns_usable hopen hfirst with ⟨hnil, -⟩ | ⟨header, more, hheader, husable⟩
  · rw [hlines] at hnil
    cases hnil
  · rw [hlines] at hheader
    cases hheader
    rw [hcolumns] at husable
    exact husable

/-- A file whose columns have no names. -/
def blankFile : FileSystem :=
  .ofFiles [("in.csv", Utf8.encode ",\n1,2\n")]

/-- The names of no column, joined, select all columns, although none is listed. -/
theorem blank_header_unmatched : ∃ more, Lines.ofBytes (Utf8.encode ",\n1,2\n") = .ok "," :: more ∧
    blankFile.openToRead ⟨"in.csv"⟩ = .ok (.content (Utf8.encode ",\n1,2\n")) ∧
    (∀ name ∈ Discovery.columns blankFile ⟨"in.csv"⟩, ColumnSelector.isExclusion name = false) ∧
    ¬ SelectsAll (Discovery.columns blankFile ⟨"in.csv"⟩) "," := by
  have hopen : blankFile.openToRead ⟨"in.csv"⟩ = .ok (.content (Utf8.encode ",\n1,2\n")) :=
    FileSystem.openToRead_of_find_file (FileSystem.find_of_isPlain (by decide) rfl)
  have hlines : Lines.ofBytes (Utf8.encode ",\n1,2\n") = [.ok ",", .ok "1,2"] := by
    rw [Lines.ofBytes_encode]
    decide
  have hcolumns : Discovery.columns blankFile ⟨"in.csv"⟩ = [] := by
    rw [Discovery.columns_eq_picks hopen hlines]
    decide
  rw [hcolumns]
  refine ⟨_, hlines, hopen, fun _ hname => absurd hname List.not_mem_nil, ?_⟩
  rintro ⟨s, hmake, hnames⟩
  -- the blank selection keeps both columns
  have hkeep : ColumnSelector.make (join ',' []) "," = .ok ⟨[0, 1]⟩ := by rfl
  rw [hkeep] at hmake
  cases hmake
  rw [List.forall₂_nil_left_iff] at hnames
  revert hnames
  decide

end Haulage
