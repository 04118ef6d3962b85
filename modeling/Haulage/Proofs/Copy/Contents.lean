import Haulage.Proofs.Copy.Passing
import Haulage.Proofs.Files.Roads
import Haulage.Proofs.Files.TextLines
import Haulage.Proofs.Run.Task

/-!
# What a copy writes of a text

A copy of a file that holds a text takes the first line for the header. It fails when the header
lacks a column that is asked for, before it has written anything. Otherwise it writes the header,
unless the target has one, and then the first of the rows that its filter lets through, as many as
its limit allows, each as the selection leaves it.

- `rejects_or_ok`: a header is rejected or copied.
- `lines_yields`: a copy of lines.
- `file_yields`: a copy of a file.
-/

set_option autoImplicit false

namespace Haulage.Copy

variable {options : RunOptions} {plan : CopyPlan} {path : Path}

/-- A failure that the header of a source gives rise to: that of the selector, or else
of the filter. -/
def Rejects (options : RunOptions) (plan : CopyPlan) (header : String) (f : Failure) : Prop :=
  selectorFor options header = .error f ∨
    (∃ selector, selectorFor options header = .ok selector) ∧
      filterFor options plan header = .error f

/-- What a copy yields that reads some lines to their end or to its limit. -/
structure Yields (options : RunOptions) (plan : CopyPlan) (source : List String) (c : Copied) :
    Prop where
  /-- It fails when there is a first line and that is rejected. -/
  failure_iff : ∀ f, c.failure = some f ↔
    ∃ header rows, source = header :: rows ∧ Rejects options plan header f
  /-- Nothing is written when it fails or when there is no line. -/
  nothing : c.failure ≠ none ∨ source = [] → c.written = [] ∧ c.rows = 0
  /-- Of any other source the header and the rows are written, and the rows are counted. -/
  written : ∀ header rows selector filter, source = header :: rows →
    selectorFor options header = .ok selector → filterFor options plan header = .ok filter →
    c.written = (if plan.skipHeader then [] else [project selector header]) ++
      (upTo options.limit 0 (filter.passing rows)).map (project selector) ∧
    c.rows = (upTo options.limit 0 (filter.passing rows)).length
  /-- The bytes are those of all lines written, each of which ends in the only newline it has. -/
  bytes : c.bytes = (Utf8.encode c.text).length ∧ ∀ line ∈ c.written, '\n' ∉ line.toList

/-- A header is rejected, or it gives a selector and a filter. -/
theorem rejects_or_ok (options : RunOptions) (plan : CopyPlan) (header : String) :
    (∃ f, Rejects options plan header f) ∨ ∃ selector filter,
      selectorFor options header = .ok selector ∧ filterFor options plan header = .ok filter := by
  cases hselector : selectorFor options header with
  | error f => exact .inl ⟨f, .inl hselector⟩
  | ok selector =>
      cases hfilter : filterFor options plan header with
      | error f => exact .inl ⟨f, .inr ⟨⟨selector, hselector⟩, hfilter⟩⟩
      | ok filter => exact .inr ⟨selector, filter, rfl, rfl⟩

/-- A rejected header fails the copy, whatever comes behind it. -/
theorem lines_of_rejects {header : String} {f : Failure} (h : Rejects options plan header f)
    {cancelAfter : Option Nat} (hcancel : cancelAfter ≠ some 0)
    (source : List (Except LineFault String)) :
    lines options plan ⟨path, .ok header :: source, cancelAfter⟩ = .nothing (some f) := by
  rw [lines, if_neg hcancel]
  rcases h with hselector | ⟨⟨selector, hselector⟩, hfilter⟩
  · simp only [hselector]
  · simp only [hselector, hfilter]

theorem not_rejects_of_ok {header : String} {selector : Option ColumnSelector} {filter : RowFilter}
    (hselector : selectorFor options header = .ok selector)
    (hfilter : filterFor options plan header = .ok filter) (f : Failure) :
    ¬Rejects options plan header f := by
  rintro (h | ⟨-, h⟩)
  · rw [hselector] at h
    cases h
  · rw [hfilter] at h
    cases h

/-- At most one failure is that of a header. -/
theorem Rejects.unique {header : String} {f g : Failure} (hf : Rejects options plan header f)
    (hg : Rejects options plan header g) : f = g := by
  rcases hf with hf | ⟨⟨selector, hselector⟩, hf⟩
  · rcases hg with hg | ⟨⟨selector, hselector⟩, -⟩
    · exact Except.error.inj (hf.symm.trans hg)
    · rw [hf] at hselector
      cases hselector
  · rcases hg with hg | ⟨-, hg⟩
    · rw [hselector] at hg
      cases hg
    · exact Except.error.inj (hf.symm.trans hg)

/-- What a copy yields of the lines that it reads when nothing stops it. -/
theorem lines_yields {source : List String} (hsource : ∀ line ∈ source, '\n' ∉ line.toList) :
    Yields options plan source (lines options plan ⟨path, source.map .ok, none⟩) := by
  generalize hc : lines options plan ⟨path, source.map .ok, none⟩ = c
  have hbytes : c.bytes = (Utf8.encode c.text).length ∧ ∀ line ∈ c.written, '\n' ∉ line.toList := by
    refine ⟨c.length_encode_text.symm, ?_⟩
    rw [← hc]
    refine newline_not_mem_of_mem_written fun line hline => ?_
    obtain ⟨_, hline', ⟨⟩⟩ := List.mem_map.mp hline
    exact hsource line hline'
  cases source with
  | nil =>
      subst hc
      refine ⟨fun f => ⟨?_, ?_⟩, fun _ => ⟨rfl, rfl⟩, ?_, hbytes⟩
      · rintro ⟨⟩
      · rintro ⟨_, _, ⟨⟩, -⟩
      · rintro _ _ _ _ ⟨⟩
  | cons header rows =>
      rcases rejects_or_ok options plan header with ⟨f, hrejects⟩ | ⟨selector, filter, hs, hf⟩
      · -- the failure of the header is the only one there can be
        rw [List.map_cons, lines_of_rejects hrejects (Option.some_ne_none 0).symm] at hc
        subst hc
        refine ⟨fun g => ⟨?_, ?_⟩, fun _ => ⟨rfl, rfl⟩, ?_, hbytes⟩
        · rintro ⟨⟩
          exact ⟨header, rows, rfl, hrejects⟩
        · rintro ⟨_, _, ⟨⟩, hrejects'⟩
          exact congrArg some (hrejects.unique hrejects')
        · rintro _ _ selector filter ⟨⟩ hs hf
          exact absurd hrejects (not_rejects_of_ok hs hf f)
      · -- nothing fails behind a header that is accepted
        rw [lines_map_ok hs hf] at hc
        subst hc
        refine ⟨fun g => ⟨?_, ?_⟩, ?_, ?_, hbytes⟩
        · rintro ⟨⟩
        · rintro ⟨_, _, ⟨⟩, hrejects⟩
          exact absurd hrejects (not_rejects_of_ok hs hf g)
        · rintro (h | ⟨⟨⟩⟩)
          exact absurd rfl h
        · rintro _ _ selector' filter' ⟨⟩ hs' hf'
          rw [hs, Except.ok.injEq] at hs'
          rw [hf, Except.ok.injEq] at hf'
          subst hs' hf'
          exact ⟨rfl, rfl⟩

/-- A copy of a file that holds a text, when nothing cancels it. -/
theorem file_yields {fs : FileSystem} {text : String}
    (hopen : fs.openToRead path = .ok (.content (Utf8.encode text))) (options : RunOptions)
    (plan : CopyPlan) :
    ∃ c, file fs path options plan none = .ok c ∧ Yields options plan (Text.lines text) c := by
  have hlines : Lines.ofOpened (.content (Utf8.encode text)) = (Text.lines text).map .ok :=
    Lines.ofBytes_encode text
  refine ⟨_, file_eq_ok_iff.mpr ⟨_, hopen, rfl⟩, ?_⟩
  rw [hlines]
  refine lines_yields fun line hline => ?_
  apply Lines.newline_not_mem_of_mem_ofBytes
  rw [Lines.ofBytes_encode]
  exact List.mem_map_of_mem hline

/-- Orders of which two newer ones are wanted, without the times in them. -/
def twoNewerOrders : RunOptions :=
  { RunOptions.between "orders.csv" "out.csv" .incremental with
    selection := some "-at"
    limit := some 2
    updateKey := some "At" }

/-- Two of the newer orders; the third one comes after the limit, and one has no time. -/
theorem file_yields_twoNewerOrders :
    ∃ c,
      file (.ofFiles [("orders.csv", Utf8.encode "id,at,sum\r\n1,4,9\r\n2,7,8\n3,,5\n4,9\n5,11,1")])
        ⟨"orders.csv"⟩ twoNewerOrders ⟨true, some "5"⟩ none = .ok c ∧
      c.failure = none ∧ c.written = ["2,8", "4,"] ∧ c.rows = 2 ∧ c.bytes = 7 := by
  generalize htext : "id,at,sum\r\n1,4,9\r\n2,7,8\n3,,5\n4,9\n5,11,1" = text
  have hopen : (FileSystem.ofFiles [("orders.csv", Utf8.encode text)]).openToRead ⟨"orders.csv"⟩ =
      .ok (.content (Utf8.encode text)) :=
    FileSystem.openToRead_of_find_file (FileSystem.find_of_isPlain (by decide +kernel) rfl)
  obtain ⟨c, hc, hyields⟩ := file_yields hopen twoNewerOrders ⟨true, some "5"⟩
  have hlines : Text.lines text =
      ["id,at,sum", "1,4,9", "2,7,8", "3,,5", "4,9", "5,11,1"] := by
    subst htext
    decide +kernel
  have hselector : selectorFor twoNewerOrders "id,at,sum" = .ok (some ⟨[0, 2]⟩) := by rfl
  have hcolumn : columnIndex "id,at,sum" "At" = .ok 1 := by rfl
  have hfilter : filterFor twoNewerOrders ⟨true, some "5"⟩ "id,at,sum" =
      .ok ⟨[], some ⟨1, "5"⟩, ∅⟩ := RowFilter.make_eq_ok rfl hcolumn
  obtain ⟨hwritten, hrows⟩ := hyields.written _ _ _ _ hlines hselector hfilter
  have hpassing : upTo twoNewerOrders.limit 0
      ((RowFilter.mk [] (some ⟨1, "5"⟩) ∅).passing ["1,4,9", "2,7,8", "3,,5", "4,9", "5,11,1"]) =
        ["2,7,8", "4,9"] := by decide +kernel
  rw [hpassing] at hwritten hrows
  have hwritten' : c.written = ["2,8", "4,"] := by
    rw [hwritten]
    decide +kernel
  refine ⟨c, hc, ?_, hwritten', hrows, ?_⟩
  · refine Option.eq_none_iff_forall_not_mem.mpr fun f hf => ?_
    obtain ⟨header, rows, hsource, hrejects⟩ := (hyields.failure_iff f).mp hf
    rw [hlines, List.cons.injEq] at hsource
    obtain ⟨rfl, -⟩ := hsource
    exact not_rejects_of_ok hselector hfilter f hrejects
  · rw [Copied.bytes, hwritten']
    rfl

end Haulage.Copy
