import Haulage.Proofs.Copy.Loading
import Haulage.Proofs.Run.FileCopy

/-!
# Incremental runs

An incremental run reads its target before it adds to it: the header is not written twice, and the
newest update value is where the run starts. What one run adds, the next one reads back as rows, so
two runs, of which the second finds more rows in its source, leave what one run over all rows
leaves.

- `Starts.out_of_lines`: a run whose copy succeeds.
- `Starts.files_out`, `Begins.files_out`: what one run adds to its target.
- `incremental_twice_eq_once`: two runs after one another.
-/

set_option autoImplicit false

namespace Haulage

open FileSystem Transfer

/-- A run from a file to a file. -/
structure Load where
  surroundings : Surroundings
  registry : Registry
  options : RunOptions
  files : FileSystem
  context : Context
  source : Path
  target : Path

namespace Load

/-- What a run leaves behind. -/
def out (l : Load) : Outcome :=
  Run.execute l.surroundings l.registry l.options l.files l.context

/-- The bytes in the target before a run; a target that is not there has none. -/
def before (l : Load) : Bytes :=
  Run.contentOf l.files l.target

/-- The lines of the source. -/
def Reads (l : Load) (lines : List String) : Prop :=
  ∃ place content, l.files.find l.source = .ok (place, .file content) ∧
    Lines.ofBytes content = lines.map .ok

/-- An incremental run of all columns and rows that nothing cancels. Its source and target
are two files; the target is there, or it is not and the directories above it are there or
can be created. -/
structure Begins (l : Load) (primaryKey updateKey : String) : Prop where
  task : ∃ t, Task.ofOptions l.registry l.files l.options = .ok t ∧ t.source = .file l.source ∧
    t.target = .location (.file l.target)
  incremental : l.options.isIncremental = true
  primaryKey : l.options.primaryKey = some primaryKey
  updateKey : l.options.updateKey = some updateKey
  unselected : l.options.selection = none
  unlimited : l.options.limit = none
  uncancelled : l.surroundings.cancelAfter = none
  distinct : checkDistinct l.files l.source l.target = .ok ()
  target : ∃ fs₁ d, makeParent l.files l.target = (fs₁, .ok ()) ∧
    fs₁.destination l.target = .ok d ∧
    (l.files.find l.target = .ok (d.place, .file d.content) ∨
      l.files.find l.target = .error .noSuchFile ∧ d.content = [])

/-- An incremental run that nothing cancels, whatever columns and however many rows it takes. Its
source and target are two files; the target is there, or it is not and the directories above it are
there or can be created. -/
structure Starts (l : Load) (primaryKey updateKey : String) : Prop where
  task : ∃ t, Task.ofOptions l.registry l.files l.options = .ok t ∧ t.source = .file l.source ∧
    t.target = .location (.file l.target)
  incremental : l.options.isIncremental = true
  primaryKey : l.options.primaryKey = some primaryKey
  updateKey : l.options.updateKey = some updateKey
  uncancelled : l.surroundings.cancelAfter = none
  distinct : checkDistinct l.files l.source l.target = .ok ()
  target : ∃ fs₁ d, makeParent l.files l.target = (fs₁, .ok ()) ∧
    fs₁.destination l.target = .ok d ∧
    (l.files.find l.target = .ok (d.place, .file d.content) ∨
      l.files.find l.target = .error .noSuchFile ∧ d.content = [])

variable {l : Load} {primaryKey updateKey : String}

theorem Reads.newline_not_mem {lines : List String} (h : l.Reads lines) :
    ∀ line ∈ lines, '\n' ∉ line.toList := by
  intro line hline
  obtain ⟨place, content, -, hlines⟩ := h
  have hmem : .ok line ∈ Lines.ofBytes content := by
    rw [hlines]
    exact List.mem_map_of_mem hline
  exact Lines.newline_not_mem_of_mem_ofBytes hmem

theorem Begins.starts (hl : l.Begins primaryKey updateKey) : l.Starts primaryKey updateKey :=
  ⟨hl.task, hl.incremental, hl.primaryKey, hl.updateKey, hl.uncancelled, hl.distinct, hl.target⟩

variable {header : String} {keys : List Nat} {column : Nat}
  {loaded source first second : List String}

/-! ## One run -/

/-- A target that is not there yet counts as empty. -/
theorem before_of_seen {d : Destination}
    (hseen : l.files.find l.target = .ok (d.place, .file d.content) ∨
      l.files.find l.target = .error .noSuchFile ∧ d.content = []) : l.before = d.content := by
  rcases hseen with hf | ⟨hf, hempty⟩
  · exact Run.contentOf_of_find hf
  · rw [before, Run.contentOf, readFile, openToRead, hf, hempty]

/-- The run starts from the newest row of its target. -/
theorem Starts.forTarget (hl : l.Starts primaryKey updateKey)
    (hholds : Holds header l.before loaded) (hcolumn : columnIndex header updateKey = .ok column) :
    CopyPlan.forTarget l.files l.target l.options =
      .ok ⟨!l.before.isEmpty, watermarkOf column loaded⟩ := by
  obtain ⟨fs₁, d, -, -, hseen⟩ := hl.target
  have hlines := ofLines_of_holds hholds hl.incremental hl.updateKey hcolumn l.target
  rw [CopyPlan.forTarget, if_pos (RunOptions.appends_of_isIncremental hl.incremental), ← hlines,
    before_of_seen hseen]
  rcases hseen with hf | ⟨hf, hempty⟩
  · rw [openToRead_of_find_file hf]
    rfl
  · rw [openToRead, hf, hempty]
    rfl

/-- The target is there before the run, or it comes up empty. -/
theorem Starts.seen (hl : l.Starts primaryKey updateKey) {fs₁ : FileSystem} {d : Destination}
    (hparents : makeParent l.files l.target = (fs₁, .ok ()))
    (hd : fs₁.destination l.target = .ok d) :
    l.files.find l.target = .ok (d.place, .file d.content) ∨
      l.files.find l.target = .error .noSuchFile ∧ d.content = [] := by
  obtain ⟨fs₂, d₂, hparents₂, hd₂, hseen⟩ := hl.target
  rw [hparents, Prod.mk.injEq] at hparents₂
  obtain ⟨rfl, -⟩ := hparents₂
  rw [hd, Except.ok.injEq] at hd₂
  subst hd₂
  exact hseen

/-- A source that is not empty is another file than the target, also once the directories above the
target are there. -/
theorem Starts.place_ne (hl : l.Starts primaryKey updateKey) {fs₁ : FileSystem} {d : Destination}
    (hparents : makeParent l.files l.target = (fs₁, .ok ())) (hd : fs₁.destination l.target = .ok d)
    {place : Place} {content : Bytes} (hfile : l.files.find l.source = .ok (place, .file content))
    (hfull : content ≠ []) : place ≠ d.place := by
  have hgrown := grown_makeParent l.files l.target
  rw [hparents] at hgrown
  rcases hl.seen hparents hd with hf | ⟨-, hempty⟩
  · exact ne_of_checkDistinct hl.distinct hfile hf
  · -- a target that comes up with the directories is empty
    rintro rfl
    exact hfull ((content_of_find_of_destination hd (find_of_grown hgrown hfile)).symm.trans hempty)

/-- What a run leaves behind whose copy succeeds. -/
theorem Starts.out_of_lines (hl : l.Starts primaryKey updateKey) {plan : CopyPlan}
    (hplan : CopyPlan.forTarget l.files l.target l.options = .ok plan) {fs₁ : FileSystem}
    {d : Destination} (hparents : makeParent l.files l.target = (fs₁, .ok ()))
    (hd : fs₁.destination l.target = .ok d) {place : Place} {content : Bytes}
    (hfile : l.files.find l.source = .ok (place, .file content)) (hne : place ≠ d.place)
    {c : Copied} (hc : Copy.lines l.options plan ⟨l.source, Lines.ofBytes content, none⟩ = c)
    (hsucceeds : c.failure = none) :
    l.out.result = .ok () ∧
      l.out.files = fs₁.put d.place (.file (l.before ++ Utf8.encode c.text)) := by
  obtain ⟨t, ht, hfrom, hto⟩ := hl.task
  have hopens : Opens l.files l.options l.source l.target plan fs₁ d :=
    ⟨hl.distinct, hplan, hparents, hd⟩
  rw [← hl.uncancelled] at hc
  obtain ⟨hresult, hfiles⟩ : l.out.result = .ok () ∧ l.out.files =
      fs₁.put d.place (.file (d.kept l.options.appends ++ Utf8.encode c.text)) :=
    Run.execute_of_opens ht hfrom hto hopens (find_of_grown hopens.grown hfile) hne hc hsucceeds
  refine ⟨hresult, ?_⟩
  rw [hfiles, Destination.kept, if_pos (RunOptions.appends_of_isIncremental hl.incremental),
    before_of_seen (hl.seen hparents hd)]

/-- A run adds to its target what its selection and limit leave of the rows newer than those there,
and changes no other file. The rows in the target may be what a selection made of the rows loaded,
as long as their update values are the same. -/
theorem Starts.files_out (hl : l.Starts primaryKey updateKey) (hreads : l.Reads (header :: source))
    {fs₁ : FileSystem} {d : Destination} (hparents : makeParent l.files l.target = (fs₁, .ok ()))
    (hd : fs₁.destination l.target = .ok d) {selector : Option ColumnSelector}
    (hselector : Copy.selectorFor l.options header = .ok selector) {kept : Nat}
    {stored : List String} (hholds : Holds (Copy.project selector header) l.before stored)
    (hkept : columnIndex (Copy.project selector header) updateKey = .ok kept)
    (hvalues : stored.map (updateValue kept) = loaded.map (updateValue column))
    (hrows : Loadable header primaryKey updateKey keys column loaded source) :
    l.out.result = .ok () ∧
      l.out.files = fs₁.put d.place (.file (l.before ++ Utf8.encode (Lines.unlines
        (addedUnder selector l.options.limit header column l.before loaded source)))) := by
  obtain ⟨place, content, hfile, hlines⟩ := hreads
  have hplan : CopyPlan.forTarget l.files l.target l.options =
      .ok ⟨!l.before.isEmpty, watermarkOf column loaded⟩ := by
    rw [hl.forTarget hholds hkept, watermarkOf, hvalues, ← watermarkOf]
  have hfull : content ≠ [] := by
    rintro rfl
    cases hlines
  obtain ⟨c, hc, hsucceeds, hwritten⟩ : ∃ c,
      Copy.lines l.options ⟨!l.before.isEmpty, watermarkOf column loaded⟩
        ⟨l.source, (header :: source).map .ok, none⟩ = c ∧ c.failure = none ∧
      c.written = addedUnder selector l.options.limit header column l.before loaded source :=
    lines_of_loadable hrows hselector hl.primaryKey hl.updateKey l.source
  rw [← hlines] at hc
  rw [← hwritten, ← Copied.text_eq_unlines]
  exact hl.out_of_lines hplan hparents hd hfile (hl.place_ne hparents hd hfile hfull) hc hsucceeds

/-- A run of all columns and rows adds to its target what is newer than the rows there. -/
theorem Begins.files_out (hl : l.Begins primaryKey updateKey) (hreads : l.Reads (header :: source))
    (hholds : Holds header l.before loaded)
    (hrows : Loadable header primaryKey updateKey keys column loaded source) :
    l.out.result = .ok () ∧ ∃ fs₁ d, makeParent l.files l.target = (fs₁, .ok ()) ∧
      fs₁.destination l.target = .ok d ∧
      l.out.files = fs₁.put d.place (.file (l.before ++
        Utf8.encode (Lines.unlines (addedLines header column l.before loaded source)))) := by
  have hselector : Copy.selectorFor l.options header = .ok none := by
    rw [Copy.selectorFor, hl.unselected]
  obtain ⟨fs₁, d, hparents, hd, -⟩ := hl.target
  obtain ⟨hresult, hfiles⟩ :=
    hl.starts.files_out hreads hparents hd hselector hholds hrows.updateColumn rfl hrows
  rw [hl.unlimited, addedUnder_none_none] at hfiles
  exact ⟨hresult, fs₁, d, hparents, hd, hfiles⟩

theorem Begins.readFile_out (hl : l.Begins primaryKey updateKey)
    (hreads : l.Reads (header :: source)) (hholds : Holds header l.before loaded)
    (hrows : Loadable header primaryKey updateKey keys column loaded source) :
    l.out.result = .ok () ∧
      l.out.files.readFile l.target = .ok (l.before ++
        Utf8.encode (Lines.unlines (addedLines header column l.before loaded source))) := by
  obtain ⟨hresult, fs₁, d, -, hd, hfiles⟩ := hl.files_out hreads hholds hrows
  refine ⟨hresult, ?_⟩
  rw [hfiles, readFile, openToRead_of_find_file (find_put_destination hd _)]

/-! ## Two runs -/

/-- An incremental run followed by another one, whose source has later rows as well, leaves in the
target what the second one leaves there by itself. Without later rows it adds nothing. -/
theorem incremental_twice_eq_once {a b c : Load}
    (ha : a.Begins primaryKey updateKey) (hb : b.Begins primaryKey updateKey)
    (hc : c.Begins primaryKey updateKey) (hreadsA : a.Reads (header :: first))
    (hreadsB : b.Reads (header :: (first ++ second)))
    (hreadsC : c.Reads (header :: (first ++ second))) (hholds : Holds header a.before loaded)
    (hnext : b.before = Run.contentOf a.out.files a.target) (hsame : c.before = a.before)
    (hrows : Loadable header primaryKey updateKey keys column loaded (first ++ second))
    (hlater : ∀ row ∈ second, ∀ earlier ∈ first,
      compareValues (updateValue column row) (updateValue column earlier) = .gt) :
    a.out.result = .ok () ∧ b.out.result = .ok () ∧ c.out.result = .ok () ∧
      ∃ content, b.out.files.readFile b.target = .ok content ∧
        c.out.files.readFile c.target = .ok content ∧ (second = [] → content = b.before) := by
  obtain ⟨hresultA, hfileA⟩ := ha.readFile_out hreadsA hholds hrows.left
  have hbefore : b.before = a.before ++
      Utf8.encode (Lines.unlines (addedLines header column a.before loaded first)) := by
    rw [hnext, Run.contentOf, hfileA]
  have hfilled : b.before.isEmpty = false := by
    rw [hbefore]
    exact isEmpty_of_getLast? hholds.getLast?_append
  -- what the first run added is part of the target that the second one reads
  have hholdsB : Holds header b.before (loadedOnce column loaded first) := by
    rw [hbefore]
    exact hholds.append hreadsA.newline_not_mem
  obtain ⟨hresultB, hfileB⟩ := hb.readFile_out hreadsB hholdsB hrows.next
  have hholdsC : Holds header c.before loaded := by
    rw [hsame]
    exact hholds
  obtain ⟨hresultC, hfileC⟩ := hc.readFile_out hreadsC hholdsC hrows
  refine ⟨hresultA, hresultB, hresultC, _, hfileB, ?_, ?_⟩
  · rw [hfileC, hsame, ← addedLines_append_addedLines hrows hlater hfilled,
      Lines.encode_unlines_append, ← List.append_assoc, ← hbefore]
  · rintro rfl
    rw [List.append_nil] at hrows
    rw [List.append_nil, addedLines_of_loadedOnce hrows hfilled]
    exact List.append_nil _

/-- Two sources, of which one has a row more, and a target with an earlier row. -/
def ledger : FileSystem :=
  ofFiles
    [("first.csv", Utf8.encode (Lines.unlines ["id,at", "1,5"])),
      ("all.csv", Utf8.encode (Lines.unlines ["id,at", "1,5", "2,7"])),
      ("out.csv", Utf8.encode (Lines.unlines ["id,at", "0,3"]))]

/-- An incremental run from a source into the ledger. -/
def ledgerLoad (fs : FileSystem) (source : String) : Load where
  surroundings := .quiet
  registry := .empty
  options :=
    { RunOptions.between source "out.csv" .incremental with
      primaryKey := some "id"
      updateKey := some "at" }
  files := fs
  context := []
  source := ⟨source⟩
  target := ⟨"out.csv"⟩

theorem begins_ledgerLoad {fs : FileSystem} {source : String} {content old : Bytes}
    (hread : Location.read source = .file ⟨source⟩) (hplain : IsPlain source)
    (hne : pathOf (fs.here ++ [source]) ≠ pathOf (fs.here ++ ["out.csv"]))
    (hsource : fs.node? (fs.here ++ [source]) = some (.file content))
    (htarget : fs.node? (fs.here ++ ["out.csv"]) = some (.file old)) :
    (ledgerLoad fs source).Begins "id" "at" where
  task := by
    have hout : Location.read "out.csv" = .file ⟨"out.csv"⟩ := by decide +kernel
    exact ⟨_, Task.ofOptions_of_endpoints rfl ⟨rfl, rfl, rfl⟩ (Registry.endpoint_path hread) rfl
      (Registry.endpoint_path hout), rfl, rfl⟩
  incremental := rfl
  primaryKey := rfl
  updateKey := rfl
  unselected := rfl
  unlimited := rfl
  uncancelled := rfl
  distinct :=
    checkDistinct_of_find (find_of_isPlain hplain hsource)
      (find_of_isPlain (by decide +kernel) htarget) hne
  target := by
    have hparents : makeParent fs ⟨"out.csv"⟩ = (fs, .ok ()) :=
      makeParent_of_inPlace (parentInPlace_of_bare (by decide +kernel))
    have hd : fs.destination ⟨"out.csv"⟩ = .ok ⟨fs.here ++ ["out.csv"], old⟩ :=
      @destination_of_isPlain _ _ (by decide +kernel) (some old) htarget
    exact ⟨fs, _, hparents, hd, .inl (find_of_isPlain (by decide +kernel) htarget)⟩

theorem loadable_ledger : Loadable "id,at" "id" "at" [0] 1 ["0,3"] (["1,5"] ++ ["2,7"]) where
  keyColumns := by rfl
  updateColumn := by rfl
  valued := by decide +kernel
  comparable := .inl (by decide +kernel)
  unique _ := by decide +kernel

theorem ledger_twice_eq_once :
    (ledgerLoad ledger "all.csv").out.files.readFile ⟨"out.csv"⟩ =
        .ok (Utf8.encode (Lines.unlines ["id,at", "0,3", "1,5", "2,7"])) ∧
      (ledgerLoad (ledgerLoad ledger "first.csv").out.files "all.csv").out.files.readFile
        ⟨"out.csv"⟩ = .ok (Utf8.encode (Lines.unlines ["id,at", "0,3", "1,5", "2,7"])) := by
  have hfirst : IsPlain "first.csv" := by decide +kernel
  have hall : IsPlain "all.csv" := by decide +kernel
  have hout : IsPlain "out.csv" := by decide +kernel
  have hne : pathOf ["all.csv"] ≠ pathOf ["out.csv"] := by decide +kernel
  have ha : (ledgerLoad ledger "first.csv").Begins "id" "at" :=
    begins_ledgerLoad (by decide +kernel) hfirst (by decide +kernel) rfl rfl
  have hc : (ledgerLoad ledger "all.csv").Begins "id" "at" :=
    begins_ledgerLoad (by decide +kernel) hall hne rfl rfl
  have hreadsA : (ledgerLoad ledger "first.csv").Reads ["id,at", "1,5"] :=
    ⟨_, _, find_of_isPlain hfirst rfl, Lines.ofBytes_encode_unlines (by decide +kernel)⟩
  have hreadsC : (ledgerLoad ledger "all.csv").Reads ["id,at", "1,5", "2,7"] :=
    ⟨_, _, find_of_isPlain hall rfl, Lines.ofBytes_encode_unlines (by decide +kernel)⟩
  have hbefore : (ledgerLoad ledger "all.csv").before =
      Utf8.encode (Lines.unlines ["id,at", "0,3"]) :=
    Run.contentOf_of_find (find_of_isPlain hout rfl)
  have hholds : Holds "id,at" (ledgerLoad ledger "all.csv").before ["0,3"] := by
    rw [hbefore]
    exact .rows (by decide +kernel) rfl (Lines.ofBytes_encode_unlines (by decide +kernel))
  -- the first run leaves the source of the second one where it is
  obtain ⟨content, hfiles⟩ : ∃ content,
      (ledgerLoad ledger "first.csv").out.files = ledger.put ["out.csv"] (.file content) := by
    obtain ⟨-, fs₁, d, hparents, hd, hfiles⟩ := ha.files_out hreadsA hholds loadable_ledger.left
    have hparents' : makeParent ledger ⟨"out.csv"⟩ = (ledger, .ok ()) :=
      makeParent_of_inPlace (parentInPlace_of_bare (by decide +kernel))
    rw [ledgerLoad, hparents', Prod.mk.injEq] at hparents
    obtain ⟨rfl, -⟩ := hparents
    rw [ledgerLoad, @destination_of_isPlain _ _ hout (some _) rfl, Except.ok.injEq] at hd
    subst hd
    exact ⟨_, hfiles⟩
  have hb : (ledgerLoad (ledgerLoad ledger "first.csv").out.files "all.csv").Begins "id" "at" := by
    rw [hfiles]
    exact begins_ledgerLoad (by decide +kernel) hall hne rfl rfl
  have hreadsB : (ledgerLoad (ledgerLoad ledger "first.csv").out.files "all.csv").Reads
      ["id,at", "1,5", "2,7"] := by
    rw [hfiles]
    exact ⟨_, _, find_of_isPlain hall rfl, Lines.ofBytes_encode_unlines (by decide +kernel)⟩
  obtain ⟨-, -, -, content, hfileB, hfileC, -⟩ :=
    incremental_twice_eq_once ha hb hc hreadsA hreadsB hreadsC hholds rfl rfl loadable_ledger
      (by decide +kernel)
  obtain ⟨-, hfileC'⟩ := hc.readFile_out hreadsC hholds loadable_ledger
  have hadded : addedLines "id,at" 1 (ledgerLoad ledger "all.csv").before ["0,3"]
      ["1,5", "2,7"] = ["1,5", "2,7"] := by
    rw [hbefore]
    decide +kernel
  rw [hadded, hbefore, ← Lines.encode_unlines_append] at hfileC'
  exact ⟨hfileC', hfileB.trans (hfileC.symm.trans hfileC')⟩

end Load
end Haulage
