import Haulage.Proofs.Connections.FileUrls
import Haulage.Proofs.Run.FilesKept
import Haulage.Proofs.Run.Progress

/-!
# Runs between ends of the type of a file

A run records the connector types of its two ends. When both are recorded as files, the run copies
one file to the other, unless an end is named by a file URL without the lead `file://` of local
paths: such a run sets out over the network, does not get there and moves nothing.

- `records_execute`: what a run with a task has on record when it ends.
- `exists_read_of_endpoint`: the text that names a remote end.
- `overNetwork_fails`: the way over the network between such ends.
- `dispatched_of_recordsFiles`: how a run between ends that it recorded as files goes.
-/

set_option autoImplicit false

namespace Haulage

open Haulage.Json

/-! ## Ends that are named by a text -/

theorem Registry.exists_read_of_endpoint {r : Registry} {fs : FileSystem}
    {connection stream : Option String} {url : Url}
    (h : r.endpoint fs connection stream = .ok (.remote url)) :
    ∃ raw, Location.read raw = .remote url := by
  cases connection with
  | none =>
      cases stream with
      | none => cases h
      | some path => exact ⟨path, Except.ok.inj h⟩
  | some asked =>
      cases hresolve : r.resolve asked with
      | error f => cases stream <;> simp [endpoint, hresolve, Except.map] at h
      | ok base =>
          obtain ⟨raw, rfl⟩ := exists_read_of_resolve hresolve
          cases stream with
          | none =>
              rw [endpoint, hresolve] at h
              exact ⟨raw, Except.ok.inj h⟩
          | some stream =>
              -- a stream leads from a path to a path, so the end is remote only if its base is
              rw [endpoint, hresolve] at h
              have hstream : (Location.read raw).withStream fs stream = .remote url :=
                Except.ok.inj h
              cases hbase : Location.read raw with
              | remote base =>
                  rw [hbase] at hstream
                  exact ⟨raw, hbase.trans hstream⟩
              | file path =>
                  rw [hbase, Location.withStream] at hstream
                  split at hstream <;> cases hstream

namespace Location

/-- An end of the type of a file that is remote: a text names it by a file URL. -/
def IsFileUrl (l : Location) : Prop :=
  ∃ raw, l = read raw ∧ NamesFileUrl raw

/-- An end of the type of a file is local, or named by a file URL. -/
theorem isLocal_or_isFileUrl {r : Registry} {fs : FileSystem} {connection stream : Option String}
    {l : Location} (h : r.endpoint fs connection stream = .ok l)
    (htype : l.connectorType = "file") :
    l.IsLocal ∨ l.IsFileUrl := by
  cases l with
  | file path => exact .inl ⟨path, rfl⟩
  | remote url =>
      obtain ⟨raw, hraw⟩ := Registry.exists_read_of_endpoint h
      exact .inr ⟨raw, hraw.symm, namesFileUrl_iff.mpr ⟨url, hraw, isFile_of_read hraw htype⟩⟩

/-- An end that a file URL names is remote. -/
theorem IsFileUrl.exists_remote {l : Location} (h : l.IsFileUrl) :
    ∃ url, l = .remote url ∧ url.IsFile := by
  obtain ⟨raw, rfl, hnames⟩ := h
  exact namesFileUrl_iff.mp hnames

end Location

/-! ## Over the network -/

namespace Transfer

variable {s : Surroundings} {net : Network} {ends : List Location}

/-- That a file URL cannot be reached. -/
def IsUnreachable {α : Type} (result : Attempt α) : Prop :=
  result = failWith (.noHost "file") ∨ result = failWith (.noPort "file")

/-- Of ends that are local or named by a file URL the first that is not local ends the probing. -/
theorem probeAll_fails (hends : ∀ l ∈ ends, l.IsLocal ∨ l.IsFileUrl)
    (hurl : ∃ l ∈ ends, l.IsFileUrl) :
    IsUnreachable (probeAll net ends) := by
  induction ends with
  | nil =>
      obtain ⟨l, hl, -⟩ := hurl
      cases hl
  | cons first more ih =>
      rw [List.forall_mem_cons] at hends
      rcases hends.1 with ⟨path, rfl⟩ | hfirst
      · -- a local end is passed over, and the file URL stands behind it
        obtain ⟨l, hl, hlUrl⟩ := hurl
        rcases List.mem_cons.mp hl with rfl | hl
        · obtain ⟨url, heq, -⟩ := hlUrl.exists_remote
          cases heq
        · exact ih hends.2 ⟨l, hl, hlUrl⟩
      · obtain ⟨url, rfl, hfile⟩ := hfirst.exists_remote
        rw [probeAll]
        rcases @Location.probe_of_isFile _ net hfile with hprobe | hprobe
        · rw [hprobe]
          exact .inl rfl
        · rw [hprobe]
          exact .inr rfl

/-- The way over the network ends where the first file URL cannot be reached. -/
theorem overNetwork_fails {fs : FileSystem} (hends : ∀ l ∈ ends, l.IsLocal ∨ l.IsFileUrl)
    (hurl : ∃ l ∈ ends, l.IsFileUrl) : IsUnreachable (overNetwork s fs ends).result := by
  rw [overNetwork]
  rcases @probeAll_fails s.network _ hends hurl with hprobe | hprobe
  · rw [hprobe]
    exact .inl rfl
  · rw [hprobe]
    exact .inr rfl

end Transfer

/-! ## What a run records of its ends -/

namespace Run

variable {s : Surroundings} {r : Registry} {o : RunOptions} {fs : FileSystem} {t : Task}

/-- A run with a task has the task on record when it ends, however it ends. -/
theorem records_execute (ht : Task.ofOptions r fs o = .ok t) :
    ∃ stage : Stage, Records (execute s r o fs []).context t.source.connectorType
      t.target.connectorType t.options.mode t.kind stage.name := by
  rw [execute_of_task ht, concluded]
  split
  · exact ⟨_, records_record t s.bulkExportFlowCsv _⟩
  · exact ⟨.done, (records_record t s.bulkExportFlowCsv .done).setText "task_stats" _ (by decide)⟩

/-- A context that records both ends of a run as files, as its reports show it. -/
structure RecordsFiles (ctx : Context) : Prop where
  source : (Classification.taskOf ctx.expand).get? "source_type" = some (.string "file")
  target : (Classification.taskOf ctx.expand).get? "target_type" = some (.string "file")

/-- A run records its ends as files when it has a task and its ends are of that type. -/
theorem recordsFiles_iff : RecordsFiles (execute s r o fs []).context ↔
    ∃ t, Task.ofOptions r fs o = .ok t ∧ t.source.connectorType = "file" ∧
      t.target.connectorType = "file" := by
  constructor
  · intro h
    cases ht : Task.ofOptions r fs o with
    | error f =>
        -- a run without a task has nothing on record under that key
        have hnone := h.source
        rw [execute_of_no_task ht] at hnone
        cases hnone
    | ok t =>
        obtain ⟨stage, hrecords⟩ := records_execute (s := s) ht
        obtain ⟨hsource, htarget⟩ := h
        rw [hrecords.taskOf_expand] at hsource htarget
        exact ⟨t, rfl, Value.string.inj (Option.some.inj hsource),
          Value.string.inj (Option.some.inj htarget)⟩
  · rintro ⟨t, ht, hsource, htarget⟩
    obtain ⟨stage, hrecords⟩ := records_execute (s := s) ht
    rw [hsource, htarget] at hrecords
    constructor <;> rw [hrecords.taskOf_expand] <;> rfl

/-! ## Which way a run goes -/

/-- A run that did not get anywhere over the network. -/
structure Unreached (fs : FileSystem) (out : Outcome) : Prop where
  files : out.files = fs
  stage : out.context.text? "stage" = some Stage.connect.name
  result : Transfer.IsUnreachable out.result

/-- How a run goes whose two ends are given: it copies a file to a file when both are local, and
gets nowhere when a file URL names one of them. -/
inductive Dispatched (s : Surroundings) (fs : FileSystem) (t : Task) (source target : Location)
    (out : Outcome) : Prop where
  | copied (src tgt : Path) (sourceLocal : source = .file src) (targetLocal : target = .file tgt)
      (copies : out = concluded s.elapsed (Transfer.toFile s fs t.options src tgt)
        (t.record s.bulkExportFlowCsv (begun [])))
  | unreached (url : source.IsFileUrl ∨ target.IsFileUrl) (fails : Unreached fs out)

/-- A task between two ends that are not both local goes over the network. -/
theorem unreached_of_isFileUrl (ht : Task.ofOptions r fs o = .ok t) {source target : Location}
    (hsource : t.source = source) (htarget : t.target = .location target)
    (hends : ∀ l ∈ [source, target], l.IsLocal ∨ l.IsFileUrl)
    (hurl : source.IsFileUrl ∨ target.IsFileUrl) : Unreached fs (execute s r o fs []) := by
  have hmem : ∃ l ∈ [source, target], l.IsFileUrl := by
    rcases hurl with h | h
    · exact ⟨source, by simp, h⟩
    · exact ⟨target, by simp, h⟩
  have hway : Transfer.ofTask s fs t = Transfer.overNetwork s fs [source, target] := by
    rw [Transfer.ofTask, hsource, htarget]
    rcases hurl with h | h
    · obtain ⟨url, rfl, -⟩ := h.exists_remote
      rfl
    · obtain ⟨url, rfl, -⟩ := h.exists_remote
      cases source <;> rfl
  have hfails : Transfer.IsUnreachable (Transfer.overNetwork s fs [source, target]).result :=
    Transfer.overNetwork_fails hends hmem
  have hfiles : (Transfer.overNetwork s fs [source, target]).files = fs :=
    Transfer.files_overNetwork _
  have hstage : (Transfer.overNetwork s fs [source, target]).stage = .connect :=
    Transfer.stage_overNetwork _
  rw [execute_of_task ht, hway]
  generalize Transfer.overNetwork s fs [source, target] = transfer at hfails hfiles hstage
  rcases hfails with hfails | hfails
  · rw [concluded, hfails, hfiles, hstage]
    exact ⟨rfl, rfl, .inl rfl⟩
  · rw [concluded, hfails, hfiles, hstage]
    exact ⟨rfl, rfl, .inr rfl⟩

/-- A text names a location of the type of a file exactly when it names a local one, unless it is a
file URL without the lead of local ones. A run that recorded both of its ends as files copied the
one to the other, unless such a text named one of them: then it went over the network and got
nowhere. -/
theorem dispatched_of_recordsFiles (raw : String) (s : Surroundings) (r : Registry) (o : RunOptions)
    (fs : FileSystem) :
    (((Location.read raw).connectorType = "file" ↔ (Location.read raw).IsLocal) ↔
      ¬ Location.NamesFileUrl raw) ∧
    (RecordsFiles (execute s r o fs []).context →
      ∃ t source target, Task.ofOptions r fs o = .ok t ∧ t.source = source ∧
        t.target = .location target ∧ Dispatched s fs t source target (execute s r o fs [])) := by
  constructor
  · rw [Location.connectorType_read_iff]
    constructor
    · intro hagree hnames
      obtain ⟨path, hlocal⟩ := hagree.mp (.inr hnames)
      obtain ⟨url, hremote, -⟩ := Location.namesFileUrl_iff.mp hnames
      rw [hlocal] at hremote
      cases hremote
    · intro hnames
      exact ⟨fun h => h.resolve_right hnames, .inl⟩
  · intro hrecords
    obtain ⟨t, ht, hsourceType, htargetType⟩ := recordsFiles_iff.mp hrecords
    obtain ⟨hsource, htarget⟩ := resolves_of_ofOptions ht
    have hsourceEnd := Location.isLocal_or_isFileUrl hsource hsourceType
    -- a run to standard output has no end there, and does not record a file
    split at htarget
    · rw [htarget] at htargetType
      exact absurd htargetType (by decide)
    · obtain ⟨target, htarget, hlocation⟩ := htarget
      rw [hlocation] at htargetType
      have htargetEnd := Location.isLocal_or_isFileUrl htarget htargetType
      refine ⟨t, t.source, target, ht, rfl, hlocation, ?_⟩
      have hends : ∀ l ∈ [t.source, target], l.IsLocal ∨ l.IsFileUrl := by
        intro l hl
        rcases List.mem_cons.mp hl with rfl | hl
        · exact hsourceEnd
        · exact List.mem_singleton.mp hl ▸ htargetEnd
      rcases hsourceEnd with ⟨src, hsrc⟩ | hurl
      · rcases htargetEnd with ⟨tgt, rfl⟩ | hurl
        · refine .copied src tgt hsrc rfl ?_
          rw [execute_of_task ht, Transfer.ofTask, hsrc, hlocation]
        · exact .unreached (.inr hurl) (unreached_of_isFileUrl ht rfl hlocation hends (.inr hurl))
      · exact .unreached (.inl hurl) (unreached_of_isFileUrl ht rfl hlocation hends (.inl hurl))

/-- What `FILE:///in.csv` names: a URL of a file, and not the path of one. -/
theorem read_upperCase : Location.read "FILE:///in.csv" =
    .remote ⟨"file", some ⟨none, .domain "", none⟩, "/in.csv", none, none⟩ := by
  decide +kernel

/-- The letter case of a file URL makes its connector type and its kind of location disagree. -/
theorem upperCase_disagrees :
    ¬ ((Location.read "FILE:///in.csv").connectorType = "file" ↔
      (Location.read "FILE:///in.csv").IsLocal) := by
  rw [read_upperCase]
  intro hagree
  obtain ⟨path, hlocal⟩ := hagree.mp (by decide)
  cases hlocal

/-- A file that a run is pointed to by such a URL. -/
def pointedFiles : FileSystem :=
  FileSystem.ofFiles [("in.csv", Utf8.encode "id\n1\n")]

/-- A run from there to a path records two files and gets nowhere. -/
theorem unreached_upperCase :
    RecordsFiles
      (execute .quiet .empty (.between "FILE:///in.csv" "out.csv" .fullRefresh) pointedFiles
      []).context ∧
    Unreached pointedFiles (execute .quiet .empty (.between "FILE:///in.csv" "out.csv" .fullRefresh)
      pointedFiles []) := by
  have htarget : Location.read "out.csv" = .file ⟨"out.csv"⟩ := by decide +kernel
  have ht : Task.ofOptions .empty pointedFiles (.between "FILE:///in.csv" "out.csv" .fullRefresh) =
      .ok ⟨.between "FILE:///in.csv" "out.csv" .fullRefresh, _, _, .null, .null, .null⟩ :=
    Task.ofOptions_of_endpoints rfl ⟨rfl, rfl, rfl⟩ (Registry.endpoint_path read_upperCase) rfl
      (Registry.endpoint_path htarget)
  have hrecords :
      RecordsFiles (execute .quiet .empty (.between "FILE:///in.csv" "out.csv" .fullRefresh)
      pointedFiles []).context := by
    rw [recordsFiles_iff]
    exact ⟨_, ht, rfl, rfl⟩
  refine ⟨hrecords, ?_⟩
  obtain ⟨t, source, target, ht', hsource, -, hway⟩ :=
    (dispatched_of_recordsFiles "FILE:///in.csv" _ _ _ _).2 hrecords
  rw [ht, Except.ok.injEq] at ht'
  cases hway with
  | unreached url fails => exact fails
  | copied src tgt sourceLocal =>
      rw [← hsource, ← ht'] at sourceLocal
      cases sourceLocal

end Run

end Haulage
