import Haulage.Proofs.Run.FileCopy

/-!
# Adding lines to a target

A run in a mode that adds to its target writes one line for each row behind all that the target
holds. The rows are lines of their own when the target ends in a newline. A last line without one is
taken for a row of the target like any other when the run is planned, but it takes in the first row
that is written: the target then has one line less than it had lines and rows.

- `succeeds_between_files`: a run that succeeds with a file for its target has copied a file.
- `adds_of_execute`: what a run adds to a target that was there.
- `lines_kept_iff`: when the lines of the target are followed by one line for each row.
- `row_joined_to_open_line`: a row that does not become a line of its own.
-/

set_option autoImplicit false

namespace Haulage

open Haulage.Json FileSystem

/-! ## The source of a run that succeeds -/

/-- A target that has a line has a header. -/
theorem CopyPlan.skipHeader_of_forTarget {fs : FileSystem} {target : Path} {o : RunOptions}
    {plan : CopyPlan} (happends : o.appends = true) {place : Place} {before : Bytes}
    (hfile : fs.find target = .ok (place, .file before)) (hne : before ≠ [])
    (h : CopyPlan.forTarget fs target o = .ok plan) : plan.skipHeader = true := by
  rw [CopyPlan.forTarget, if_pos happends, openToRead_of_find_file hfile] at h
  -- a content that is not empty has a first line, open or not
  cases hlines : Lines.ofBytes before with
  | nil => exact absurd (Lines.ofBytes_eq_nil_iff.mp hlines) hne
  | cons line rows =>
      simp only [Lines.ofOpened, hlines] at h
      cases line with
      | error fault => cases h
      | ok header =>
          rw [CopyPlan.ofLines] at h
          split at h
          · cases h
            rfl
          · split at h
            · cases h
            · rename_i column hcolumn
              cases hmark : CopyPlan.ofFault (CopyPlan.watermarkFrom column none rows) with
              | error f =>
                  rw [hmark] at h
                  cases h
              | ok mark =>
                  rw [hmark] at h
                  cases h
                  rfl

namespace Transfer

variable {s : Surroundings} {fs : FileSystem}

theorem result_overNetwork (s : Surroundings) (fs : FileSystem) (ends : List Location) :
    ∃ f, (overNetwork s fs ends).result = .error f := by
  rw [overNetwork]
  split
  · exact ⟨_, rfl⟩
  · exact ⟨_, rfl⟩

/-- A task whose target is a location succeeds only between files. -/
theorem exists_files_of_succeeds {t : Task} {l : Location} (ht : t.target = .location l)
    {stats : RunStats} (hok : (ofTask s fs t).result = .ok stats) :
    ∃ source target, t.source = .file source ∧ l = .file target := by
  obtain ⟨o, source, _, _, _, _⟩ := t
  dsimp only at ht
  subst ht
  -- with a remote end a task gets as far as reaching it
  cases source with
  | remote url =>
      obtain ⟨f, hf⟩ := result_overNetwork s fs [.remote url, l]
      have hnetwork : (overNetwork s fs [.remote url, l]).result = .ok stats := by
        cases l <;> exact hok
      rw [hf] at hnetwork
      cases hnetwork
  | file source =>
      cases l with
      | remote url =>
          obtain ⟨f, hf⟩ := result_overNetwork s fs [.file source, .remote url]
          have hnetwork : (overNetwork s fs [.file source, .remote url]).result = .ok stats := hok
          rw [hf] at hnetwork
          cases hnetwork
      | file target => exact ⟨source, target, rfl, rfl⟩

end Transfer

namespace Run

open Transfer

variable {s : Surroundings} {r : Registry} {o : RunOptions} {fs : FileSystem} {ctx : Context}
  {target : Path}

/-- A run that succeeds with a file for its target has copied a file. -/
theorem succeeds_between_files (hstdout : o.toStdout = false)
    (htarget : r.endpoint fs o.targetConnection o.targetObject = .ok (.file target))
    (hok : (execute s r o fs ctx).result = .ok ()) :
    ∃ source t, r.endpoint fs o.sourceConnection o.sourceStream = .ok (.file source) ∧
      execute s r o fs ctx =
        concluded s.elapsed (toFile s fs o source target)
          (Task.record t s.bulkExportFlowCsv (begun ctx)) := by
  cases ht : Task.ofOptions r fs o with
  | error f =>
      rw [execute_of_no_task ht] at hok
      cases hok
  | ok t =>
      obtain ⟨-, -, -, -, hsource, hto, hoptions⟩ := Task.ofOptions_eq_ok_iff.mp ht
      rw [Task.resolveTarget_of_endpoint hstdout htarget, Except.ok.injEq] at hto
      rw [execute_of_task ht, result_concluded_eq_ok_iff] at hok
      obtain ⟨stats, hstats⟩ := hok
      obtain ⟨source, _, hfrom, -⟩ := exists_files_of_succeeds hto.symm hstats
      rw [hfrom] at hsource
      refine ⟨source, t, hsource, ?_⟩
      rw [execute_of_task ht, Transfer.ofTask, hfrom, ← hto, hoptions]

/-! ## What is added -/

/-- What a run adds to a target that held some bytes: one line for each row that it copies. -/
structure Adds (s : Surroundings) (r : Registry) (o : RunOptions) (fs : FileSystem) (target : Path)
    (before : Bytes) (rows : List String) (out : Outcome) : Prop where
  /-- The rows are what the copy writes of the source, once the target is open. -/
  copied : ∃ source plan c,
    r.endpoint fs o.sourceConnection o.sourceStream = .ok (.file source) ∧
      CopyPlan.forTarget fs target o = .ok plan ∧ plan.skipHeader = true ∧
      Copy.file (openTarget fs target o.appends).1 source o plan s.cancelAfter = .ok c ∧
      c.failure = none ∧ c.written = rows
  /-- Each row comes with a newline, behind all that was there. -/
  target : out.files.readFile target = .ok (before ++ Utf8.encode (Lines.unlines rows))
  /-- The rows on record are the rows. -/
  recorded : ∃ stats : RunStats,
    Members.get? out.context "task_stats" =
      some (.string (statsValue stats s.elapsed).compact) ∧ stats.rows = rows.length

theorem adds_of_execute {place : Place} {before : Bytes} (hstdout : o.toStdout = false)
    (htarget : r.endpoint fs o.targetConnection o.targetObject = .ok (.file target))
    (hfile : fs.find target = .ok (place, .file before)) (hne : before ≠ [])
    (happends : o.appends = true) (hok : (execute s r o fs ctx).result = .ok ()) :
    ∃ rows, Adds s r o fs target before rows (execute s r o fs ctx) ∧
      ∀ row ∈ rows, '\n' ∉ row.toList := by
  obtain ⟨source, t, hsource, hexec⟩ := succeeds_between_files hstdout htarget hok
  rw [hexec] at hok ⊢
  obtain ⟨stats, hstats⟩ := result_concluded_eq_ok_iff.mp hok
  obtain ⟨plan, fs₁, d, c, hopens, hcopy, hsucceeds, rfl, hfiles⟩ := copied_of_succeeds hstats
  have hd := hopens.destination
  -- the target is opened as it was found
  have hkept : d.kept o.appends = before := by
    rw [Destination.kept, if_pos happends]
    have hfound := find_of_grown hopens.grown hfile
    rcases find_of_destination hd with hfind | ⟨hfind, -⟩
    · rw [hfound, Except.ok.injEq, Prod.mk.injEq, Node.file.injEq] at hfind
      exact hfind.2.symm
    · rw [hfound] at hfind
      cases hfind
  have hskip := CopyPlan.skipHeader_of_forTarget happends hfile hne hopens.planned
  obtain ⟨entry, -, hlines⟩ := Copy.file_eq_ok_iff.mp hcopy
  refine
    ⟨c.written, ⟨⟨source, plan, c, hsource, hopens.planned, hskip, ?_, hsucceeds, rfl⟩, ?_, ?_⟩, ?_⟩
  · rw [openTarget_of_destination hopens.parents hd]
    exact hcopy
  · rw [files_concluded, hfiles, hkept, readFile,
      openToRead_of_find_file (find_put_destination hd _)]
    rfl
  · rw [concluded_of_ok hstats]
    refine ⟨⟨c.rows, c.bytes⟩, ?_, ?_⟩
    · simp only [Context.setText, Members.get?_set, if_true]
    · subst hlines
      rw [Copy.length_written_lines hsucceeds, Copy.headerLines, hskip]
      rfl
  · exact Copy.newline_not_mem_of_file hcopy

/-- A run that adds to a target keeps its lines and puts one line for each row behind them exactly
when the target ends in a newline or no row is added. Behind a last line that is open, the first row
becomes the end of that line. -/
theorem lines_kept_iff {place : Place} {before : Bytes} (hstdout : o.toStdout = false)
    (htarget : r.endpoint fs o.targetConnection o.targetObject = .ok (.file target))
    (hfile : fs.find target = .ok (place, .file before)) (hne : before ≠ [])
    (happends : o.appends = true) (hok : (execute s r o fs ctx).result = .ok ()) :
    ∃ rows after, Adds s r o fs target before rows (execute s r o fs ctx) ∧
      (execute s r o fs ctx).files.readFile target = .ok after ∧
      (Lines.bodies after = Lines.bodies before ++ rows.map Utf8.encode ↔
        before.getLast? = some 0x0A ∨ rows = []) ∧
      (Lines.ofBytes after = Lines.ofBytes before ++
        rows.map (fun row => .ok (Lines.readBack row)) ↔
        before.getLast? = some 0x0A ∨ rows = []) ∧
      (before.getLast? ≠ some 0x0A → ∀ row more, rows = row :: more →
        ∃ front last, Lines.bodies before = front ++ [last] ∧
          Lines.bodies after = front ++ (last ++ Utf8.encode row) :: more.map Utf8.encode) := by
  obtain ⟨rows, hadds, hrows⟩ := adds_of_execute hstdout htarget hfile hne happends hok
  refine ⟨rows, before ++ Utf8.encode (Lines.unlines rows), hadds, hadds.target,
    Lines.bodies_append_iff hne hrows, Lines.ofBytes_append_iff hne hrows, ?_⟩
  rintro hopen row more rfl
  exact Lines.bodies_append_of_open hne hopen hrows

/-! ## Two targets -/

/-- The row of a source is added behind any target whose header can be read. -/
theorem execute_backfill_of_header {before : Bytes} {header : String}
    {more : List (Except LineFault String)} (hbefore : Lines.ofBytes before = .ok header :: more) :
    (execute .quiet .empty (.between "in.csv" "out.csv" .backfill)
        (twoFiles (Utf8.encode "id,v\n1,a\n") before) []).result = .ok () ∧
      (execute .quiet .empty (.between "in.csv" "out.csv" .backfill)
        (twoFiles (Utf8.encode "id,v\n1,a\n") before) []).files.readFile ⟨"out.csv"⟩ =
          .ok (before ++ Utf8.encode "1,a\n") := by
  have ht := @ofOptions_twoFiles (Utf8.encode "id,v\n1,a\n") before .backfill rfl
  generalize ho : RunOptions.between "in.csv" "out.csv" .backfill = o at ht ⊢
  generalize hcontent : Utf8.encode "id,v\n1,a\n" = content at ht ⊢
  have happends : o.appends = true := by
    subst ho
    rfl
  have hplan : CopyPlan.forTarget (twoFiles content before) ⟨"out.csv"⟩ o = .ok ⟨true, none⟩ := by
    subst ho
    rw [CopyPlan.forTarget, if_pos happends, openToRead_of_find_file find_target_twoFiles]
    simp only [Lines.ofOpened, hbefore]
    rfl
  have hopens := opens_twoFiles hplan
  generalize hc : Copy.lines o ⟨true, none⟩ ⟨⟨"in.csv"⟩, Lines.ofBytes content,
    Surroundings.quiet.cancelAfter⟩ = c
  have hwritten : c.written = ["1,a"] := by
    subst ho hc hcontent
    decide +kernel
  have hsucceeds : c.failure = none := by
    subst ho hc hcontent
    apply Option.isNone_iff_eq_none.mp
    decide +kernel
  have hplace : ["in.csv"] ≠ ["out.csv"] := by decide +kernel
  obtain ⟨hresult, hfiles⟩ : (execute .quiet .empty o (twoFiles content before) []).result =
    .ok () ∧
      (execute .quiet .empty o (twoFiles content before) []).files =
        (twoFiles content before).put ["out.csv"]
          (.file ((⟨["out.csv"], before⟩ : Destination).kept o.appends ++ Utf8.encode c.text)) :=
    execute_of_opens ht rfl rfl hopens find_source_twoFiles hplace hc hsucceeds
  refine ⟨hresult, ?_⟩
  rw [hfiles, readFile, openToRead_of_find_file (find_put_destination hopens.destination _),
    Destination.kept, if_pos happends, Copied.text_eq_unlines, hwritten]
  rfl

theorem lines_kept_behind_newline :
    ∃ rows after, rows ≠ [] ∧
      Adds .quiet .empty (.between "in.csv" "out.csv" .backfill)
        (twoFiles (Utf8.encode "id,v\n1,a\n") (Utf8.encode "id,v\n0,z\n")) ⟨"out.csv"⟩
        (Utf8.encode "id,v\n0,z\n") rows
        (execute .quiet .empty (.between "in.csv" "out.csv" .backfill)
          (twoFiles (Utf8.encode "id,v\n1,a\n") (Utf8.encode "id,v\n0,z\n")) []) ∧
      (execute .quiet .empty (.between "in.csv" "out.csv" .backfill)
        (twoFiles (Utf8.encode "id,v\n1,a\n") (Utf8.encode "id,v\n0,z\n")) []).files.readFile
          ⟨"out.csv"⟩ = .ok after ∧
      Lines.bodies after =
        Lines.bodies (Utf8.encode "id,v\n0,z\n") ++ rows.map Utf8.encode := by
  have hlines : ∀ line ∈ ["id,v", "0,z"],
      '\n' ∉ line.toList ∧ line.toList.getLast? ≠ some '\r' := by decide +kernel
  have htext : "id,v\n0,z\n" = Lines.unlines ["id,v", "0,z"] := by decide +kernel
  have hbefore : Lines.ofBytes (Utf8.encode "id,v\n0,z\n") = [.ok "id,v", .ok "0,z"] := by
    rw [htext]
    exact Lines.ofBytes_encode_unlines hlines
  have hclosed : (Utf8.encode "id,v\n0,z\n").getLast? = some 0x0A := by decide +kernel
  have hne : Utf8.encode "id,v\n0,z\n" ≠ [] := by decide +kernel
  obtain ⟨hok, hafter⟩ := execute_backfill_of_header hbefore
  obtain ⟨rows, after, hadds, hread, hbodies, -, -⟩ :=
    lines_kept_iff rfl endpoint_target_twoFiles find_target_twoFiles hne rfl hok
  refine ⟨rows, after, ?_, hadds, hread, hbodies.mpr (.inl hclosed)⟩
  rintro rfl
  have hnothing := hadds.target
  rw [hafter, Except.ok.injEq, List.append_cancel_left_eq] at hnothing
  revert hnothing
  decide +kernel

/-- The row behind a last line without a newline becomes the end of that line. -/
theorem row_joined_to_open_line :
    (execute .quiet .empty (.between "in.csv" "out.csv" .backfill)
        (twoFiles (Utf8.encode "id,v\n1,a\n") (Utf8.encode "id,v\n0,z")) []).result = .ok () ∧
      (execute .quiet .empty (.between "in.csv" "out.csv" .backfill)
        (twoFiles (Utf8.encode "id,v\n1,a\n") (Utf8.encode "id,v\n0,z")) []).files.readFile
          ⟨"out.csv"⟩ = .ok (Utf8.encode "id,v\n0,z1,a\n") ∧
      Lines.bodies (Utf8.encode "id,v\n0,z1,a\n") ≠
        Lines.bodies (Utf8.encode "id,v\n0,z") ++ [Utf8.encode "1,a"] := by
  have hraw : Lines.raw (Utf8.encode "id,v\n0,z") =
      [Utf8.encode "id,v" ++ [0x0A], Utf8.encode "0,z"] := by decide +kernel
  have hbefore : Lines.ofBytes (Utf8.encode "id,v\n0,z") =
      [.ok (Lines.readBack "id,v"), Lines.ofRaw (Utf8.encode "0,z")] := by
    rw [Lines.ofBytes, hraw, List.map_cons, Lines.ofRaw_encode_append_newline]
    rfl
  obtain ⟨hok, hafter⟩ := execute_backfill_of_header hbefore
  exact ⟨hok, hafter, by decide +kernel⟩

end Run

end Haulage
