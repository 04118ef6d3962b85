import Haulage.Proofs.Run.Task
import Haulage.Proofs.Run.Transfer

/-!
# Copies from file to file

A run from a file to another file that succeeds leaves in the target what the mode keeps of it and
then the lines of the copy, touches nothing else, and records the rows and bytes that it added. A
mode that keeps nothing of the target writes the same bytes to standard output when it is asked to.

- `stdoutText_linesShown`: the text of a copy on standard output.
- `execute_stdout`: a run to standard output.
- `execute_copies_file`: a run to a file.
- `opens_twoFiles`: a run between two files side by side opens its target.
-/

set_option autoImplicit false

namespace Haulage

open Haulage.Json FileSystem Transfer

/-! ## What is said on standard output -/

namespace Output

theorem stdoutText_append (first second : List Output) :
    stdoutText (first ++ second) = stdoutText first ++ stdoutText second := by
  rw [stdoutText, List.filterMap_append, String.join_append]
  rfl

theorem stdoutText_stdout (text : String) (more : List Output) :
    stdoutText (.stdout text :: more) = text ++ stdoutText more := by
  rw [stdoutText, List.filterMap_cons, String.join_cons]
  rfl

end Output

theorem Transfer.stdoutText_progressAt (shown : Bool) (rows : Nat) :
    Output.stdoutText (progressAt shown rows) = "" := by
  rw [progressAt]
  split <;> rfl

theorem Transfer.stdoutText_linesFrom (shown : Bool) (written : List String) (rows : Nat) :
    Output.stdoutText ((written.zipIdx rows).flatMap fun (line, rows) =>
      .stdout (line ++ "\n") :: progressAt shown rows) = Lines.unlines written := by
  induction written generalizing rows with
  | nil => rfl
  | cons line more ih =>
      rw [List.zipIdx_cons, List.flatMap_cons, Output.stdoutText_append, Output.stdoutText_stdout,
        stdoutText_progressAt, ih, Lines.unlines, Lines.unlines, List.map_cons, String.join_cons,
        String.append_empty]

/-- The lines of a copy are all that is said on standard output. -/
theorem Transfer.stdoutText_linesShown (shown : Bool) (written : List String) :
    Output.stdoutText (linesShown shown written) = Lines.unlines written :=
  stdoutText_linesFrom shown written 0

/-- The same run with standard output in place of its target. -/
def RunOptions.onStdout (o : RunOptions) : RunOptions :=
  { o with targetConnection := none, targetObject := none, toStdout := true }

theorem Copy.lines_onStdout (o : RunOptions) (plan : CopyPlan) (source : CopySource) :
    Copy.lines o.onStdout plan source = Copy.lines o plan source :=
  rfl

namespace Run

variable {s : Surroundings} {r : Registry} {o : RunOptions} {fs : FileSystem} {ctx : Context}
  {source target : Path}

/-- A run that has a task has one on standard output. -/
theorem ofOptions_onStdout {t : Task} (h : Task.ofOptions r fs o = .ok t) :
    Task.ofOptions r fs o.onStdout = .ok { t with options := o.onStdout, target := .stdout } := by
  rw [Task.ofOptions_eq_ok_iff] at h ⊢
  obtain ⟨hmode, hsrc, htgt, henv, hsource, -, -⟩ := h
  exact ⟨hmode, hsrc, htgt, henv, hsource, rfl, rfl⟩

/-- A run to standard output that copies without a failure. -/
theorem execute_stdout {t : Task} (ht : Task.ofOptions r fs o = .ok t)
    (hsource : t.source = .file source) {place : Place} {content : Bytes}
    (hfile : fs.find source = .ok (place, .file content)) {c : Copied}
    (hc : Copy.lines o .fresh ⟨source, Lines.ofBytes content, s.cancelAfter⟩ = c)
    (hsucceeds : c.failure = none) :
    (execute s r o.onStdout fs ctx).result = .ok () ∧
      Output.stdoutText (execute s r o.onStdout fs ctx).outputs = c.text := by
  have hcopy : Copy.file fs source o.onStdout .fresh s.cancelAfter = .ok c := by
    rw [file_of_find hfile, Copy.lines_onStdout, hc]
  have htransfer : Transfer.ofTask s fs { t with options := o.onStdout, target := .stdout } =
      ⟨fs, .load, linesShown s.showProgress c.written, .ok ⟨c.rows, c.bytes⟩⟩ := by
    simp only [Transfer.ofTask, hsource, toStdout, hcopy, resultOf, hsucceeds]
  rw [execute_of_task (ofOptions_onStdout ht), htransfer, concluded_of_ok rfl]
  refine ⟨rfl, ?_⟩
  rw [Output.stdoutText_append, stdoutText_linesShown]
  exact String.append_empty

/-! ## A copy into a file -/

/-- The bytes of the file that a path leads to; without one there are none. -/
def contentOf (fs : FileSystem) (p : Path) : Bytes :=
  match fs.readFile p with
  | .ok content => content
  | .error _ => []

theorem contentOf_of_find {p : Path} {place : Place} {content : Bytes}
    (hf : fs.find p = .ok (place, .file content)) : contentOf fs p = content := by
  rw [contentOf, readFile, openToRead_of_find_file hf]

theorem contentOf_of_destination {p : Path} {d : Destination} (hd : fs.destination p = .ok d) :
    contentOf fs p = d.content := by
  rcases find_of_destination hd with hf | ⟨hf, hempty⟩
  · exact contentOf_of_find hf
  · rw [contentOf, readFile, openToRead, hf, hempty]

/-- What a run between files leaves behind when it has copied: the bytes in the target, everything
else as it was, and the record of what was added. -/
structure Copies (s : Surroundings) (o : RunOptions) (fs : FileSystem) (target : Path)
    (targetPlace : Place) (plan : CopyPlan) (sourceEmpty : Bool) (added : Bytes) (out : Outcome) :
    Prop where
  /-- The target holds its earlier bytes, if the mode adds to them, and then what was added. -/
  target : out.files.readFile target =
    .ok ((if o.appends then contentOf fs target else []) ++ added)
  /-- Every other place is as it was. -/
  others : ∀ place, place ≠ targetPlace → out.files.node? place = fs.node? place
  /-- The rows on record are the lines added other than the header, the bytes all that were
  added. -/
  recorded : ∃ stats : RunStats,
    Members.get? out.context "task_stats" =
      some (.string (statsValue stats s.elapsed).compact) ∧
    stats.rows + Copy.headerLines plan sourceEmpty = added.count 0x0A ∧ stats.bytes = added.length

/-- A transfer that copied from a file to another file. -/
theorem copies_of_toFile {plan : CopyPlan} {d : Destination} {place : Place} {content : Bytes}
    {c : Copied} (hopens : Opens fs o source target plan fs d)
    (hfile : fs.find source = .ok (place, .file content)) (hne : place ≠ d.place)
    (hc : Copy.lines o plan ⟨source, Lines.ofBytes content, s.cancelAfter⟩ = c)
    (hsucceeds : c.failure = none) :
    Copies s o fs target d.place plan content.isEmpty (Utf8.encode c.text)
      (concluded s.elapsed (toFile s fs o source target) ctx) := by
  have hd := hopens.destination
  have hresult : (toFile s fs o source target).result = .ok ⟨c.rows, c.bytes⟩ := by
    rw [toFile_of_opens hopens hfile hne hc]
    simp only [resultOf, hsucceeds]
  have hfiles : (toFile s fs o source target).files =
      fs.put d.place (.file (d.kept o.appends ++ Utf8.encode c.text)) := by
    rw [toFile_of_opens hopens hfile hne hc, deliveredBytes_of_succeeds hsucceeds]
  have hlines : ∀ line ∈ c.written, '\n' ∉ line.toList := by
    subst hc
    exact Copy.newline_not_mem_of_mem_written fun line hline =>
      Lines.newline_not_mem_of_mem_ofBytes hline
  have hempty : (Lines.ofBytes content).isEmpty = content.isEmpty := by
    rw [Bool.eq_iff_iff, List.isEmpty_iff, List.isEmpty_iff, Lines.ofBytes_eq_nil_iff]
  rw [concluded_of_ok hresult]
  constructor
  · simp only [hfiles]
    rw [readFile, openToRead_of_find_file (find_put_destination hd _), contentOf_of_destination hd]
    rfl
  · intro place' hplace'
    simp only [hfiles]
    rw [node?_put fs _ (place_ne_nil_of_destination hd), if_neg fun e => hplace' e.symm]
  · -- each line that was added ends in the only newline it holds
    refine ⟨⟨c.rows, c.bytes⟩, ?_, ?_, c.length_encode_text.symm⟩
    · simp only [Context.setText, Members.get?_set, if_true]
    · rw [Copied.text_eq_unlines, Lines.count_newline_encode_unlines hlines, ← hempty]
      subst hc
      exact (Copy.length_written_lines hsucceeds).symm

/-- A run that opens its target and copies from another file succeeds, and writes nothing but
what it copies. -/
theorem execute_of_opens {t : Task} (ht : Task.ofOptions r fs o = .ok t)
    (hfrom : t.source = .file source) (hto : t.target = .location (.file target))
    {plan : CopyPlan} {fs₁ : FileSystem} {d : Destination}
    (hopens : Opens fs o source target plan fs₁ d) {place : Place} {content : Bytes}
    (hfile : fs₁.find source = .ok (place, .file content)) (hne : place ≠ d.place) {c : Copied}
    (hc : Copy.lines o plan ⟨source, Lines.ofBytes content, s.cancelAfter⟩ = c)
    (hsucceeds : c.failure = none) :
    (execute s r o fs ctx).result = .ok () ∧
      (execute s r o fs ctx).files =
        fs₁.put d.place (.file (d.kept o.appends ++ Utf8.encode c.text)) := by
  have hoptions : t.options = o := (Task.ofOptions_eq_ok_iff.mp ht).2.2.2.2.2.2
  have htransfer : Transfer.ofTask s fs t = toFile s fs o source target := by
    simp only [Transfer.ofTask, hfrom, hto, hoptions]
  rw [execute_of_task ht, htransfer, files_concluded, result_concluded_eq_ok_iff,
    toFile_of_opens hopens hfile hne hc, deliveredBytes_of_succeeds hsucceeds]
  refine ⟨⟨⟨c.rows, c.bytes⟩, ?_⟩, rfl⟩
  simp only [resultOf, hsucceeds]

/-- A run from a file to a file whose directory is in place, when it succeeds, has
copied into another file than its source; a mode that adds to nothing writes the same
bytes to standard output. -/
theorem execute_copies_file {place : Place} {content : Bytes}
    (hsource : r.endpoint fs o.sourceConnection o.sourceStream = .ok (.file source))
    (hstdout : o.toStdout = false)
    (htarget : r.endpoint fs o.targetConnection o.targetObject = .ok (.file target))
    (hfile : fs.find source = .ok (place, .file content)) (hparent : ParentInPlace fs target)
    (hok : (execute s r o fs ctx).result = .ok ()) :
    ∃ (d : Destination) (plan : CopyPlan) (c : Copied),
      fs.destination target = .ok d ∧ place ≠ d.place ∧
      CopyPlan.forTarget fs target o = .ok plan ∧
      Copy.file fs source o plan s.cancelAfter = .ok c ∧ c.failure = none ∧
      Copies s o fs target d.place plan content.isEmpty (Utf8.encode c.text)
        (execute s r o fs ctx) ∧
      (o.appends = false →
        (execute s r o.onStdout fs ctx).result = .ok () ∧
          Utf8.encode (Output.stdoutText (execute s r o.onStdout fs ctx).outputs) =
            Utf8.encode c.text) := by
  rcases execute_between_files hsource hstdout htarget with ⟨f, -, hexec⟩ | ⟨t, ht, hfrom, hexec⟩
  · rw [hexec] at hok
    cases hok
  · rw [hexec] at hok ⊢
    obtain ⟨stats, hstats⟩ := result_concluded_eq_ok_iff.mp hok
    have hcourse := course_toFile s fs o source target
    generalize htransfer : toFile s fs o source target = transfer at hcourse hstats
    -- only the last course of a transfer ends well
    cases hcourse with
    | refused => cases hstats
    | unopened => cases hstats
    | sourceless => cases hstats
    | @copied plan fs₁ d c hopens hcopy =>
        -- no directory comes up, so the plan was made for the target as it is opened
        have hfs := hopens.parents
        rw [makeParent_of_inPlace hparent, Prod.mk.injEq] at hfs
        obtain ⟨rfl, -⟩ := hfs
        have hne := place_ne_of_distinct hopens.distinct hopens.destination hfile
        rw [opened, file_of_find (find_opened_of_ne hopens hfile hne _), Except.ok.injEq] at hcopy
        have hsucceeds : c.failure = none := by
          simp only [resultOf] at hstats
          split at hstats
          · cases hstats
          · assumption
        refine ⟨d, plan, c, hopens.destination, hne, hopens.planned, ?_, hsucceeds, ?_, ?_⟩
        · rw [file_of_find hfile, hcopy]
        · rw [← htransfer]
          exact copies_of_toFile hopens hfile hne hcopy hsucceeds
        · -- without adding to the target there is nothing to plan for
          intro happends
          have hfresh := hopens.planned
          rw [CopyPlan.forTarget, happends, if_neg Bool.false_ne_true, Except.ok.injEq] at hfresh
          subst hfresh
          obtain ⟨hresult, hsaid⟩ : (execute s r o.onStdout fs ctx).result = .ok () ∧
              Output.stdoutText (execute s r o.onStdout fs ctx).outputs = c.text :=
            execute_stdout ht hfrom hfile hcopy hsucceeds
          exact ⟨hresult, congrArg Utf8.encode hsaid⟩

/-- A run for two rows, without the names in them. -/
def firstTwo : RunOptions :=
  { RunOptions.between "in.csv" "out.csv" .fullRefresh with
    selection := some "-name"
    limit := some 2 }

/-- Three people and an older list. -/
def peopleFiles : FileSystem :=
  ofFiles
    [("in.csv", Utf8.encode "id,name\n1,ann\n2,bob\n3,cy\n"), ("out.csv", Utf8.encode "old\n")]

theorem execute_copies_firstTwo :
    (execute .quiet .empty firstTwo peopleFiles []).files.readFile ⟨"out.csv"⟩ =
        .ok (Utf8.encode "id\n1\n2\n") ∧
      Utf8.encode
        (Output.stdoutText (execute .quiet .empty firstTwo.onStdout peopleFiles []).outputs) =
        Utf8.encode "id\n1\n2\n" := by
  generalize hfs : peopleFiles = fs
  generalize hpeople : Utf8.encode "id,name\n1,ann\n2,bob\n3,cy\n" = people
  have hsource : Registry.empty.endpoint fs none (some "in.csv") = .ok (.file ⟨"in.csv"⟩) :=
    Registry.endpoint_path (by decide +kernel)
  have htarget : Registry.empty.endpoint fs none (some "out.csv") = .ok (.file ⟨"out.csv"⟩) :=
    Registry.endpoint_path (by decide +kernel)
  have hfile : fs.find ⟨"in.csv"⟩ = .ok (["in.csv"], .file people) := by
    subst hfs hpeople
    exact find_of_isPlain (by decide +kernel) rfl
  have hfound : fs.find ⟨"out.csv"⟩ = .ok (["out.csv"], .file (Utf8.encode "old\n")) := by
    subst hfs
    exact find_of_isPlain (by decide +kernel) rfl
  have hd : fs.destination ⟨"out.csv"⟩ = .ok ⟨["out.csv"], Utf8.encode "old\n"⟩ := by
    subst hfs
    exact @destination_of_isPlain _ _ (by decide +kernel) (some _) rfl
  have hparent : ParentInPlace fs ⟨"out.csv"⟩ := parentInPlace_of_bare (by decide +kernel)
  have hopens : Opens fs firstTwo ⟨"in.csv"⟩ ⟨"out.csv"⟩ .fresh fs
      ⟨["out.csv"], Utf8.encode "old\n"⟩ :=
    ⟨checkDistinct_of_find hfile hfound (by decide +kernel), rfl, makeParent_of_inPlace hparent, hd⟩
  have ht : Task.ofOptions .empty fs firstTwo =
      .ok ⟨firstTwo, .file ⟨"in.csv"⟩, .location (.file ⟨"out.csv"⟩), .null, .null, .null⟩ :=
    Task.ofOptions_of_endpoints rfl ⟨rfl, rfl, rfl⟩ hsource rfl htarget
  have hwritten : (Copy.lines firstTwo .fresh ⟨⟨"in.csv"⟩, Lines.ofBytes people, none⟩).written =
      ["id", "1", "2"] := by
    subst hpeople
    decide +kernel
  have hsucceeds : (Copy.lines firstTwo .fresh ⟨⟨"in.csv"⟩, Lines.ofBytes people, none⟩).failure =
      none := by
    subst hpeople
    apply Option.isNone_iff_eq_none.mp
    decide +kernel
  have hok : (execute .quiet .empty firstTwo fs []).result = .ok () :=
    (execute_of_opens ht rfl rfl hopens hfile (by decide +kernel) rfl hsucceeds).1
  obtain ⟨d, plan, c, -, -, hplan, hcopy, -, hcopies, hsaid⟩ :=
    execute_copies_file hsource rfl htarget hfile hparent hok
  rw [hopens.planned, Except.ok.injEq] at hplan
  subst hplan
  rw [file_of_find hfile, Except.ok.injEq] at hcopy
  have htext : c.text = "id\n1\n2\n" := by
    have hlines : c.written = ["id", "1", "2"] := by
      rw [← hcopy]
      exact hwritten
    rw [Copied.text_eq_unlines, hlines]
    decide +kernel
  rw [htext] at hcopies hsaid
  exact ⟨hcopies.target, (hsaid rfl).2⟩

/-! ## Two files side by side -/

/-- A source and a target in one directory. -/
def twoFiles (content before : Bytes) : FileSystem :=
  ofFiles [("in.csv", content), ("out.csv", before)]

section TwoFiles

variable {content before : Bytes}

theorem find_source_twoFiles :
    (twoFiles content before).find ⟨"in.csv"⟩ = .ok (["in.csv"], .file content) :=
  find_of_isPlain (by decide +kernel) rfl

theorem find_target_twoFiles :
    (twoFiles content before).find ⟨"out.csv"⟩ = .ok (["out.csv"], .file before) :=
  find_of_isPlain (by decide +kernel) rfl

theorem endpoint_target_twoFiles :
    Registry.empty.endpoint (twoFiles content before) none (some "out.csv") =
      .ok (.file ⟨"out.csv"⟩) :=
  Registry.endpoint_path (by decide +kernel)

/-- A mode that needs no keys has a task. -/
theorem ofOptions_twoFiles {mode : Mode}
    (hmode : Task.checkMode (.between "in.csv" "out.csv" mode) = .ok ()) :
    Task.ofOptions .empty (twoFiles content before) (.between "in.csv" "out.csv" mode) =
      .ok ⟨.between "in.csv" "out.csv" mode, .file ⟨"in.csv"⟩, .location (.file ⟨"out.csv"⟩), .null,
        .null, .null⟩ :=
  Task.ofOptions_of_endpoints hmode ⟨rfl, rfl, rfl⟩ (Registry.endpoint_path (by decide +kernel)) rfl
    endpoint_target_twoFiles

theorem opens_twoFiles {plan : CopyPlan}
    (hplan : CopyPlan.forTarget (twoFiles content before) ⟨"out.csv"⟩ o = .ok plan) :
    Opens (twoFiles content before) o ⟨"in.csv"⟩ ⟨"out.csv"⟩ plan (twoFiles content before)
      ⟨["out.csv"], before⟩ where
  distinct := checkDistinct_of_find find_source_twoFiles find_target_twoFiles (by decide +kernel)
  planned := hplan
  parents := makeParent_of_inPlace (parentInPlace_of_bare (by decide +kernel))
  destination := @destination_of_isPlain _ _ (by decide +kernel) (some _) rfl

end TwoFiles

end Run

end Haulage
