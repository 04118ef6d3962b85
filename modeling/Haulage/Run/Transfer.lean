import Haulage.Copy.Rows
import Haulage.Files.Streams
import Haulage.Outcome
import Haulage.Run.Task

/-!
# Runs

A run checks its options, records the task, carries it out and records what was moved. The telemetry
context says at every point how far the run has got.

A task between files is carried out by copying rows; any other task gets as far as reaching its
remote ends. A target file is opened only after the target has been told apart from the source and
has contributed its plan. Rows go to it through a buffer, which a failing copy loses.
-/

set_option autoImplicit false

namespace Haulage

/-- How far a run has got. -/
inductive Stage where
  | init
  | extract
  | load
  | connect
  | done
  deriving Repr, DecidableEq

/-- The name of a stage. -/
def Stage.name : Stage → String
  | .init => "init"
  | .extract => "extract"
  | .load => "load"
  | .connect => "connect"
  | .done => "done"

/-- What a copy has moved. -/
structure RunStats where
  rows : Nat
  bytes : Nat
  deriving Repr, DecidableEq

/-- What a transfer leaves behind; the stage is the last one entered. -/
structure Transfer where
  files : FileSystem
  stage : Stage
  outputs : List Output
  result : Attempt RunStats

namespace Transfer

/-- A transfer that fails without a trace. -/
def failing (fs : FileSystem) (stage : Stage) (f : Failure) : Transfer :=
  ⟨fs, stage, [], .error f⟩

/-- The outcome of a copy. -/
def resultOf (c : Copied) : Attempt RunStats :=
  match c.failure with
  | some f => .error f
  | none => .ok ⟨c.rows, c.bytes⟩

/-- The number of rows from one progress message to the next. -/
def progressStep : Nat :=
  100000

/-- The progress message due after so many rows. -/
def progressAt (shown : Bool) (rows : Nat) : List Output :=
  if shown ∧ 0 < rows ∧ rows % progressStep = 0 then
    [.log ⟨.info, "ferry::commands::run", Numeric.decimal rows ++ " rows so far", []⟩]
  else []

/-- All progress messages due within so many rows. -/
def progressWithin (shown : Bool) (rows : Nat) : List Output :=
  (List.range (rows / progressStep)).flatMap fun k => progressAt shown ((k + 1) * progressStep)

/-- The lines of a copy on standard output; the first of them is the header. -/
def linesShown (shown : Bool) (written : List String) : List Output :=
  written.zipIdx.flatMap fun (line, rows) => .stdout (line ++ "\n") :: progressAt shown rows

/-! ## To standard output -/

/-- Copies a file to standard output. -/
def toStdout (s : Surroundings) (fs : FileSystem) (options : RunOptions) (source : Path) :
    Transfer :=
  match Copy.file fs source options .fresh s.cancelAfter with
  | .error f => failing fs .extract f
  | .ok copied => ⟨fs, .load, linesShown s.showProgress copied.written, resultOf copied⟩

/-! ## To a file -/

/-- Refuses a target that is the source itself. -/
def checkDistinct (fs : FileSystem) (source target : Path) : Attempt Unit :=
  match fs.canonical source, fs.canonical target with
  | .ok a, .ok b => if a = b then failWith (.sameFile a) else .ok ()
  | _, _ => .ok ()

/-- Creates the directories above a target. -/
def makeParent (fs : FileSystem) (target : Path) : FileSystem × Attempt Unit :=
  match target.parent? with
  | none => (fs, .ok ())
  | some parent =>
    if parent.text.isEmpty then (fs, .ok ())
    else
      match fs.makeDirectories parent with
      | (fs, r) => (fs, (Attempt.ofSystem r).during (.create parent))

/-- Opens a target for writing. It exists from then on, and is empty unless the run adds to it. -/
def openTarget (fs : FileSystem) (target : Path) (appends : Bool) :
    FileSystem × Attempt FileSystem.Destination :=
  match makeParent fs target with
  | (fs, .error f) => (fs, .error f)
  | (fs, .ok ()) =>
    match fs.destination target with
    | .error e => (fs, (failWith (.system e)).during (.openTarget target))
    | .ok d =>
      let content := if appends then d.content else []
      (fs.put d.place (.file content), .ok ⟨d.place, content⟩)

/-- The writes that put lines into a buffer: each line and then its newline. -/
def chunks (written : List String) : List Bytes :=
  written.flatMap fun line => [Utf8.encode line, [0x0A]]

/-- The bytes of a copy that reach the target: all of them, or on failure those that had left the
buffer. -/
def deliveredBytes (c : Copied) : Bytes :=
  let w := (chunks c.written).foldl Buffered.write .empty
  match c.failure with
  | some _ => w.delivered
  | none => w.flush.delivered

/-- Copies a file to a file. A source that is its own target, by a detour, is copied as it was when
the target was opened: without the rows that this copy adds to it. -/
def toFile (s : Surroundings) (fs : FileSystem) (options : RunOptions) (source target : Path) :
    Transfer :=
  match checkDistinct fs source target with
  | .error f => failing fs .extract f
  | .ok () =>
    match CopyPlan.forTarget fs target options with
    | .error f => failing fs .extract f
    | .ok plan =>
      -- the target is emptied before the source is opened and before its header is checked
      match openTarget fs target options.appends with
      | (fs, .error f) => failing fs .extract f
      | (fs, .ok d) =>
        match Copy.file fs source options plan s.cancelAfter with
        | .error f => failing fs .extract f
        | .ok copied =>
          ⟨fs.put d.place (.file (d.content ++ deliveredBytes copied)), .load,
            progressWithin s.showProgress copied.rows, resultOf copied⟩

/-! ## Over the network -/

/-- Probes locations one after the other; local ones need no probe. -/
def probeAll (net : Network) : List Location → Attempt Unit
  | [] => .ok ()
  | .file _ :: more => probeAll net more
  | .remote url :: more =>
    match Location.probe net url with
    | .error f => .error f
    | .ok () => probeAll net more

/-- The failure of a task between locations of which at least one is remote: the first remote one
is not supported. -/
def unsupported : List Location → Failure
  | [] => .of (.unsupportedScheme Family.file.label Family.file.label)
  | .file _ :: more => unsupported more
  | .remote url :: _ => .of (.unsupportedScheme (Location.remote url).connectorType url.scheme)

/-- Reaches the remote ends. -/
def overNetwork (s : Surroundings) (fs : FileSystem) (ends : List Location) : Transfer :=
  match probeAll s.network ends with
  | .error f => failing fs .connect f
  | .ok () => failing fs .connect (unsupported ends)

/-- Carries out a task. -/
def ofTask (s : Surroundings) (fs : FileSystem) (t : Task) : Transfer :=
  match t.source, t.target with
  | .file source, .stdout => toStdout s fs t.options source
  | .file source, .location (.file target) => toFile s fs t.options source target
  | source, target => overNetwork s fs (source :: target.location?.toList)

end Transfer

end Haulage

namespace Haulage.Run

open Haulage.Json

/-- The context of a run that has just begun. -/
def begun (ctx : Context) : Context :=
  (ctx.setText "run_mode" "task").setText "stage" Stage.init.name

/-- What a finished run has moved. -/
def statsValue (stats : RunStats) (elapsed : Duration) : Value :=
  .object
    [("rows", .ofNat stats.rows), ("bytes", .ofNat stats.bytes),
      ("duration_ms", .ofNat elapsed.wholeMillis)]

/-- The last words of a run. -/
def closingLine (stats : RunStats) (elapsed : Duration) : String :=
  "wrote " ++ Numeric.decimal stats.rows ++ " rows (" ++ Numeric.decimal stats.bytes ++
    " bytes) in " ++
    elapsed.secondsText ++ "s\n"

/-- Ends a transfer whose task is recorded in the context. -/
def concluded (elapsed : Duration) (t : Transfer) (ctx : Context) : Outcome :=
  match t.result with
  | .error f => ⟨t.files, ctx.setText "stage" t.stage.name, t.outputs, .error f⟩
  | .ok stats =>
    { files := t.files
      context :=
        (ctx.setText "stage" Stage.done.name).setText "task_stats"
          (statsValue stats elapsed).compact
      outputs := t.outputs ++ [.stderr (closingLine stats elapsed)]
      result := .ok () }

/-- Runs with the given options. -/
def execute (s : Surroundings) (r : Registry) (o : RunOptions) (fs : FileSystem) (ctx : Context) :
    Outcome :=
  match Task.ofOptions r fs o with
  | .error f => ⟨fs, begun ctx, [], .error f⟩
  | .ok task =>
    concluded s.elapsed (.ofTask s fs task) (task.record s.bulkExportFlowCsv (begun ctx))

end Haulage.Run
