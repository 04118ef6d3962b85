import Haulage.Connections.Registry
import Haulage.Invocation
import Haulage.Json.Reader
import Haulage.Json.Value

/-!
# Tasks

The options of a run say what it is asked to do: where the data comes from and goes to, which
columns and rows are taken, and the mode, which says what becomes of the data already there.

A task is a run whose options have been checked: its mode is known, its inline JSON can be read and
its two ends are resolved. A task records what it is in the telemetry context before anything is
moved.
-/

set_option autoImplicit false

namespace Haulage

open Haulage.Json

/-! ## Options -/

/-- What becomes of the data that is already in the target. -/
inductive Mode where
  | fullRefresh
  | incremental
  | truncate
  | snapshot
  | backfill
  deriving Repr, DecidableEq

namespace Mode

/-- The name of a mode. -/
def name : Mode → String
  | .fullRefresh => "full-refresh"
  | .incremental => "incremental"
  | .truncate => "truncate"
  | .snapshot => "snapshot"
  | .backfill => "backfill"

/-- All modes. -/
def all : List Mode :=
  [.fullRefresh, .incremental, .truncate, .snapshot, .backfill]

/-- The mode with a name. -/
def named? (s : String) : Option Mode :=
  all.find? fun m => m.name == s

/-- Whether a mode adds to what is already in the target. -/
def appends : Mode → Bool
  | .incremental => true
  | .backfill => true
  | _ => false

end Mode

/-- The options of a run. -/
structure RunOptions where
  sourceConnection : Option String
  sourceStream : Option String
  sourceOptions : Option String
  targetConnection : Option String
  targetObject : Option String
  targetOptions : Option String
  selection : Option String
  streams : Option String
  toStdout : Bool
  environment : Option String
  mode : String
  limit : Option UInt64
  primaryKey : Option String
  updateKey : Option String
  debug : Bool
  deriving Repr, DecidableEq

namespace RunOptions

/-- Whether the run adds to what is already in the target. -/
def appends (o : RunOptions) : Bool :=
  (Mode.named? o.mode).any Mode.appends

/-- Whether the run takes only what is newer than the target. -/
def isIncremental (o : RunOptions) : Bool :=
  Mode.named? o.mode == some .incremental

end RunOptions

/-! ## Tasks -/

/-- Where a run puts its rows. -/
inductive Target where
  | stdout
  | location (l : Location)
  deriving Repr, DecidableEq

namespace Target

/-- The connector type of a target. -/
def connectorType : Target → String
  | .stdout => "stdout"
  | .location l => l.connectorType

/-- The family of a target. -/
def family : Target → Family
  | .stdout => .file
  | .location l => l.family

/-- The location of a target. -/
def location? : Target → Option Location
  | .stdout => none
  | .location l => some l

end Target

/-- The value of an inline JSON option; without it null. -/
def readInline (flag : String) (raw : Option String) : Attempt Value :=
  match raw with
  | none => .ok .null
  | some s =>
    match Json.read s with
    | .ok v => .ok v
    | .error flaw => (failWith (.json flaw)).during (.readFlag flag)

/-- A run that can start. -/
structure Task where
  options : RunOptions
  source : Location
  target : Target
  sourceOptions : Value
  targetOptions : Value
  environment : Value

namespace Task

/-- Requires a known mode, and the keys that an incremental run needs. -/
def checkMode (o : RunOptions) : Attempt Unit :=
  if (Mode.named? o.mode).isNone then failWith (.invalidMode o.mode (Mode.all.map Mode.name))
  else if o.isIncremental ∧ (o.primaryKey.isNone ∨ o.updateKey.isNone) then failWith .keysNeeded
  else .ok ()

/-- The target that the options ask for. -/
def resolveTarget (r : Registry) (fs : FileSystem) (o : RunOptions) : Attempt Target :=
  if o.toStdout then .ok .stdout
  else
    ((r.endpoint fs o.targetConnection o.targetObject).during .resolveTarget).map Target.location

/-- The task that the options ask for. -/
def ofOptions (r : Registry) (fs : FileSystem) (o : RunOptions) : Attempt Task :=
  match checkMode o with
  | .error f => .error f
  | .ok () =>
    match readInline "--src-options" o.sourceOptions with
    | .error f => .error f
    | .ok sourceOptions =>
      match readInline "--tgt-options" o.targetOptions with
      | .error f => .error f
      | .ok targetOptions =>
        match readInline "--env" o.environment with
        | .error f => .error f
        | .ok environment =>
          match (r.endpoint fs o.sourceConnection o.sourceStream).during .resolveSource with
          | .error f => .error f
          | .ok source =>
            (resolveTarget r fs o).map fun target =>
              ⟨o, source, target, sourceOptions, targetOptions, environment⟩

/-- The families of the two ends. -/
def kind (t : Task) : String :=
  t.source.family.label ++ "-" ++ t.target.family.label

/-- What the task is. -/
def summary (t : Task) : Value :=
  .object
    [("source_type", .string t.source.connectorType),
      ("target_type", .string t.target.connectorType), ("mode", .string t.options.mode),
      ("type", .string t.kind)]

/-- What the task was asked to do; of the inline environment only the number of its names. -/
def optionSummary (t : Task) (bulkExportFlowCsv : Bool) : Value :=
  .object
    [("limit", (t.options.limit.map fun n => Value.ofNat n.toNat).getD .null),
      ("select", .ofOption t.options.selection), ("streams", .ofOption t.options.streams),
      ("primary_key", .ofOption t.options.primaryKey),
      ("update_key", .ofOption t.options.updateKey), ("stdout", .bool t.options.toStdout),
      ("src_options", t.sourceOptions), ("tgt_options", t.targetOptions),
      ("env_keys", .ofNat ((t.environment.members?.map List.length).getD 0)),
      ("bulk_export_flow_csv", .bool bulkExportFlowCsv)]

/-- Records the task. -/
def record (t : Task) (bulkExportFlowCsv : Bool) (ctx : Context) : Context :=
  (ctx.setText "task" t.summary.compact).setText "task_options"
    (t.optionSummary bulkExportFlowCsv).compact

end Task

end Haulage
