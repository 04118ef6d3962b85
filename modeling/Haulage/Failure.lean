import Haulage.Files.Streams
import Haulage.Glob
import Haulage.Json.Cursor
import Haulage.Text.Quoted

/-!
# Failures

A failure is a cause together with what was being done when it arose, outermost first. Its wording
joins the parts with colons. A failure counts as a cancellation when its cause is one, or when any
of its parts reads like one.
-/

set_option autoImplicit false

namespace Haulage

open Haulage.Text

/-- The innermost reason of a failure. -/
inductive Cause where
  /-- The command saw that it was cancelled and stopped. -/
  | cancelled
  /-- A fault recovered from the worker, with the trace captured at the time. -/
  | internalFault (message backtrace : String)
  | unsupportedScheme (connection scheme : String)
  | connectionNotFound (name : String)
  | system (e : OsError)
  | line (fault : LineFault)
  | json (flaw : Json.Flaw)
  | pattern (flaw : Glob.Flaw)
  | notText
  | invalidMode (mode : String) (modes : List String)
  | keysNeeded
  | noEndpoint
  | sameFile (path : Path)
  | noColumn (name : String)
  | noSourceColumn (name : String)
  | noUrl (connection : String)
  | urlNeeded (connection : String)
  | noEquals (property : String)
  | emptyKey (property : String)
  | noHost (scheme : String)
  | noPort (scheme : String)
  | fileConnection (name : String)
  | text (s : String)
  deriving Repr

/-- The text of a cancellation. -/
def cancelledText : String :=
  "operation cancelled"

/-- The wording of a cause. -/
def Cause.message : Cause → String
  | .cancelled => cancelledText
  | .internalFault message _ => "internal fault: " ++ message
  | .unsupportedScheme connection scheme =>
    "unsupported connection scheme " ++ quoted scheme ++ " for " ++ connection
  | .connectionNotFound name => "connection " ++ quoted name ++ " not found"
  | .system e => e.message
  | .line fault => fault.message
  | .json flaw => flaw.message
  | .pattern flaw => flaw.message
  | .notText => "stream did not contain valid UTF-8"
  | .invalidMode mode modes =>
    "invalid mode " ++ quoted mode ++ ", expected one of " ++ ", ".intercalate modes
  | .keysNeeded => "incremental mode requires --primary-key and --update-key"
  | .noEndpoint => "no connection or stream given"
  | .sameFile path => "source and target are the same file: " ++ path.text
  | .noColumn name => "column " ++ quoted name ++ " not found"
  | .noSourceColumn name => "column " ++ quoted name ++ " not found in source"
  | .noUrl connection => "connection " ++ quoted connection ++ " has no url property"
  | .urlNeeded connection => "connection " ++ quoted connection ++ " needs a url=... property"
  | .noEquals property => "invalid property " ++ quoted property ++ ", expected key=value"
  | .emptyKey property => "invalid property " ++ quoted property ++ ", empty key"
  | .noHost scheme => scheme ++ " connection has no host"
  | .noPort scheme => "no port for " ++ scheme ++ " connection"
  | .fileConnection name => "cannot execute SQL on file connection " ++ quoted name
  | .text s => s

/-- What was being done when a failure arose. -/
inductive Activity where
  | readEnv (path : Path)
  | parseEnv (path : Path)
  | create (path : Path)
  | writeEnv (path : Path)
  | resolveSource
  | resolveTarget
  | readFlag (flag : String)
  | openSource (path : Path)
  | openTarget (path : Path)
  | readLine (path : Path)
  | findUpdateKey (target : Path)
  | connect (host : String) (port : Nat)
  | stat (path : Path)
  | testConnection (name : String)
  | readPattern
  | list (root : Path)
  | visit (path : Path) (e : OsError)
  | text (s : String)
  deriving Repr

/-- The wording of an activity. -/
def Activity.message : Activity → String
  | .readEnv path => "read env file " ++ path.text
  | .parseEnv path => "parse env file " ++ path.text
  | .create path => "create " ++ path.text
  | .writeEnv path => "write env file " ++ path.text
  | .resolveSource => "invalid source"
  | .resolveTarget => "invalid target"
  | .readFlag flag => "invalid " ++ flag ++ " JSON"
  | .openSource path => "open source " ++ path.text
  | .openTarget path => "open target " ++ path.text
  | .readLine path => "read " ++ path.text
  | .findUpdateKey target => "update key missing from target " ++ target.text
  | .connect host port => "connect to " ++ host ++ ":" ++ Numeric.decimal port
  | .stat path => "stat " ++ path.text
  | .testConnection name => "could not connect to " ++ name
  | .readPattern => "invalid pattern"
  | .list root => "list " ++ root.text
  | .visit path e => "IO error for operation on " ++ path.text ++ ": " ++ e.message
  | .text s => s

/-- A cause and the activities around it, outermost first. -/
structure Failure where
  activities : List Activity
  cause : Cause
  deriving Repr

namespace Failure

/-- A failure without activities. -/
def of (cause : Cause) : Failure :=
  ⟨[], cause⟩

/-- The failure as seen from an activity around it. -/
def during (f : Failure) (activity : Activity) : Failure :=
  { f with activities := activity :: f.activities }

/-- The wording of each part, outermost first. -/
def chain (f : Failure) : List String :=
  f.activities.map Activity.message ++ [f.cause.message]

/-- The wording of the outermost part. -/
def headline (f : Failure) : String :=
  match f.activities with
  | [] => f.cause.message
  | activity :: _ => activity.message

/-- The wording of all parts. -/
def message (f : Failure) : String :=
  ": ".intercalate f.chain

/-- Whether the failure is a cancellation. -/
def isCancellation (f : Failure) : Bool :=
  f.chain.any (· == cancelledText)

/-- The text recorded for a failure: its wording, or for an internal fault its message and trace. -/
def record (f : Failure) : String :=
  match f.cause with
  | .internalFault message backtrace => "panic occurred! " ++ message ++ "\n" ++ backtrace
  | _ => f.message

/-- A cancelled command is a cancellation under any activities. -/
theorem isCancellation_of_cancelled (activities : List Activity) :
    (Failure.mk activities .cancelled).isCancellation = true := by
  have hm : Cause.cancelled.message = cancelledText := rfl
  simp only [isCancellation, chain, hm, List.any_append, List.any_cons, beq_self_eq_true,
    Bool.true_or, Bool.or_true]

end Failure

/-- The outcome of a step that can fail. -/
abbrev Attempt (α : Type) := Except Failure α

/-- Fails with a cause. -/
def failWith {α : Type} (cause : Cause) : Attempt α :=
  .error (.of cause)

/-- The attempt as part of an activity. -/
def Attempt.during {α : Type} (a : Attempt α) (activity : Activity) : Attempt α :=
  match a with
  | .ok x => .ok x
  | .error f => .error (f.during activity)

/-- The attempt of a system call. -/
def Attempt.ofSystem {α : Type} (r : Except OsError α) : Attempt α :=
  match r with
  | .ok x => .ok x
  | .error e => failWith (.system e)

end Haulage
