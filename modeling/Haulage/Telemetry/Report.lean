import Haulage.Digest.Blake3
import Haulage.Failure
import Haulage.Invocation
import Haulage.Json.Reader
import Haulage.SortedMap
import Haulage.Telemetry.Usage
import Haulage.Text.Basic

/-!
# Failure reports

A report of a failure holds its wording, the telemetry context and tags that classify it. A run is
tagged by what its task recorded, a connection command by the type of the connection. Entries of the
context that hold a JSON object as text are shown as objects. A cancellation is not reported.

A trace lists frames, each on a line of its own as `index: symbol`. Of these the program's own
frames form the call path, innermost first. Symbols are cleaned: a hash at the end and closures
before it do not count. Failures are grouped by their call path; a failure without one by its cause.
-/

set_option autoImplicit false

namespace Haulage

open Haulage.Text Haulage.Json

namespace CallPath

/-! ## Symbols -/

/-- The characters that end the symbol of a closure, last one first. -/
def closureMark : List Char :=
  "::\x7b\x7bclosure\x7d\x7d".toList.reverse

/-- Drops closures from a reversed symbol. -/
def dropClosures (reversed : List Char) : List Char :=
  match _h : dropLead? closureMark reversed with
  | some before => dropClosures before
  | none => reversed
termination_by reversed.length
decreasing_by
  have hl := length_of_dropLead? _h
  have hm : closureMark.length = 13 := by decide
  omega

/-- The number of digits of a symbol's hash. -/
def hashLength : Nat :=
  16

/-- Drops a hash and its mark from a reversed symbol. -/
def dropHash (reversed : List Char) : List Char :=
  let digits := reversed.take hashLength
  if digits.length = hashLength ∧ digits.all isHexDigit then
    (dropLead? ['h', ':', ':'] (reversed.drop hashLength)).getD reversed
  else reversed

/-- A symbol without the blanks around it, its hash and its closures. -/
def cleanSymbol (symbol : String) : String :=
  String.ofList (dropClosures (dropHash (trimChars symbol.toList).reverse)).reverse

/-! ## Frames -/

/-- The symbol on a line that holds a frame. -/
def frameSymbol? (line : String) : Option String :=
  match splitAtWord? [':', ' '] (trimChars line.toList) with
  | some (index, symbol) =>
    if !index.isEmpty && index.all Numeric.isDecimalDigit then
      some (cleanSymbol (String.ofList symbol))
    else none
  | none => none

/-- Whether a symbol belongs to the program and not to its capture of faults. -/
def isOwn (symbol : String) : Bool :=
  let cs := symbol.toList.dropWhile (· == '<')
  (dropLead? "ferry::".toList cs).isSome && !occursIn "::boundary::".toList cs

/-- The symbols of the program's own frames in a trace. -/
def ofTrace (trace : String) : List String :=
  ((lines trace).filterMap frameSymbol?).filter isOwn

/-- A short hash of a text. -/
def shortHash (s : String) : String :=
  String.ofList ((Blake3.hashText s).toList.take 16)

end CallPath

/-- How a failure is grouped. -/
structure ExceptionInfo where
  kind : String
  value : String
  deriving Repr, DecidableEq

namespace ExceptionInfo

/-- A name with the short hash of a text. -/
def tagged (name hashed : String) : String :=
  name ++ " [" ++ CallPath.shortHash hashed ++ "]"

/-- The kind of a failure that has no call path. -/
def plainKind : Cause → String
  | .internalFault _ _ => "InternalFault"
  | _ => "CommandError"

/-- The group of a failure, given its call path: the innermost symbol, and its caller with the hash
of the path. -/
def ofPath (path : List String) (f : Failure) (i : Invocation) : ExceptionInfo :=
  match path with
  | [] => ⟨plainKind f.cause, tagged i.eventName f.cause.message⟩
  | innermost :: callers =>
    ⟨innermost, tagged (callers.headD innermost) ("\n".intercalate path)⟩

/-- The group of a failure, given its trace. -/
def ofTrace (trace : String) (f : Failure) (i : Invocation) : ExceptionInfo :=
  ofPath (CallPath.ofTrace trace) f i

/-- The group of a failure; only an internal fault has a trace. -/
def ofFailure (f : Failure) (i : Invocation) : ExceptionInfo :=
  match f.cause with
  | .internalFault _ trace => ofTrace trace f i
  | _ => ofTrace "" f i

end ExceptionInfo

/-! ## Nested entries -/

namespace Context

/-- The keys whose entries are shown as objects. -/
def nestedKeys : List String :=
  ["task", "task_options", "task_stats"]

/-- The object that an entry holds as text. -/
def nestedObject? : Value → Option Value
  | .string s =>
    match Json.read s with
    | .ok (.object members) => some (.object members)
    | _ => none
  | _ => none

/-- Replaces the text of an entry by the object that it holds. -/
def expandKey (ctx : Context) (key : String) : Context :=
  match (Members.get? ctx key).bind nestedObject? with
  | some v => Members.set ctx key v
  | none => ctx

/-- Replaces the texts of all nested entries. -/
def expand (ctx : Context) : Context :=
  nestedKeys.foldl expandKey ctx

end Context

/-- The text of a value for a tag; null and the empty text give none. -/
def tagText? : Option Value → Option String
  | none => none
  | some .null => none
  | some (.string s) => if s.isEmpty then none else some s
  | some v => some v.compact

/-! ## Tags -/

/-- The tags of a report. -/
abbrev Tags := SortedMap String

namespace Tags

/-- The text for what is not known. -/
def unknown : String :=
  "unknown"

/-- The tags with one more, if there is a value for it. -/
def insertSome (tags : Tags) (key : String) (value : Option String) : Tags :=
  match value with
  | some v => tags.insert key v
  | none => tags

end Tags

/-- How a report is filed: under a transaction and by tags. -/
structure Classification where
  transaction : String
  tags : Tags

namespace Classification

/-- The task that an expanded context holds; nothing if it holds none. -/
def taskOf (ctx : Context) : Members :=
  ((Members.get? ctx "task").bind Value.members?).getD []

/-- The text of an entry for a tag, with a fallback. -/
def required (members : Members) (key : String) : String :=
  (tagText? (members.get? key)).getD Tags.unknown

/-- The classification of a failed connection command. -/
def ofConnection (ctx : Context) : Classification :=
  let target := required ctx "conn_type"
  let tags : Tags := SortedMap.empty.insert "run_mode" "conns"
  ⟨target, tags.insert "target_type" target⟩

/-- The classification of a failed run. -/
def ofRun (s : Settings) (ctx : Context) : Classification :=
  let task := taskOf ctx
  let source := required task "source_type"
  let target := required task "target_type"
  let ends : Tags := (SortedMap.empty.insert "source_type" source).insert "target_type" target
  let progress :=
    (ends.insertSome "stage" (tagText? (Members.get? ctx "stage"))).insertSome "run_mode"
      (tagText? (Members.get? ctx "run_mode"))
  let kind :=
    (progress.insertSome "mode" (tagText? (task.get? "mode"))).insertSome "type"
      (tagText? (task.get? "type"))
  ⟨source ++ " - " ++ target,
    Tags.insertSome (kind.insert "package" s.packageName) "project_id" s.projectId⟩

/-- The classification of a failure of a kind of command, given the expanded context. -/
def of (s : Settings) (kind : CommandKind) (ctx : Context) : Classification :=
  match kind with
  | .connectionManagement => ofConnection ctx
  | .dataMovement => ofRun s ctx

end Classification

/-! ## Reports -/

/-- A report of a failure. -/
structure DiagnosticEvent where
  exception : ExceptionInfo
  message : String
  transaction : String
  tags : Tags
  user : Identity
  release : String
  timestamp : String

namespace DiagnosticEvent

/-- The line between the wording of a failure and the context. -/
def divider : String :=
  String.ofList (List.replicate 56 '-')

/-- The release of the program. -/
def currentRelease : String :=
  "ferry@" ++ appVersion

/-- The report as JSON. -/
def toValue (e : DiagnosticEvent) : Value :=
  .object
    [("exception",
        .object [("type", .string e.exception.kind), ("value", .string e.exception.value)]),
      ("message", .string e.message), ("transaction", .string e.transaction),
      ("tags", .object (e.tags.toList.map fun (k, v) => (k, .string v))),
      ("user", .object [("id", .string e.user.text)]), ("release", .string e.release),
      ("timestamp", .string e.timestamp)]

end DiagnosticEvent

namespace Telemetry

/-- The report of a failure. -/
def report (t : Telemetry) (ctx : Context) (f : Failure) (i : Invocation) : DiagnosticEvent :=
  let expanded := ctx.expand
  let filed := Classification.of t.settings i.kind expanded
  { exception := .ofFailure f i
    message :=
      f.record ++ "\n\n" ++ DiagnosticEvent.divider ++ "\n\n" ++ (Value.object expanded).pretty
    transaction := filed.transaction
    tags := filed.tags
    user := t.identity
    release := DiagnosticEvent.currentRelease
    timestamp := t.timestamp }

/-- The failure to report: the given one, else the one that the context records. -/
def failureToReport (ctx : Context) (f : Option Failure) : Option Failure :=
  match f with
  | some f => some f
  | none => (ctx.text? Context.errorKey).map fun s => .of (.text s)

/-- The report of a failure, unless telemetry is off, there is no failure or it is a
cancellation. -/
def report? (t : Telemetry) (ctx : Context) (f : Option Failure) (i : Invocation) :
    Option DiagnosticEvent :=
  if t.settings.telemetry then
    match failureToReport ctx f with
    | some f => if f.isCancellation then none else some (t.report ctx f i)
    | none => none
  else none

/-- The delivery of a report, if a collector is known. -/
def reportDelivery? (t : Telemetry) (e : DiagnosticEvent) : Option Delivery :=
  t.settings.diagnosticsUrl.map fun url =>
    { kind := .diagnostic
      endpoint := url
      userAgent := appName ++ "/" ++ appVersion
      body := e.toValue }

end Telemetry

end Haulage
