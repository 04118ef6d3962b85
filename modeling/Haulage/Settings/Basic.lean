import Haulage.Duration
import Haulage.Files.FileSystem
import Haulage.Text.Basic
import Haulage.Url.Basic

/-!
# Settings

Everything that the environment decides, read once from a lookup of its variables. A variable that
is missing or blank leaves the default. A duration or URL that cannot be read leaves the default too
and is kept as a warning. A toggle is a text that switches a setting on or off; blanks around it and
the case of its letters do not count.
-/

set_option autoImplicit false

namespace Haulage.Toggle

open Haulage.Text

/-- The texts that mean on. -/
def onWords : List String :=
  ["1", "t", "true", "yes", "y", "on"]

/-- The texts that mean off. -/
def offWords : List String :=
  ["0", "f", "false", "no", "n", "off"]

/-- What a text means, if it means either. -/
def read? (raw : String) : Option Bool :=
  let word := lowerAscii (trim raw)
  if word ∈ onWords then some true
  else if word ∈ offWords then some false
  else none

end Haulage.Toggle

namespace Haulage

open Haulage.Text

/-- The name under which the program identifies itself. -/
def appName : String :=
  "ferry-cli"

/-- The version of the program. -/
def appVersion : String :=
  "0.1.0"

/-- How much is logged. -/
inductive DebugLevel where
  | info
  | debug
  /-- Debug output with full timestamps. -/
  | lowDebug
  | trace
  deriving Repr, DecidableEq

namespace DebugLevel

/-- The level that a variable selects. -/
def ofVariable (raw : Option String) : DebugLevel :=
  match raw.map trim with
  | none => .info
  | some word =>
    if word = "" then .info
    else if sameIgnoringCase word "trace" then .trace
    else if sameIgnoringCase word "low" then .lowDebug
    else .debug

/-- The level as a log filter names it. -/
def filter : DebugLevel → String
  | .info => "info"
  | .debug => "debug"
  | .lowDebug => "debug"
  | .trace => "trace"

/-- The name of the level. -/
def name : DebugLevel → String
  | .info => "Info"
  | .debug => "Debug"
  | .lowDebug => "LowDebug"
  | .trace => "Trace"

end DebugLevel

/-- Where the log goes and how its lines look. -/
inductive LogFormat where
  /-- Short lines on standard error. -/
  | console
  /-- Lines with full timestamps on standard error. -/
  | task
  /-- JSON lines on standard output. -/
  | json
  deriving Repr, DecidableEq

namespace LogFormat

/-- The format that a variable selects. -/
def ofVariable (raw : Option String) : LogFormat :=
  match raw.map fun v => upperAscii (trim v) with
  | none => .console
  | some word =>
    if word = "TASK" then .task
    else if word = "MASTER" ∨ word = "WORKER" then .json
    else .console

/-- The name of the format. -/
def name : LogFormat → String
  | .console => "Console"
  | .task => "Task"
  | .json => "Json"

end LogFormat

/-- A variable whose value was ignored. -/
inductive SettingsWarning where
  | grace (value : String) (flaw : Duration.Flaw)
  | url (variableName value : String) (flaw : Url.Flaw)
  deriving Repr

/-- The wording of a warning. -/
def SettingsWarning.message : SettingsWarning → String
  | .grace value flaw =>
    "ignoring FERRY_SHUTDOWN_GRACE=" ++ quoted value ++ ": " ++ flaw.message
  | .url variableName value flaw =>
    "ignoring " ++ variableName ++ ": invalid url " ++ quoted value ++ ": " ++ flaw.message

/-- The settings of a process. -/
structure Settings where
  telemetry : Bool
  /-- A development build never emits usage events. -/
  devBuild : Bool
  showProgress : Bool
  bulkExportFlowCsv : Bool
  projectId : Option String
  debug : DebugLevel
  logFormat : LogFormat
  logColor : Bool
  eventsUrl : Option Url
  diagnosticsUrl : Option Url
  packageName : String
  shutdownGrace : Duration
  /-- The directory of the connections file, when it is chosen. -/
  homeDir : Option Path
  warnings : List SettingsWarning
  deriving Repr

namespace Settings

/-- The time an interrupted command may take, unless chosen otherwise. -/
def defaultGrace : Duration :=
  .ofSeconds 5

/-- The value of a variable that holds more than blanks. -/
def value? (lookup : String → Option String) (key : String) : Option String :=
  (lookup key).filter fun v => !isBlankText v

/-- A toggle that falls back to a default when it is missing or cannot be read. -/
def toggle (lookup : String → Option String) (key : String) (default : Bool) : Bool :=
  ((value? lookup key).bind Toggle.read?).getD default

/-- The grace period and a warning if the variable cannot be read. -/
def readGrace (lookup : String → Option String) : Duration × List SettingsWarning :=
  match value? lookup "FERRY_SHUTDOWN_GRACE" with
  | none => (defaultGrace, [])
  | some v =>
    match Duration.read (trim v) with
    | .ok d => (d, [])
    | .error flaw => (defaultGrace, [.grace v flaw])

/-- A URL and a warning if the variable cannot be read. -/
def readUrl (lookup : String → Option String) (key : String) : Option Url × List SettingsWarning :=
  match value? lookup key with
  | none => (none, [])
  | some v =>
    match Url.read (trim v) with
    | .ok u => (some u, [])
    | .error flaw => (none, [.url key v flaw])

/-- The settings of an environment. -/
def ofLookup (devBuild : Bool) (lookup : String → Option String) : Settings :=
  let (grace, graceWarnings) := readGrace lookup
  let (events, eventsWarnings) := readUrl lookup "FERRY_EVENTS_URL"
  let (diagnostics, diagnosticsWarnings) := readUrl lookup "FERRY_DIAGNOSTICS_URL"
  { telemetry := !toggle lookup "FERRY_DISABLE_TELEMETRY" false
    devBuild
    showProgress := lookup "FERRY_SHOW_PROGRESS" != some "false"
    bulkExportFlowCsv := toggle lookup "FERRY_BULK_EXPORT_FLOW_CSV" false
    projectId := (value? lookup "FERRY_PROJECT_ID").or (value? lookup "GITHUB_REPOSITORY_ID")
    debug := .ofVariable (lookup "FERRY_DEBUG")
    logFormat := .ofVariable (lookup "FERRY_LOGGING")
    logColor := toggle lookup "FERRY_LOGGING_COLOR" true
    eventsUrl := events
    diagnosticsUrl := diagnostics
    packageName := (value? lookup "FERRY_PACKAGE").getD "binary"
    shutdownGrace := grace
    homeDir := (value? lookup "FERRY_HOME").map Path.mk
    warnings := graceWarnings ++ eventsWarnings ++ diagnosticsWarnings }

/-- The directory for local state: the chosen one, else one in the user's home, else
one right here. -/
def home (s : Settings) (userHome : Option Path) : Path :=
  s.homeDir.getD ((userHome.map (·.join ⟨".ferry"⟩)).getD ⟨".ferry"⟩)

/-- Whether usage events may leave the process. -/
def trackingEnabled (s : Settings) : Bool :=
  s.telemetry && !s.devBuild

end Settings

end Haulage
