import Haulage.Completion
import Haulage.Connections.Actions
import Haulage.Log
import Haulage.Run.Transfer

/-!
# The program

From the arguments and the environment to the exit code, the standard streams and the files.
Arguments that select no command end the process at once; any other command is executed in a home
directory and concluded when no signal intervenes.
-/

set_option autoImplicit false

namespace Haulage

/-! ## Sessions -/

/-- Executes a command, given the home directory. -/
def Command.execute (s : Surroundings) (home : Path) (c : Command) (fs : FileSystem)
    (ctx : Context) : Outcome :=
  match c with
  | .help =>
    .saying fs ctx [.stdout (CommandLine.programSpec.helpText [CommandLine.programSpec.name])]
  | .connectionsHelp =>
    .saying fs ctx
      [.stdout (CommandLine.connectionsSpec.helpText [CommandLine.connectionsSpec.name])]
  | .connections action => action.execute s (Registry.path home) fs ctx
  | .run options =>
    match Registry.load fs (Registry.path home) with
    | .error f => .failing fs ctx f
    | .ok r => Run.execute s r options fs ctx

/-- A command together with what follows its result. -/
structure Session where
  outcome : Outcome
  completion : Completion

namespace Session

/-- Executes a command that no signal interrupts. -/
def run (t : Telemetry) (s : Surroundings) (home : Path) (c : Command) (fs : FileSystem)
    (ctx : Context) : Session :=
  let outcome := c.execute s home fs ctx
  ⟨outcome, .ofResult t c.invocation? outcome.context outcome.result⟩

/-- All that is said, the last words included. -/
def outputs (s : Session) : List Output :=
  s.outcome.outputs ++ s.completion.outputs

end Session

/-! ## Processes -/

/-- What a process finds when it starts. -/
structure Machine where
  /-- The values of the variables of the environment. -/
  lookup : String → Option String
  userHome : Option Path
  /-- The id of the machine itself. -/
  hardwareId : Option String
  network : Network
  files : FileSystem
  devBuild : Bool
  /-- The time in microseconds. -/
  emitTime : Int
  /-- The time as a text. -/
  timestamp : String
  /-- The time that a run takes. -/
  elapsed : Duration

/-- The variables that the program looks at. -/
def Machine.variableNames : List String :=
  [ "FERRY_BULK_EXPORT_FLOW_CSV", "FERRY_DEBUG", "FERRY_DIAGNOSTICS_URL", "FERRY_DISABLE_TELEMETRY",
    "FERRY_EVENTS_URL", "FERRY_HOME", "FERRY_LOG", "FERRY_LOGGING", "FERRY_LOGGING_COLOR",
    "FERRY_PACKAGE", "FERRY_PROJECT_ID", "FERRY_SHOW_PROGRESS", "FERRY_SHUTDOWN_GRACE",
    "GITHUB_REPOSITORY_ID" ]

/-- What a process leaves behind. -/
structure Exit where
  code : Nat
  /-- What it said, on the standard streams only. -/
  outputs : List Output
  files : FileSystem
  deliveries : List Delivery

namespace Program

/-- The end of the program whose arguments select no command. -/
def reject (m : Machine) (r : CommandLine.Rejection) : Exit :=
  match r with
  | .displayHelp text => ⟨0, [.stdout text], m.files, []⟩
  | .displayVersion text => ⟨0, [.stdout text], m.files, []⟩
  | r => ⟨2, [.stderr ("error: " ++ r.words ++ "\n\nFor more information, try \x27--help\x27.\n")],
      m.files, []⟩

/-- The settings of the program; a run can ask for debug output. -/
def settings (m : Machine) (c : Command) : Settings :=
  let s := Settings.ofLookup m.devBuild m.lookup
  match c with
  -- a level that the environment asks for is kept
  | .run options => if options.debug ∧ s.debug = .info then { s with debug := .debug } else s
  | _ => s

/-- What telemetry knows of the program; without it the machine stays unknown. -/
def telemetry (m : Machine) (s : Settings) : Telemetry :=
  { settings := s
    identity := if s.telemetry then .resolve s.projectId m.hardwareId else .unknown
    emitTime := m.emitTime
    timestamp := m.timestamp }

/-- The log message about an ignored variable. -/
def warningMessage (w : SettingsWarning) : Output :=
  .log ⟨.warn, "ferry::logging", w.message, []⟩

/-- The log message about a machine that nothing is known of, if telemetry asks for it. -/
def identityRemarks (m : Machine) (s : Settings) : List Output :=
  if s.telemetry ∧ (telemetry m s).identity = .unknown then
    [.log ⟨.debug, "ferry::identity", "machine id unavailable, using empty identity", []⟩]
  else []

/-- The log message about the end of the program. -/
def exitMessage (code : Nat) : Output :=
  .log ⟨.debug, "ferry", "exiting with code " ++ Numeric.decimal code, [("interrupted", false)]⟩

/-- Runs a command to its end. -/
def perform (m : Machine) (c : Command) : Exit :=
  let s := settings m c
  let surroundings : Surroundings :=
    { network := m.network
      cancelAfter := none
      showProgress := s.showProgress
      bulkExportFlowCsv := s.bulkExportFlowCsv
      elapsed := m.elapsed }
  let session := Session.run (telemetry m s) surroundings (s.home m.userHome) c m.files []
  let code := session.completion.decision.code
  let said :=
    s.warnings.map warningMessage ++ identityRemarks m s ++ session.outputs ++ [exitMessage code]
  { code
    outputs :=
      Output.written (.choose (m.lookup "FERRY_LOG") s.debug) (.ofSettings s m.timestamp) said
    files := session.outcome.files
    deliveries := session.completion.deliveries }

/-- Runs a process. -/
def run (m : Machine) (arguments : List String) : Exit :=
  match CommandLine.command arguments with
  | .error r => reject m r
  | .ok c => perform m c

end Program

end Haulage
