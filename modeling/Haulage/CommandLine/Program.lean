import Haulage.CommandLine.Reader
import Haulage.Invocation
import Haulage.Run.Task
import Haulage.Settings.Basic

/-!
# The program's command line

The commands: one run, or an action on the named connections. Without a command, or without an
action, only help is shown.
-/

set_option autoImplicit false

namespace Haulage

/-- An action on the named connections. -/
inductive ConnectionAction where
  | discover (name : String) (pattern : Option String) (recursive columns : Bool)
  | list
  | test (name : String)
  | unset (name : String)
  | set (name : String) (properties : List String)
  | exec (name : String) (queries : List String)
  deriving Repr, DecidableEq

/-- The name of an action. -/
def ConnectionAction.name : ConnectionAction → String
  | .discover _ _ _ _ => "discover"
  | .list => "list"
  | .test _ => "test"
  | .unset _ => "unset"
  | .set _ _ => "set"
  | .exec _ _ => "exec"

/-- A command. -/
inductive Command where
  | help
  | run (options : RunOptions)
  | connectionsHelp
  | connections (action : ConnectionAction)
  deriving Repr, DecidableEq

/-- What a command counts as in reports; showing help does not count. -/
def Command.invocation? : Command → Option Invocation
  | .help => none
  | .run _ => some ⟨"run", none, .dataMovement⟩
  | .connectionsHelp => none
  | .connections action => some ⟨"conns", some action.name, .connectionManagement⟩

namespace CommandLine

/-! ## The grammar -/

/-- An option that takes a text. -/
def textOption (long : String) (help : String) : OptionSpec :=
  ⟨long, none, .text, none, help⟩

/-- A flag. -/
def flagOption (long : String) (help : String) : OptionSpec :=
  ⟨long, none, .flag, none, help⟩

/-- The options of a run. -/
def runOptionSpecs : List OptionSpec :=
  [ textOption "src-conn" "The source connection (name, conn string or URL)",
    textOption "src-stream"
      "The source table (schema.table) or local file path. Use `file://` for local paths",
    textOption "src-options" "In-line options to further configure the source (JSON)",
    textOption "tgt-conn" "The target connection (name, conn string or URL)",
    textOption "tgt-object"
      "The target table (schema.table) or local file path. Use `file://` for local paths",
    textOption "tgt-options" "In-line options to further configure the target (JSON)",
    { textOption "select"
        "Select or exclude columns from the source stream (comma separated, `-` prefix excludes)"
      with letter := some 's' },
    textOption "streams"
      ("Only run specific streams (comma separated). " ++
        "Recorded with the task; single-file copies ignore it"),
    flagOption "stdout" "Output the stream to standard output",
    textOption "env"
      "In-line environment variable map (JSON). Validated and recorded with the task only",
    { textOption "mode"
        "Target load mode: backfill, incremental, truncate, snapshot, full-refresh" with
      letter := some 'm', default := some Mode.fullRefresh.name },
    { textOption "limit" "Maximum number of rows to pull" with letter := some 'l', kind := .count },
    textOption "primary-key"
      "Primary key (comma separated for composite keys). Rows repeating a key are dropped",
    textOption "update-key"
      ("Update key for incremental loads. " ++
        "Only rows newer than the target\x27s latest value are appended"),
    { flagOption "debug" "Set logging level to DEBUG" with letter := some 'd' } ]

/-- A command without sub-commands. -/
def leaf (name about : String) (options : List OptionSpec) (positionals : List PositionalSpec) :
    CommandSpec :=
  { name, about, options, positionals, subcommands := [], version := none, offersHelp := true,
    closing := none }

/-- A positional word that must be given. -/
def oneWord (name help : String) : PositionalSpec :=
  ⟨name, true, false, help⟩

/-- A positional word that must be given at least once. -/
def manyWords (name help : String) : PositionalSpec :=
  ⟨name, true, true, help⟩

/-- The grammar of a run. -/
def runSpec : CommandSpec :=
  leaf "run" "Execute a run" runOptionSpecs []

/-- The grammar of the connection actions. -/
def connectionsSpec : CommandSpec :=
  { leaf "conns" "Manage local connections in the ferry env file" [] [] with
    subcommands :=
      [ leaf "discover" "List available streams in a connection"
          [ { textOption "pattern"
                "Filter stream names by glob pattern (e.g. dir/*.csv, dir/**/*.json)" with
              letter := some 'p' },
            flagOption "recursive" "List all files recursively",
            flagOption "columns" "Show column level metadata" ]
          [oneWord "NAME" "The name of the connection"],
        leaf "list" "List local connections" [] [],
        leaf "test" "Test a local connection" []
          [oneWord "NAME" "The name of the connection to test"],
        leaf "unset" "Remove a connection from the env file" []
          [oneWord "NAME" "The name of the connection to remove"],
        leaf "set" "Set a connection in the env file" []
          [ oneWord "NAME" "The name of the connection to set",
            manyWords "PROPERTIES" "key=value properties, e.g. url=postgres://user@host:5432/db" ],
        leaf "exec" "Execute a SQL query on a database connection" []
          [ oneWord "NAME" "The name of the connection",
            manyWords "QUERIES" "The SQL queries to execute (in-line text or file)" ] ] }

/-- The grammar of the program. -/
def programSpec : CommandSpec :=
  { leaf "ferry" "Moves data from a source connection to a target connection" [] [] with
    subcommands := [runSpec, connectionsSpec]
    version := some appVersion
    closing :=
      some "See more examples and configuration details at https://github.com/kavehtehrani/ferry" }

/-! ## From arguments to commands -/

/-- The options of a run, from what was given. -/
def Given.runOptions (g : Given) : RunOptions :=
  { sourceConnection := g.value? "src-conn"
    sourceStream := g.value? "src-stream"
    sourceOptions := g.value? "src-options"
    targetConnection := g.value? "tgt-conn"
    targetObject := g.value? "tgt-object"
    targetOptions := g.value? "tgt-options"
    selection := g.value? "select"
    streams := g.value? "streams"
    toStdout := g.hasFlag "stdout"
    environment := g.value? "env"
    mode := (g.value? "mode").getD Mode.fullRefresh.name
    limit := (g.value? "limit").bind readCount?
    primaryKey := g.value? "primary-key"
    updateKey := g.value? "update-key"
    debug := g.hasFlag "debug" }

/-- The action with a name, from what was given. -/
def Given.action (g : Given) (name : String) : ConnectionAction :=
  let first := g.words.headD ""
  let others := g.words.tail
  if name = "discover" then
    .discover first (g.value? "pattern") (g.hasFlag "recursive") (g.hasFlag "columns")
  else if name = "test" then .test first
  else if name = "unset" then .unset first
  else if name = "set" then .set first others
  else if name = "exec" then .exec first others
  else .list

/-- The command that was chosen. -/
def Choice.command (c : Choice) : Command :=
  match c.path with
  | [_, "run"] => .run c.given.runOptions
  | [_, "conns"] => .connectionsHelp
  | [_, _, action] => .connections (c.given.action action)
  | _ => .help

/-- The command that the arguments of the program select. -/
def command (arguments : List String) : Except Rejection Command :=
  (read programSpec arguments).map Choice.command

end CommandLine

end Haulage
