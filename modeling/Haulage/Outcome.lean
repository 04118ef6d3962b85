import Haulage.Connections.Location
import Haulage.Duration
import Haulage.Invocation

/-!
# Outcomes of commands

A command works in given surroundings on a file system and a telemetry context. It leaves both as it
made them, says things on the standard streams and in the log, and succeeds or fails. What is said
is kept in the order in which it is said.
-/

set_option autoImplicit false

namespace Haulage

/-! ## Output -/

/-- How important a log message is. -/
inductive LogLevel where
  | error
  | warn
  | info
  | debug
  | trace
  deriving Repr, DecidableEq

/-- A log message, the part of the program that it comes from, and named flags beside the text. -/
structure LogMessage where
  level : LogLevel
  origin : String
  text : String
  flags : List (String × Bool)
  deriving Repr, DecidableEq

/-- Something that a command says. -/
inductive Output where
  | stdout (text : String)
  | stderr (text : String)
  | log (message : LogMessage)
  deriving Repr, DecidableEq

namespace Output

/-- All that was said on standard output. -/
def stdoutText (outputs : List Output) : String :=
  String.join (outputs.filterMap fun
    | .stdout text => some text
    | _ => none)

/-- All that was said on standard error. -/
def stderrText (outputs : List Output) : String :=
  String.join (outputs.filterMap fun
    | .stderr text => some text
    | _ => none)

end Output

/-! ## Outcomes -/

/-- What a command finds around it. -/
structure Surroundings where
  network : Network
  /-- The number of reads after which a command is found cancelled. -/
  cancelAfter : Option Nat
  showProgress : Bool
  bulkExportFlowCsv : Bool
  /-- The time that a run takes. -/
  elapsed : Duration

/-- Whether a command is cancelled from the start. -/
def Surroundings.isCancelled (s : Surroundings) : Bool :=
  s.cancelAfter == some 0

/-- What a command leaves behind. -/
structure Outcome where
  files : FileSystem
  context : Context
  outputs : List Output
  result : Attempt Unit

end Haulage
