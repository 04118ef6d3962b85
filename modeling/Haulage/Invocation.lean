import Haulage.Json.Value

/-!
# Invocations

Which command was used, what it has made known about itself while it ran, and how the
process ends. The telemetry context is an ordered map from keys to JSON values, whose entry
`error` records a failure.
-/

set_option autoImplicit false

namespace Haulage

open Haulage.Json

/-! ## The telemetry context -/

/-- The entries in the order in which their keys were first bound. -/
abbrev Context := Members

namespace Context

/-- The key of a recorded failure. -/
def errorKey : String :=
  "error"

/-- The text form of an entry: a text as it is, any other value as JSON; null counts as missing. -/
def text? (ctx : Context) (key : String) : Option String :=
  match Members.get? ctx key with
  | none => none
  | some .null => none
  | some (.string s) => some s
  | some v => some v.compact

/-- Whether a key is bound to something other than null. -/
def isBound (ctx : Context) (key : String) : Bool :=
  match Members.get? ctx key with
  | none => false
  | some v => !v.isNull

/-- Binds a key to a text. -/
def setText (ctx : Context) (key value : String) : Context :=
  Members.set ctx key (.string value)

end Context

/-! ## Invocations -/

/-- The family of a command; it selects what a failure report says. -/
inductive CommandKind where
  | dataMovement
  | connectionManagement
  deriving Repr, DecidableEq

/-- The name of a family. -/
def CommandKind.name : CommandKind → String
  | .dataMovement => "DataMovement"
  | .connectionManagement => "ConnectionManagement"

/-- A command and its sub-command. -/
structure Invocation where
  command : String
  subCommand : Option String
  kind : CommandKind
  deriving Repr, DecidableEq

/-- The name of the events of an invocation: command and sub-command joined by an underscore. -/
def Invocation.eventName (i : Invocation) : String :=
  match i.subCommand with
  | some sub => i.command ++ "_" ++ sub
  | none => i.command

/-- How the process ends. -/
inductive ExitDecision where
  | success
  | commandError
  | killSignal
  /-- No result of the command was ever seen. -/
  | abnormal
  deriving Repr, DecidableEq

namespace ExitDecision

/-- The exit code. -/
def code : ExitDecision → Nat
  | .success => 0
  | .commandError => 1
  | .killSignal => 111
  | .abnormal => 11

/-- The name of a decision. -/
def name : ExitDecision → String
  | .success => "Success"
  | .commandError => "CommandError"
  | .killSignal => "KillSignal"
  | .abnormal => "AbnormalDefault"

end ExitDecision

end Haulage
