import Haulage.Outcome
import Haulage.Telemetry.Report

/-!
# Completion

What follows the result of a command: the exit decision, the recorded error, the events about it and
the last words on standard error. A command that only showed help is not talked about.
-/

set_option autoImplicit false

namespace Haulage

open Haulage.Json

/-- What follows the result of a command. -/
structure Completion where
  decision : ExitDecision
  context : Context
  deliveries : List Delivery
  outputs : List Output

namespace Completion

/-- The last words about a failure. -/
def fatal (f : Failure) : String :=
  "fatal:\n" ++ f.message ++ "\n"

/-- The last words about the failure of an invocation. -/
def lastWords (i : Invocation) (f : Failure) : String :=
  if f.isCancellation then i.eventName ++ " interrupted: " ++ f.message ++ "\n" else fatal f

/-- The failure of a result; a result without one fails if the context records an error. -/
def failure? (ctx : Context) : Attempt Unit → Option Failure
  | .error f => some f
  | .ok () => (ctx.text? Context.errorKey).map fun s => .of (.text s)

/-- The context with a failure recorded, unless it already records an error. -/
def recorded (ctx : Context) (f : Failure) : Context :=
  if ctx.isBound Context.errorKey then ctx else ctx.setText Context.errorKey f.record

/-! ## Usage -/

/-- The deliveries about a use of a command. -/
def usageDeliveries (t : Telemetry) (ctx : Context) (i : Invocation) : List Delivery :=
  ((t.track? ctx i.eventName i []).bind t.usageDelivery?).toList

/-- The remark about a use of a command that no collector is told of. -/
def usageRemarks (t : Telemetry) (i : Invocation) : List Output :=
  if t.settings.trackingEnabled ∧ t.settings.eventsUrl.isNone then
    [.log
      ⟨.trace, "ferry::diagnostics::usage", "no events endpoint configured, dropping " ++
        i.eventName,
        []⟩]
  else []

/-! ## Reports -/

/-- The deliveries about a failure. -/
def reportDeliveries (t : Telemetry) (ctx : Context) (f : Failure) (i : Invocation) :
    List Delivery :=
  ((t.report? ctx (some f) i).bind t.reportDelivery?).toList

/-- The remark about a failure that no collector is told of. -/
def reportRemarks (t : Telemetry) (f : Failure) (i : Invocation) : List Output :=
  if !t.settings.telemetry then []
  else if f.isCancellation then
    [.log ⟨.debug, "ferry::diagnostics::report", "not reporting cancelled " ++ i.eventName, []⟩]
  else if t.settings.diagnosticsUrl.isNone then
    [.log ⟨.trace, "ferry::diagnostics::report", "no diagnostics endpoint configured", []⟩]
  else []

/-! ## Results -/

/-- What follows the result of an invocation. -/
def ofInvocation (t : Telemetry) (i : Invocation) (ctx : Context) (result : Attempt Unit) :
    Completion :=
  match failure? ctx result with
  | none => ⟨.success, ctx, usageDeliveries t ctx i, usageRemarks t i⟩
  | some f =>
    let ctx := recorded ctx f
    { decision := .commandError
      context := ctx
      deliveries := usageDeliveries t ctx i ++ reportDeliveries t ctx f i
      outputs := usageRemarks t i ++ reportRemarks t f i ++ [.stderr (lastWords i f)] }

/-- What follows the result of a command. -/
def ofResult (t : Telemetry) (i : Option Invocation) (ctx : Context) (result : Attempt Unit) :
    Completion :=
  match i with
  | some i => ofInvocation t i ctx result
  | none =>
    match result with
    | .ok () => ⟨.success, ctx, [], []⟩
    | .error f => ⟨.commandError, ctx, [], [.stderr (fatal f)]⟩

end Completion

end Haulage
