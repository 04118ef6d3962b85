import Haulage.Completion
import Haulage.Failure
import Haulage.Invocation

/-!
# Controlling a worker

A worker is a script of steps on a clock that counts milliseconds. Steps take no time, except those
that wait. From some time on the worker may be cancelled, and some steps look for that. A course
lists what a worker does and when, and how and when it ends, if it does.

Of the end of the worker, an interrupt and a kill signal, the first decides. A worker that ends is
concluded. A killed one is left as it is. An interrupted one is cancelled and has a grace period to
end by itself; otherwise it is given up. In each case the deliveries then have a time of their own
to arrive, and the process ends a moment later. The worker, once left alone, goes on until then.
-/

set_option autoImplicit false

namespace Haulage

open Haulage.Json

/-! ## Workers -/

/-- A step of a worker. -/
inductive Step where
  /-- Binds a key of the telemetry context. -/
  | bind (key : String) (value : Value)
  /-- Notes whether the worker is cancelled. -/
  | note
  | sleep (millis : Nat)
  /-- Waits, but ends at once when the worker is cancelled. -/
  | sleepUnlessCancelled (millis : Nat)
  /-- Ends when the worker is cancelled. -/
  | heedCancel
  /-- Waits until the worker is cancelled. -/
  | awaitCancel
  | fail (f : Failure)
  /-- A fault with its message and the trace captured with it. -/
  | fault (message trace : String)
  /-- Waits for ever. -/
  | hang

/-- A worker; after its last step it has succeeded. -/
abbrev Script := List Step

/-- Something that a worker does. -/
inductive Deed where
  | bind (key : String) (value : Value)
  | note (cancelled : Bool)

/-- How a worker ends. -/
inductive WorkerResult where
  | result (r : Attempt Unit)
  | fault (message trace : String)

/-- What happens at a time. -/
structure Timed (α : Type) where
  time : Nat
  event : α

/-- What a worker does, in order, and how it ends. -/
structure Course where
  deeds : List (Timed Deed)
  finish : Option (Timed WorkerResult)

namespace Course

/-- The course of a worker that ends now. -/
def ending (now : Nat) (r : WorkerResult) : Course :=
  ⟨[], some ⟨now, r⟩⟩

/-- The course of a worker that ends now because it is cancelled. -/
def cancelled (now : Nat) : Course :=
  ending now (.result (failWith .cancelled))

/-- The course with one more deed before it. -/
def after (d : Timed Deed) (c : Course) : Course :=
  { c with deeds := d :: c.deeds }

/-- Whether a worker that is cancelled at a time, if ever, is cancelled now. -/
def isCancelled (cancelAt : Option Nat) (now : Nat) : Bool :=
  cancelAt.any (· ≤ now)

/-- The course of a script from a time on. -/
def ofScript (cancelAt : Option Nat) : Nat → Script → Course
  | now, [] => ending now (.result (.ok ()))
  | now, .bind key value :: more => (ofScript cancelAt now more).after ⟨now, .bind key value⟩
  | now, .note :: more =>
    (ofScript cancelAt now more).after ⟨now, .note (isCancelled cancelAt now)⟩
  | now, .sleep millis :: more => ofScript cancelAt (now + millis) more
  | now, .sleepUnlessCancelled millis :: more =>
    match cancelAt with
    | some c =>
      if c ≤ now then cancelled now
      else if c < now + millis then cancelled c
      else ofScript cancelAt (now + millis) more
    | none => ofScript cancelAt (now + millis) more
  | now, .heedCancel :: more =>
    if isCancelled cancelAt now then cancelled now else ofScript cancelAt now more
  | now, .awaitCancel :: more =>
    match cancelAt with
    | some c => ofScript cancelAt (max now c) more
    | none => ⟨[], none⟩
  | now, .fail f :: _ => ending now (.result (.error f))
  | now, .fault message trace :: _ => ending now (.fault message trace)
  | _, .hang :: _ => ⟨[], none⟩

/-- The context after the deeds before a time. -/
def contextBefore (c : Course) (time : Nat) (ctx : Context) : Context :=
  c.deeds.foldl
    (fun ctx d =>
      match d.event with
      | .bind key value => if d.time < time then Members.set ctx key value else ctx
      | .note _ => ctx)
    ctx

/-- What was noted before a time: whether the worker was cancelled. -/
def notesBefore (c : Course) (time : Nat) : List Bool :=
  c.deeds.filterMap fun d =>
    match d.event with
    | .bind _ _ => none
    | .note cancelled => if d.time < time then some cancelled else none

end Course

/-! ## The controller -/

/-- Time budgets for the end of a process, all but the first in milliseconds. -/
structure ShutdownPolicy where
  /-- The time an interrupted worker has to end. -/
  grace : Duration
  /-- The time deliveries have when the worker has ended. -/
  flush : Nat
  /-- The time deliveries have after an interrupt. -/
  interruptFlush : Nat
  /-- The time deliveries have after a kill signal. -/
  killFlush : Nat
  /-- The time from the end of deliveries to the end of the process. -/
  exitDelay : Nat
  deriving Repr, DecidableEq

/-- The policy that the settings ask for. -/
def ShutdownPolicy.ofSettings (s : Settings) : ShutdownPolicy :=
  { grace := s.shutdownGrace
    flush := 2000
    interruptFlush := 4000
    killFlush := 1000
    exitDelay := 50 }

/-- The times of the signals, if they come. -/
structure Signals where
  interruptAt : Option Nat
  killAt : Option Nat
  deriving Repr, DecidableEq

/-- What decides how the process ends. -/
inductive FirstEvent where
  | finish (r : Timed WorkerResult)
  | interrupt (time : Nat)
  | kill (time : Nat)

namespace FirstEvent

/-- Whether a time, if it comes, comes before another. -/
def precedes (a b : Option Nat) : Bool :=
  match a, b with
  | some a, some b => a < b
  | some _, none => true
  | none, _ => false

/-- The first of the end of the worker and the signals; nothing if none of them comes. -/
def of (finish : Option (Timed WorkerResult)) (s : Signals) : Option FirstEvent :=
  let finishTime := finish.map (·.time)
  if precedes s.killAt finishTime && precedes s.killAt s.interruptAt then s.killAt.map .kill
  else if precedes s.interruptAt finishTime then s.interruptAt.map .interrupt
  else finish.map .finish

end FirstEvent

/-- How a process ends. -/
structure Ending where
  decision : ExitDecision
  interrupted : Bool
  /-- The time at which the process ends. -/
  time : Nat
  context : Context
  /-- What the worker noted: whether it was cancelled. -/
  notes : List Bool
  outbox : Outbox
  outputs : List Output

/-- What a worker finds when it looks around: whether it is cancelled, and the toggles
of the process. -/
structure Observation where
  cancelled : Bool
  showProgress : Bool
  bulkExportFlowCsv : Bool
  deriving Repr, DecidableEq

/-- What the worker of a process with the given settings has found, in order. -/
def Ending.observations (e : Ending) (s : Settings) : List Observation :=
  e.notes.map fun cancelled => ⟨cancelled, s.showProgress, s.bulkExportFlowCsv⟩

namespace Lifecycle

/-- What a process starts with. -/
structure Start where
  telemetry : Telemetry
  carrier : Carrier
  policy : ShutdownPolicy
  invocation : Option Invocation
  context : Context

/-- What follows the end of the worker. A fault is recorded first, in place of any recorded
error. -/
def conclude (s : Start) (ctx : Context) : WorkerResult → Completion
  | .result r => .ofResult s.telemetry s.invocation ctx r
  | .fault message trace =>
    let f : Failure := .of (.internalFault message trace)
    .ofResult s.telemetry s.invocation (ctx.setText Context.errorKey f.record) (.error f)

/-- The end of a process whose worker has ended. -/
def afterFinish (s : Start) (course : Course) (window : Nat) (interrupted : Bool)
    (said : List Output) (finish : Timed WorkerResult) : Ending :=
  let c := conclude s (course.contextBefore (finish.time + 1) s.context) finish.event
  let outbox := Outbox.empty.sendAll s.carrier finish.time c.deliveries
  { decision := c.decision
    interrupted
    time := outbox.flushEnd finish.time window + s.policy.exitDelay
    context := c.context
    notes := course.notesBefore (finish.time + 1)
    outbox := outbox.flushed
    outputs := said ++ c.outputs }

/-- The end of a process whose worker is left alone from a time on. -/
def abandon (s : Start) (course : Course) (decision : ExitDecision) (window : Nat)
    (interrupted : Bool) (said : List Output) (time : Nat) : Ending :=
  let final := Outbox.empty.flushEnd time window + s.policy.exitDelay
  { decision
    interrupted
    time := final
    context := course.contextBefore final s.context
    notes := course.notesBefore final
    outbox := .empty
    outputs := said }

/-- What is said at an interrupt. -/
def interruptWords : List Output :=
  [.stderr "\ninterrupting...\n"]

/-- What is said when an interrupted worker is given up. -/
def giveUpWords (p : ShutdownPolicy) : List Output :=
  [.log
    ⟨.warn, "ferry::orchestrator::controller",
      "command did not stop within " ++ p.grace.text ++ ", exiting anyway", []⟩]

/-- What is said at a kill signal. -/
def killWords : List Output :=
  [.stderr "\nkilling process...\n",
    .log
      ⟨.debug, "ferry::orchestrator::controller",
        "terminate signal received, exiting without grace period", []⟩]

/-- The end of a process that is interrupted at a time, given the course of its cancelled worker. -/
def afterInterrupt (s : Start) (course : Course) (time : Nat) : Ending :=
  let deadline := time + s.policy.grace.millisUp
  let giveUp :=
    abandon s course .abnormal s.policy.interruptFlush true (interruptWords ++ giveUpWords s.policy)
      deadline
  match course.finish with
  | some finish =>
    -- a worker that ends at the deadline itself is too late
    if finish.time < deadline then
      afterFinish s course s.policy.interruptFlush true interruptWords finish
    else giveUp
  | none => giveUp

/-- Runs a worker until the process ends; nothing if it never does. -/
def run (s : Start) (script : Script) (signals : Signals) : Option Ending :=
  let course := Course.ofScript none 0 script
  match FirstEvent.of course.finish signals with
  | none => none
  | some (.finish finish) => some (afterFinish s course s.policy.flush false [] finish)
  | some (.kill time) =>
    some (abandon s course .killSignal s.policy.killFlush false killWords time)
  | some (.interrupt time) =>
    some (afterInterrupt s (Course.ofScript (some time) 0 script) time)

end Lifecycle

end Haulage
