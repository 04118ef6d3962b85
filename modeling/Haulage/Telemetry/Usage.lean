import Haulage.Digest.Blake3
import Haulage.Invocation
import Haulage.Json.Value
import Haulage.Settings.Basic
import Haulage.Url.Basic

/-!
# Usage events

Events leave the process as deliveries to their collectors. A delivery is under way for a while and
then either arrives or is lost. Waiting for deliveries ends when all that are under way have ended,
or when the time for waiting is over; those still under way then go on without being waited for.

A usage event says which command was used. Its properties come from the program itself, from the
telemetry context and from extra properties, a later source winning; the identity and the invocation
win over all of them. An identity ties the events of one installation together without saying
anything about the machine: the hash of the project, or a hash keyed by the hash of the machine's
own id, or nothing.
-/

set_option autoImplicit false

namespace Haulage

open Haulage.Json Haulage.Text

/-! ## Deliveries -/

/-- The kind of event that a delivery carries. -/
inductive DeliveryKind where
  | usage
  | diagnostic
  deriving Repr, DecidableEq

/-- The name of a kind. -/
def DeliveryKind.name : DeliveryKind → String
  | .usage => "Usage"
  | .diagnostic => "Diagnostic"

/-- An event on its way to a collector. -/
structure Delivery where
  kind : DeliveryKind
  endpoint : Url
  userAgent : String
  body : Value

/-- What becomes of a delivery: how many milliseconds it takes, and whether it is lost
in the end. -/
structure Transit where
  delay : Nat
  fails : Bool
  deriving Repr, DecidableEq

/-- What carries deliveries. -/
abbrev Carrier := Delivery → Transit

/-- A delivery under way and the time in milliseconds at which it ends. -/
structure InFlight where
  delivery : Delivery
  due : Nat
  fails : Bool

/-- All deliveries sent so far; the last so many of them are waited for. -/
structure Outbox where
  sent : List InFlight
  awaited : List InFlight

namespace Outbox

/-- The outbox before any delivery. -/
def empty : Outbox :=
  ⟨[], []⟩

/-- Sends a delivery. -/
def send (o : Outbox) (carrier : Carrier) (now : Nat) (d : Delivery) : Outbox :=
  let t := carrier d
  let f : InFlight := ⟨d, now + t.delay, t.fails⟩
  ⟨o.sent ++ [f], o.awaited ++ [f]⟩

/-- Sends deliveries in turn. -/
def sendAll (o : Outbox) (carrier : Carrier) (now : Nat) (ds : List Delivery) : Outbox :=
  ds.foldl (fun o d => o.send carrier now d) o

/-- The time at which the last of the awaited deliveries ends, from now on. -/
def lastDue (o : Outbox) (now : Nat) : Nat :=
  o.awaited.foldl (fun t f => max t f.due) now

theorem foldl_max_le_iff (fs : List InFlight) (now t : Nat) :
    fs.foldl (fun t f => max t f.due) now ≤ t ↔ now ≤ t ∧ ∀ f ∈ fs, f.due ≤ t := by
  induction fs generalizing now with
  | nil => simp
  | cons f rest ih =>
    rw [List.foldl_cons, ih, List.forall_mem_cons, Nat.max_le, and_assoc]

/-- Nothing is awaited any more from the time on at which the last awaited delivery has ended. -/
theorem lastDue_le_iff (o : Outbox) (now t : Nat) :
    o.lastDue now ≤ t ↔ now ≤ t ∧ ∀ f ∈ o.awaited, f.due ≤ t :=
  foldl_max_le_iff o.awaited now t

/-- Whether all awaited deliveries end within a window. -/
def drains (o : Outbox) (now window : Nat) : Bool :=
  o.lastDue now ≤ now + window

/-- The time at which waiting ends. -/
def flushEnd (o : Outbox) (now window : Nat) : Nat :=
  min (now + window) (o.lastDue now)

/-- The outbox after waiting: nothing is waited for any more. -/
def flushed (o : Outbox) : Outbox :=
  { o with awaited := [] }

/-- Waiting again ends at once. -/
theorem flushEnd_flushed (o : Outbox) (now window : Nat) : o.flushed.flushEnd now window = now := by
  simp [flushEnd, flushed, lastDue]

/-- The deliveries that have arrived when a time has passed, in the order in which they were
sent. -/
def arrivedBy (o : Outbox) (time : Nat) : List Delivery :=
  (o.sent.filter fun f => !f.fails && f.due ≤ time).map (·.delivery)

/-- The deliveries that have arrived before a time. -/
def arrivedBefore (o : Outbox) (time : Nat) : List Delivery :=
  (o.sent.filter fun f => !f.fails && f.due < time).map (·.delivery)

end Outbox

/-! ## Identities -/

/-- A hexadecimal hash, or the empty text when nothing is known of the machine. -/
structure Identity where
  text : String
  deriving Repr, DecidableEq

namespace Identity

/-- The identity of an unknown machine. -/
def unknown : Identity :=
  ⟨""⟩

/-- The hash of an application's name under the hash of a machine id, blanks around the id aside. -/
def protect (machineId app : String) : String :=
  Blake3.hex (Blake3.keyedHash (Blake3.hash (Utf8.encode (trim machineId))) (Utf8.encode app))

/-- The identity of a project, unless it is blank, else of a machine. -/
def resolve (project machineId : Option String) : Identity :=
  match (project.map trim).filter (!·.isEmpty) with
  | some p => ⟨Blake3.hashText p⟩
  | none =>
    match machineId with
    | some id => ⟨protect id appName⟩
    | none => unknown

end Identity

/-! ## Events -/

/-- What telemetry knows of the process that it speaks for. -/
structure Telemetry where
  settings : Settings
  identity : Identity
  /-- The time of an event in microseconds. -/
  emitTime : Int
  /-- The time of an event as a text. -/
  timestamp : String

/-- A usage event. -/
structure UsageEvent where
  name : String
  properties : Members

namespace Telemetry

/-- The operating system that the program runs on. -/
def platform : String :=
  "linux"

/-- The processor architecture that the program runs on. -/
def architecture : String :=
  "x86_64"

/-- The page that usage events are filed under. -/
def eventsPage : String :=
  "http://events.ferry.dev/ferry-cli"

/-- The properties that the program itself supplies. -/
def ownProperties (t : Telemetry) : Members :=
  [("application", .string appName), ("version", .string appVersion),
    ("package", .string t.settings.packageName),
    ("os", .string (platform ++ "/" ++ architecture)),
    ("emit_time", .number (.integer t.emitTime)), ("user_id", .string t.identity.text)]

/-- The properties with the sub-command of an invocation, or without any. -/
def withSubCommand (properties : Members) : Option String → Members
  | some sub => properties.set "sub-command" (.string sub)
  | none => properties.eraseSwap "sub-command"

/-- The properties of a usage event. -/
def usageProperties (t : Telemetry) (ctx : Context) (i : Invocation) (extra : Members) : Members :=
  let given := (t.ownProperties.update ctx).update extra
  -- set last, so that neither the context nor extra properties can speak for them
  let marked :=
    (given.set "user_id" (.string t.identity.text)).set "command" (.string i.command)
  withSubCommand marked i.subCommand

/-- A usage event. -/
def usageEvent (t : Telemetry) (ctx : Context) (name : String) (i : Invocation) (extra : Members) :
    UsageEvent :=
  ⟨name, t.usageProperties ctx i extra⟩

/-- The body that carries a usage event. -/
def usageBody (t : Telemetry) (e : UsageEvent) : Value :=
  .object
    [("name", .string e.name), ("url", .string eventsPage),
      ("props", .string (Value.object e.properties).compact),
      ("referrer", .string ("http://" ++ t.settings.packageName))]

/-- The delivery of a usage event, if a collector is known. -/
def usageDelivery? (t : Telemetry) (e : UsageEvent) : Option Delivery :=
  t.settings.eventsUrl.map fun url =>
    { kind := .usage
      endpoint := url
      userAgent := appName ++ "/" ++ appVersion ++ " (" ++ platform ++ ") " ++ t.identity.text
      body := t.usageBody e }

/-- The usage event of an invocation, unless usage is not tracked. -/
def track? (t : Telemetry) (ctx : Context) (name : String) (i : Invocation) (extra : Members) :
    Option UsageEvent :=
  if t.settings.trackingEnabled then some (t.usageEvent ctx name i extra) else none

end Telemetry

end Haulage
