import Haulage.Proofs.Lifecycle.Course
import Haulage.Proofs.Lifecycle.FirstEvent
import Mathlib.Tactic.Linarith

/-!
# How a process ends

A process acts on its first event alone. It ends with what follows from the result of its worker, if
it sees one, and otherwise leaves the worker alone. A signal that comes later changes nothing, an
interrupt cancels the worker only when it comes first, and the time that the process takes from its
first event on is bounded by its policy.

- `Sees`: when a process sees the result of its worker.
- `endingOf_of_sees`, `endingOf_of_unseen`: the two ways in which a process ends.
- `actsOn_endingOf`: what a process does about its first event, and in how much time.
- `run_acts_on_first`: a process acts on its first event alone.
-/

set_option autoImplicit false

namespace Haulage

theorem Context.isSome_text? (ctx : Context) (key : String) :
    (ctx.text? key).isSome = ctx.isBound key := by
  rw [text?, isBound]
  cases Json.Members.get? ctx key with
  | none => rfl
  | some v => cases v <;> rfl

/-- Time in whole milliseconds ends before a duration does when it ends before the next
millisecond. -/
theorem Duration.lt_add_millisUp_iff {d : Duration} {start time : Nat} :
    time < start + d.millisUp ↔ time * 1000000 < start * 1000000 + d.nanos := by
  rw [millisUp]
  omega

namespace Lifecycle

variable {s : Start} {script : Script} {signals : Signals} {e : FirstEvent} {r : Timed WorkerResult}

/-! ## What a process sees of its worker -/

/-- The time from which on the worker is cancelled: an interrupt cancels it, when it comes first. -/
def cancelAt : FirstEvent → Option Nat
  | .interrupt t => some t
  | _ => none

/-- The course of the worker, given what comes first. -/
def courseOf (script : Script) (e : FirstEvent) : Course :=
  Course.ofScript (cancelAt e) 0 script

/-- The process sees a result of its worker: the worker ends by itself first, or it ends within the
grace period that an interrupt leaves it. -/
inductive Sees (s : Start) (script : Script) : FirstEvent → Timed WorkerResult → Prop where
  | finished (r : Timed WorkerResult) : Sees s script (.finish r) r
  | returned {t : Nat} {r : Timed WorkerResult} :
      (courseOf script (.interrupt t)).finish = some r → t ≤ r.time →
      r.time * 1000000 < t * 1000000 + s.policy.grace.nanos → Sees s script (.interrupt t) r

/-- The telemetry context once the worker has ended with a result. -/
def contextAt (s : Start) (script : Script) (e : FirstEvent) (r : Timed WorkerResult) : Context :=
  (courseOf script e).contextBefore (r.time + 1) s.context

/-- An interrupted worker ends no sooner than the interrupt when that decides. -/
theorem le_time_of_interrupted {t : Nat}
    (hfirst : FirstEvent.of (Course.ofScript none 0 script).finish signals = some (.interrupt t))
    (hr : (courseOf script (.interrupt t)).finish = some r) : t ≤ r.time := by
  by_contra hlt
  -- it would have ended then in any case, and that would have decided
  have hfinish := Course.finish_of_time_lt hr (Nat.lt_of_not_le hlt)
  have hle : t ≤ (FirstEvent.finish r).time := FirstEvent.time_le_of_eq_some hfirst hfinish
  exact hlt hle

/-- The result that a process sees is the one in which its worker ends. -/
theorem finish_of_sees
    (hfirst : FirstEvent.of (Course.ofScript none 0 script).finish signals = some e)
    (h : Sees s script e r) : (courseOf script e).finish = some r := by
  cases h with
  | finished => exact FirstEvent.comes_of_eq_some hfirst
  | returned hr => exact hr

/-! ## The two ways to end -/

/-- The decision of a process that sees no result. -/
def decisionUnseen : FirstEvent → ExitDecision
  | .kill _ => .killSignal
  | _ => .abnormal

/-- The time that deliveries have. -/
def windowOf (p : ShutdownPolicy) : FirstEvent → Nat
  | .finish _ => p.flush
  | .interrupt _ => p.interruptFlush
  | .kill _ => p.killFlush

/-- The time that the worker has after the event, in nanoseconds. -/
def graceOf (p : ShutdownPolicy) : FirstEvent → Nat
  | .interrupt _ => p.grace.nanos
  | _ => 0

/-- The end of a process, given what comes first. -/
def endingOf (s : Start) (script : Script) : FirstEvent → Ending
  | .finish r => afterFinish s (Course.ofScript none 0 script) s.policy.flush false [] r
  | .kill t =>
    abandon s (Course.ofScript none 0 script) .killSignal s.policy.killFlush false killWords t
  | .interrupt t => afterInterrupt s (Course.ofScript (some t) 0 script) t

theorem run_eq_map (s : Start) (script : Script) (signals : Signals) :
    run s script signals =
      (FirstEvent.of (Course.ofScript none 0 script).finish signals).map (endingOf s script) := by
  rw [run]
  cases FirstEvent.of (Course.ofScript none 0 script).finish signals with
  | none => rfl
  | some e => cases e <;> rfl

/-- A process that sees a result ends with what follows from it. -/
theorem endingOf_of_sees (h : Sees s script e r) :
    ∃ said, endingOf s script e =
      afterFinish s (courseOf script e) (windowOf s.policy e) (cancelAt e).isSome said r := by
  cases h with
  | finished => exact ⟨[], rfl⟩
  | @returned t r hr hle hgrace =>
      refine ⟨interruptWords, ?_⟩
      have hfinish : (Course.ofScript (some t) 0 script).finish = some r := hr
      rw [endingOf, afterInterrupt, hfinish]
      exact if_pos (Duration.lt_add_millisUp_iff.mpr hgrace)

/-- A process that sees no result leaves its worker alone, after an interrupt once the grace
period is over. -/
theorem endingOf_of_unseen
    (hfirst : FirstEvent.of (Course.ofScript none 0 script).finish signals = some e)
    (h : ¬∃ r, Sees s script e r) :
    ∃ said time, endingOf s script e =
        abandon s (courseOf script e) (decisionUnseen e) (windowOf s.policy e)
          (cancelAt e).isSome said
          time ∧
      time * 1000000 < (e.time + 1) * 1000000 + graceOf s.policy e := by
  cases e with
  | finish r => exact absurd ⟨r, .finished r⟩ h
  | kill t => exact ⟨killWords, t, rfl, by simp only [FirstEvent.time, graceOf]; omega⟩
  | interrupt t =>
      refine ⟨interruptWords ++ giveUpWords s.policy, t + s.policy.grace.millisUp, ?_, ?_⟩
      · rw [endingOf, afterInterrupt]
        split
        · rename_i r hr
          -- a worker that ends in time would be seen
          refine if_neg fun hlt => h ⟨r, .returned hr (le_time_of_interrupted hfirst hr) ?_⟩
          exact Duration.lt_add_millisUp_iff.mp hlt
        · rfl
      · rw [FirstEvent.time, graceOf, Duration.millisUp]
        omega

/-! ## Decisions and times -/

/-- The decision about a result: a worker that succeeds has failed all the same when a command was
used and the context records an error. -/
def decisionOf (i : Option Invocation) (ctx : Context) : WorkerResult → ExitDecision
  | .result (.ok ()) =>
    if i.isSome ∧ ctx.isBound Context.errorKey = true then .commandError else .success
  | .result (.error _) => .commandError
  | .fault _ _ => .commandError

theorem decision_ofResult_error (t : Telemetry) (i : Option Invocation) (ctx : Context)
    (f : Failure) : (Completion.ofResult t i ctx (.error f)).decision = .commandError := by
  cases i <;> rfl

theorem decision_ofResult_ok (t : Telemetry) (i : Option Invocation) (ctx : Context) :
    (Completion.ofResult t i ctx (.ok ())).decision =
      if i.isSome ∧ ctx.isBound Context.errorKey = true then .commandError else .success := by
  cases i with
  | none => rfl
  | some i =>
      rw [Completion.ofResult, Completion.ofInvocation, Completion.failure?, ← Context.isSome_text?]
      cases ctx.text? Context.errorKey <;> rfl

theorem decision_conclude (s : Start) (ctx : Context) (result : WorkerResult) :
    (conclude s ctx result).decision = decisionOf s.invocation ctx result := by
  cases result with
  | result r =>
      cases r with
      | ok _ => exact decision_ofResult_ok _ _ _
      | error f => exact decision_ofResult_error _ _ _ f
  | fault message trace => exact decision_ofResult_error _ _ _ _

theorem time_afterFinish_le (s : Start) (course : Course) (window : Nat) (interrupted : Bool)
    (said : List Output) (r : Timed WorkerResult) :
    (afterFinish s course window interrupted said r).time ≤ r.time + window + s.policy.exitDelay :=
  Nat.add_le_add_right (Nat.min_le_left _ _) _

/-- A worker that is left alone has sent nothing that would be waited for. -/
theorem time_abandon (s : Start) (course : Course) (decision : ExitDecision) (window : Nat)
    (interrupted : Bool) (said : List Output) (time : Nat) :
    (abandon s course decision window interrupted said time).time = time + s.policy.exitDelay :=
  congrArg (· + s.policy.exitDelay) (Outbox.flushEnd_flushed .empty time window)

/-- A process sees one result at most. -/
theorem Sees.unique {r' : Timed WorkerResult} (h : Sees s script e r) (h' : Sees s script e r') :
    r' = r := by
  cases h with
  | finished =>
      cases h'
      rfl
  | returned hr =>
      cases h' with
      | returned hr' => exact Option.some.inj (hr'.symm.trans hr)

/-- A result that a process sees comes before the grace period is over. -/
theorem time_le_of_sees (h : Sees s script e r) :
    r.time * 1000000 ≤ e.time * 1000000 + graceOf s.policy e := by
  cases h with
  | finished => exact Nat.le_add_right _ _
  | returned hr hle hgrace => exact Nat.le_of_lt hgrace

/-- What a process does about its first event. -/
structure ActsOn (s : Start) (script : Script) (e : FirstEvent) (ending : Ending) : Prop where
  /-- The decision is the one about the result of the worker, if the process sees it. -/
  seen : ∀ r, Sees s script e r →
    ending.decision = decisionOf s.invocation (contextAt s script e r) r.event
  unseen : (¬∃ r, Sees s script e r) → ending.decision = decisionUnseen e
  interrupted : ending.interrupted = (cancelAt e).isSome
  /-- Whenever the worker looks, it is cancelled from the time on at which an interrupt came first.
  It is watched until it has ended, or until the process ends. -/
  cancelled : ∃ time, (∀ r, Sees s script e r → time = r.time + 1) ∧
    ((¬∃ r, Sees s script e r) → time = ending.time) ∧
    ending.notes = ((courseOf script e).noteTimesBefore time).map (Course.isCancelled (cancelAt e))
  /-- The process ends in time. -/
  time : ending.time * 1000000 ≤
    (e.time + windowOf s.policy e + 50) * 1000000 + graceOf s.policy e

/-- A process does about its first event what it should. -/
theorem actsOn_endingOf {settings : Settings} (hpolicy : s.policy = .ofSettings settings)
    (hfirst : FirstEvent.of (Course.ofScript none 0 script).finish signals = some e) :
    ActsOn s script e (endingOf s script e) := by
  have hdelay : s.policy.exitDelay = 50 := by
    rw [hpolicy]
    rfl
  have hwindow : 1 ≤ windowOf s.policy e := by
    rw [hpolicy]
    cases e <;> simp [windowOf, ShutdownPolicy.ofSettings]
  -- either the result of the worker is seen, or the process gives up waiting for it
  by_cases hsees : ∃ r, Sees s script e r
  · obtain ⟨r, hr⟩ := hsees
    obtain ⟨said, hending⟩ := endingOf_of_sees hr
    rw [hending]
    constructor
    · intro r' hr'
      rw [hr.unique hr']
      exact decision_conclude s _ r.event
    · exact fun hunseen => absurd ⟨r, hr⟩ hunseen
    · rfl
    · refine ⟨r.time + 1, fun r' hr' => ?_, fun hunseen => absurd ⟨r, hr⟩ hunseen,
        Course.notesBefore_ofScript _⟩
      rw [hr.unique hr']
    · have hgrace := time_le_of_sees hr
      have htime := time_afterFinish_le s (courseOf script e) (windowOf s.policy e)
        (cancelAt e).isSome said r
      linarith
  · obtain ⟨said, time, hending, htime⟩ := endingOf_of_unseen hfirst hsees
    rw [hending]
    constructor
    · exact fun r hr => absurd ⟨r, hr⟩ hsees
    · exact fun _ => rfl
    · rfl
    · exact ⟨_, fun r hr => absurd ⟨r, hr⟩ hsees, fun _ => rfl, Course.notesBefore_ofScript _⟩
    · rw [time_abandon]
      omega

/-- A process acts on its first event alone, whatever else comes later, and without one it never
ends. The policy gives deliveries two, four and one seconds. -/
theorem run_acts_on_first {settings : Settings} (hpolicy : s.policy = .ofSettings settings)
    (hapart : FirstEvent.Apart (Course.ofScript none 0 script).finish signals) :
    (run s script signals = none ∧
        ∀ e, ¬FirstEvent.Comes (Course.ofScript none 0 script).finish signals e) ∨
      ∃ e ending, FirstEvent.ComesFirst (Course.ofScript none 0 script).finish signals e ∧
        run s script signals = some ending ∧ ActsOn s script e ending ∧
        run s script (signals.upTo e.time) = some ending := by
  cases hfirst : FirstEvent.of (Course.ofScript none 0 script).finish signals with
  | none =>
      refine .inl ⟨?_, FirstEvent.of_eq_none_iff.mp hfirst⟩
      rw [run_eq_map, hfirst]
      rfl
  | some e =>
      have hcomes := (FirstEvent.of_eq_some_iff hapart).mp hfirst
      have hupTo := (FirstEvent.of_eq_some_iff (hapart.upTo e.time)).mpr hcomes.upTo
      refine .inr ⟨e, endingOf s script e, hcomes, ?_, actsOn_endingOf hpolicy hfirst, ?_⟩
      · rw [run_eq_map, hfirst]
        rfl
      · rw [run_eq_map, hupTo]
        rfl

/-- A run whose deliveries arrive at once, in an empty environment. -/
def plainStart : Start where
  telemetry := ⟨.ofLookup false fun _ => none, .unknown, 0, ""⟩
  carrier := fun _ => ⟨0, false⟩
  policy := .ofSettings (.ofLookup false fun _ => none)
  invocation := some ⟨"run", none, .dataMovement⟩
  context := []

/-- A worker that looks whether it is cancelled and then rests for a second. -/
def restingScript : Script :=
  [.note, .sleepUnlessCancelled 1000, .note]

theorem apart_restingScript :
    FirstEvent.Apart (Course.ofScript none 0 restingScript).finish ⟨some 10, some 20⟩ := by
  have hfinish : (Course.ofScript none 0 restingScript).finish = some ⟨1000, .result (.ok ())⟩ :=
    rfl
  rw [hfinish]
  intro e e' he he' hne
  cases e <;> cases e' <;> cases he <;> cases he' <;> simp_all [FirstEvent.time]

/-- A resting worker that is interrupted stops at once, and the kill signal after that is
ignored. -/
theorem run_resting_interrupted :
    ∃ ending, run plainStart restingScript ⟨some 10, some 20⟩ = some ending ∧
      run plainStart restingScript ⟨some 10, none⟩ = some ending ∧
      ending.decision = .commandError ∧ ending.interrupted = true ∧ ending.time ≤ 9060 := by
  have hfirst : FirstEvent.of (Course.ofScript none 0 restingScript).finish ⟨some 10, some 20⟩ =
      some (.interrupt 10) := rfl
  have hpolicy : plainStart.policy = .ofSettings (.ofLookup false fun _ => none) := rfl
  rcases run_acts_on_first hpolicy apart_restingScript with
    ⟨-, hnone⟩ | ⟨e, ending, hcomes, hrun, hacts, hupTo⟩
  · exact absurd rfl (hnone (.interrupt 10))
  · obtain rfl : .interrupt 10 = e :=
      Option.some.inj
        (hfirst.symm.trans ((FirstEvent.of_eq_some_iff apart_restingScript).mpr hcomes))
    refine ⟨ending, hrun, hupTo, ?_, hacts.interrupted, ?_⟩
    · have hsees : Sees plainStart restingScript (.interrupt 10)
          ⟨10, .result (failWith .cancelled)⟩ :=
        .returned rfl (Nat.le_refl _) (by decide)
      rw [hacts.seen _ hsees]
      rfl
    · exact Nat.le_of_mul_le_mul_right (c := 1000000) hacts.time (by decide)

end Lifecycle

end Haulage
