import Haulage.Log
import Haulage.Proofs.Lifecycle.Ending

/-!
# What collectors cannot change

Telemetry only listens. Whether it is on, whom it speaks for, where its deliveries go and what
becomes of them on the way makes no difference to the worker, to the decision about its result, to
the telemetry context or to what is said outside the log. It makes a difference to the time at which
the process ends, within the time that deliveries have.

- `Completion.Alike`, `alike_conclude`: what follows from a result, apart from
  deliveries and the log.
- `Ending.Alike`: two ends that nobody but the collectors can tell apart.
- `alike_endingOf`: the end of a process is alike for all collectors, whatever comes first.
- `run_alike_for_all_collectors`: the same for whole processes.
-/

set_option autoImplicit false

namespace Haulage

/-! ## The log turned off -/

/-- The filter that turns the log off. -/
def LogFilter.off : LogFilter :=
  [⟨"", 0⟩]

theorem LogFilter.passes_off (m : LogMessage) : LogFilter.off.passes m = false := by
  have hrule : LogFilter.off.ruleFor? m.origin = some ⟨"", 0⟩ := rfl
  rw [passes, hrule]
  cases hlevel : m.level <;> rfl

example : LogFilter.read? "off" = some .off := by decide +kernel

namespace Output

variable (style : LogStyle)

theorem written_append (filter : LogFilter) (first second : List Output) :
    written filter style (first ++ second) =
      written filter style first ++ written filter style second :=
  List.filterMap_append

/-- With the log turned off nothing is written of a message. -/
theorem written_off_log (m : LogMessage) : written .off style [.log m] = [] := by
  simp only [written, List.filterMap_cons, LogFilter.passes_off, Bool.false_eq_true, if_false,
    List.filterMap_nil]

end Output

/-! ## What follows from a result -/

namespace Completion

/-- Two completions that differ in their deliveries and in the log alone. -/
structure Alike (c c' : Completion) : Prop where
  decision : c'.decision = c.decision
  context : c'.context = c.context
  said : ∀ style, Output.written .off style c'.outputs = Output.written .off style c.outputs

variable (t t' : Telemetry) (i : Invocation) (ctx : Context) (style : LogStyle)

theorem written_off_usageRemarks : Output.written .off style (usageRemarks t i) = [] := by
  rw [usageRemarks]
  split
  · exact Output.written_off_log style _
  · rfl

theorem written_off_reportRemarks (f : Failure) :
    Output.written .off style (reportRemarks t f i) = [] := by
  rw [reportRemarks]
  split
  · rfl
  · split
    · exact Output.written_off_log style _
    · split
      · exact Output.written_off_log style _
      · rfl

theorem alike_ofInvocation (result : Attempt Unit) :
    Alike (ofInvocation t i ctx result) (ofInvocation t' i ctx result) := by
  rw [ofInvocation, ofInvocation]
  cases failure? ctx result with
  | none =>
      refine ⟨rfl, rfl, fun style => ?_⟩
      rw [written_off_usageRemarks, written_off_usageRemarks]
  | some f =>
      -- of what is said about a failure only the last words are no remark for the log
      refine ⟨rfl, rfl, fun style => ?_⟩
      simp only [Output.written_append, written_off_usageRemarks, written_off_reportRemarks]

/-- What follows from a result is alike whatever telemetry knows. -/
theorem alike_ofResult (i : Option Invocation) (result : Attempt Unit) :
    Alike (ofResult t i ctx result) (ofResult t' i ctx result) := by
  cases i with
  | some i => exact alike_ofInvocation t t' i ctx result
  | none => cases result <;> exact ⟨rfl, rfl, fun _ => rfl⟩

end Completion

/-! ## How a process ends -/

/-- Two ends of a process that only its collectors and a clock can tell apart: a window apart at
most, and otherwise the same but for the deliveries and the log. -/
structure Ending.Alike (window : Nat) (e e' : Ending) : Prop where
  decision : e'.decision = e.decision
  interrupted : e'.interrupted = e.interrupted
  notes : e'.notes = e.notes
  context : e'.context = e.context
  said : ∀ style, Output.written .off style e'.outputs = Output.written .off style e.outputs
  sooner : e'.time ≤ e.time + window
  later : e.time ≤ e'.time + window

theorem Ending.Alike.refl (window : Nat) (e : Ending) : Alike window e e :=
  ⟨rfl, rfl, rfl, rfl, fun _ => rfl, Nat.le_add_right _ _, Nat.le_add_right _ _⟩

/-- Waiting for deliveries does not end before it starts. -/
theorem Outbox.le_flushEnd (o : Outbox) (now window : Nat) : now ≤ o.flushEnd now window := by
  have hnow : now ≤ o.lastDue now := ((o.lastDue_le_iff now _).mp (Nat.le_refl _)).1
  exact Nat.le_min.mpr ⟨Nat.le_add_right _ _, hnow⟩

namespace Lifecycle

/-- Two starts of a process that differ in what telemetry knows and in what carries its
deliveries. -/
structure SameBut (s s' : Start) : Prop where
  policy : s'.policy = s.policy
  invocation : s'.invocation = s.invocation
  context : s'.context = s.context

variable {s s' : Start}

theorem alike_conclude (h : SameBut s s') (ctx : Context) (result : WorkerResult) :
    Completion.Alike (conclude s ctx result) (conclude s' ctx result) := by
  cases result with
  | result r =>
      rw [conclude, conclude, h.invocation]
      exact Completion.alike_ofResult _ _ _ _ _
  | fault message trace =>
      simp only [conclude, h.invocation]
      exact Completion.alike_ofResult _ _ _ _ _

theorem le_time_afterFinish (s : Start) (course : Course) (window : Nat) (interrupted : Bool)
    (said : List Output) (r : Timed WorkerResult) :
    r.time + s.policy.exitDelay ≤ (afterFinish s course window interrupted said r).time :=
  Nat.add_le_add_right (Outbox.le_flushEnd _ _ _) _

/-- A process that has seen a result ends alike: when its deliveries have arrived or the window is
over, and no sooner than its worker. -/
theorem alike_afterFinish (h : SameBut s s') (course : Course) (window : Nat) (interrupted : Bool)
    (said : List Output) (r : Timed WorkerResult) :
    Ending.Alike window (afterFinish s course window interrupted said r)
      (afterFinish s' course window interrupted said r) := by
  have hconclude := alike_conclude h (course.contextBefore (r.time + 1) s.context) r.event
  have hstart := le_time_afterFinish s course window interrupted said r
  have hstart' := le_time_afterFinish s' course window interrupted said r
  have hend := time_afterFinish_le s course window interrupted said r
  have hend' := time_afterFinish_le s' course window interrupted said r
  rw [h.policy] at hstart' hend'
  constructor
  · simpa only [afterFinish, h.context] using hconclude.decision
  · rfl
  · rfl
  · simpa only [afterFinish, h.context] using hconclude.context
  · intro style
    have hsaid := hconclude.said style
    simpa only [afterFinish, h.context, Output.written_append,
      List.append_cancel_left_eq] using hsaid
  · omega
  · omega

/-- A process that leaves its worker alone has sent nothing and ends the same. -/
theorem abandon_of_sameBut (h : SameBut s s') (course : Course) (decision : ExitDecision)
    (window : Nat) (interrupted : Bool) (said : List Output) (time : Nat) :
    abandon s' course decision window interrupted said time =
      abandon s course decision window interrupted said time := by
  simp only [abandon, h.policy, h.context]

theorem alike_afterInterrupt (h : SameBut s s') (course : Course) (time : Nat) :
    Ending.Alike s.policy.interruptFlush (afterInterrupt s course time)
      (afterInterrupt s' course time) := by
  simp only [afterInterrupt, h.policy, abandon_of_sameBut h]
  split
  · split
    · exact alike_afterFinish h _ _ _ _ _
    · exact .refl _ _
  · exact .refl _ _

/-- Whatever comes first, a process ends alike for all collectors. -/
theorem alike_endingOf (h : SameBut s s') (script : Script) (e : FirstEvent) :
    Ending.Alike (windowOf s.policy e) (endingOf s script e) (endingOf s' script e) := by
  cases e with
  | finish r =>
      rw [endingOf, endingOf, h.policy]
      exact alike_afterFinish h _ _ _ _ _
  | kill time =>
      rw [endingOf, endingOf, h.policy, abandon_of_sameBut h]
      exact .refl _ _
  | interrupt time => exact alike_afterInterrupt h _ time

/-! ## Collectors -/

/-- Everything about a process that is a matter of its collectors: what the settings say of them,
whom telemetry speaks for and when, and what becomes of deliveries. -/
structure Collecting where
  telemetry : Bool
  devBuild : Bool
  packageName : String
  projectId : Option String
  eventsUrl : Option Url
  diagnosticsUrl : Option Url
  identity : Identity
  emitTime : Int
  timestamp : String
  carrier : Carrier

/-- The settings with what they say of the collectors replaced. -/
def Collecting.settings (c : Collecting) (settings : Settings) : Settings :=
  { settings with
    telemetry := c.telemetry
    devBuild := c.devBuild
    packageName := c.packageName
    projectId := c.projectId
    eventsUrl := c.eventsUrl
    diagnosticsUrl := c.diagnosticsUrl }

/-- A process with the given settings, apart from what these say of the collectors. -/
def Collecting.start (c : Collecting) (settings : Settings) (invocation : Option Invocation)
    (context : Context) : Start where
  telemetry := ⟨c.settings settings, c.identity, c.emitTime, c.timestamp⟩
  carrier := c.carrier
  policy := .ofSettings (c.settings settings)
  invocation := invocation
  context := context

/-- Two processes that differ in their collectors end both or not at all. Their ends are alike, at
most as far apart as the window of what came first, and their workers have seen the same. -/
theorem run_alike_for_all_collectors (c c' : Collecting) (settings : Settings)
    (invocation : Option Invocation) (context : Context) (script : Script) (signals : Signals) :
    (run (c.start settings invocation context) script signals = none ∧
        run (c'.start settings invocation context) script signals = none) ∨
      ∃ first e e',
        FirstEvent.of (Course.ofScript none 0 script).finish signals = some first ∧
        run (c.start settings invocation context) script signals = some e ∧
        run (c'.start settings invocation context) script signals = some e' ∧
        Ending.Alike (windowOf (.ofSettings settings) first) e e' ∧
        e'.observations (c'.settings settings) = e.observations (c.settings settings) := by
  have hsame : SameBut (c.start settings invocation context)
      (c'.start settings invocation context) :=
    ⟨rfl, rfl, rfl⟩
  rw [run_eq_map, run_eq_map]
  cases hfirst : FirstEvent.of (Course.ofScript none 0 script).finish signals with
  | none => exact .inl ⟨rfl, rfl⟩
  | some first =>
      have halike := alike_endingOf hsame script first
      refine .inr ⟨first, _, _, rfl, rfl, rfl, halike, ?_⟩
      rw [Ending.observations, Ending.observations, halike.notes]
      rfl

end Lifecycle

end Haulage
