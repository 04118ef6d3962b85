import Haulage.Proofs.Lifecycle.Ending

/-!
# What a process tells its collectors

A process tells its collectors about the result of its worker, if it sees one and a command was
used: of the use once, and of a failure once, unless that is a cancellation. What may leave the
process is decided by the settings. A fault recovered from the worker is a failure of its own kind
and no cancellation, whatever its message says.

- `Fails`: when a result is a failure.
- `map_kind_conclude_of_fails`, `map_kind_conclude_of_succeeds`: what follows from a result.
- `isCancellation_internalFault`: a recovered fault is no cancellation.
- `run_dispatches`: what a process sends, and when.
-/

set_option autoImplicit false

namespace Haulage

open Haulage.Json

/-! ## Deliveries by their kinds -/

namespace Outbox

/-- Deliveries that are sent in turn are added to those sent before. -/
theorem map_sent_sendAll (o : Outbox) (carrier : Carrier) (now : Nat) (ds : List Delivery) :
    (o.sendAll carrier now ds).sent.map (·.delivery) = o.sent.map (·.delivery) ++ ds := by
  induction ds generalizing o with
  | nil => exact (List.append_nil _).symm
  | cons d more ih =>
      rw [sendAll, List.foldl_cons]
      refine (ih _).trans ?_
      rw [send, List.map_append, List.append_assoc]
      rfl

end Outbox

/-- The kinds of what a process has sent, in order. -/
def Ending.sentKinds (e : Ending) : List DeliveryKind :=
  e.outbox.sent.map (·.delivery.kind)

namespace Settings

/-- What is sent about the use of a command. -/
def usageKinds (s : Settings) : List DeliveryKind :=
  if s.trackingEnabled ∧ s.eventsUrl.isSome then [.usage] else []

/-- What is sent about a failure. -/
def reportKinds (s : Settings) (f : Failure) : List DeliveryKind :=
  if s.telemetry ∧ f.isCancellation = false ∧ s.diagnosticsUrl.isSome then [.diagnostic] else []

theorem mem_usageKinds {s : Settings} {k : DeliveryKind} :
    k ∈ s.usageKinds ↔
      k = .usage ∧ s.telemetry = true ∧ s.devBuild = false ∧ s.eventsUrl.isSome = true := by
  rw [usageKinds, trackingEnabled]
  split <;> simp_all

theorem mem_reportKinds {s : Settings} {f : Failure} {k : DeliveryKind} :
    k ∈ s.reportKinds f ↔ k = .diagnostic ∧ s.telemetry = true ∧ f.isCancellation = false ∧
      s.diagnosticsUrl.isSome = true := by
  rw [reportKinds]
  split <;> simp_all

theorem length_usageKinds_le (s : Settings) : s.usageKinds.length ≤ 1 := by
  rw [usageKinds]
  split <;> simp

theorem length_reportKinds_le (s : Settings) (f : Failure) : (s.reportKinds f).length ≤ 1 := by
  rw [reportKinds]
  split <;> simp

end Settings

namespace Completion

theorem map_kind_usageDeliveries (t : Telemetry) (ctx : Context) (i : Invocation) :
    (usageDeliveries t ctx i).map (·.kind) = t.settings.usageKinds := by
  rw [usageDeliveries, Telemetry.track?, Settings.usageKinds]
  cases t.settings.trackingEnabled with
  | false => rfl
  | true =>
      cases hurl : t.settings.eventsUrl with
      | none => simp [Telemetry.usageDelivery?, hurl]
      | some url => simp [Telemetry.usageDelivery?, hurl]

theorem map_kind_reportDeliveries (t : Telemetry) (ctx : Context) (f : Failure) (i : Invocation) :
    (reportDeliveries t ctx f i).map (·.kind) = t.settings.reportKinds f := by
  rw [reportDeliveries, Telemetry.report?, Settings.reportKinds]
  cases t.settings.telemetry with
  | false => rfl
  | true =>
      cases hcancelled : f.isCancellation with
      | true => simp [Telemetry.failureToReport, hcancelled]
      | false =>
          cases hurl : t.settings.diagnosticsUrl with
          | none => simp [Telemetry.failureToReport, hcancelled, Telemetry.reportDelivery?, hurl]
          | some url =>
              simp [Telemetry.failureToReport, hcancelled, Telemetry.reportDelivery?, hurl]

end Completion

/-! ## Failures -/

namespace Failure

/-- A fault recovered from a worker is no cancellation, whatever its message says. -/
theorem isCancellation_internalFault (message trace : String) :
    (Failure.of (.internalFault message trace)).isCancellation = false := by
  have hne : "internal fault: " ++ message ≠ cancelledText := by
    -- the two begin with different characters
    intro h
    have hhead := congrArg (fun text => text.toList.head?) h
    rw [cancelledText, String.toList_append] at hhead
    simp at hhead
  have hmessage : (Cause.internalFault message trace).message = "internal fault: " ++ message := rfl
  rw [isCancellation, chain, Failure.of, hmessage]
  simpa only [List.map_nil, List.nil_append, List.any_cons, List.any_nil, Bool.or_false,
    beq_eq_false_iff_ne] using hne

end Failure

namespace Lifecycle

variable {s : Start} {script : Script} {signals : Signals} {e : FirstEvent} {r : Timed WorkerResult}
  {ctx : Context} {result : WorkerResult} {f : Failure} {i : Invocation}

/-- A result is a failure: an error of the worker, a fault recovered from it, or an error that the
telemetry context records although the worker succeeded. -/
inductive Fails (ctx : Context) : WorkerResult → Failure → Prop where
  | error (f : Failure) : Fails ctx (.result (.error f)) f
  | recovered (message trace : String) :
      Fails ctx (.fault message trace) (.of (.internalFault message trace))
  | recorded {text : String} : ctx.text? Context.errorKey = some text →
      Fails ctx (.result (.ok ())) (.of (.text text))

theorem Fails.unique {f' : Failure} (h : Fails ctx result f) (h' : Fails ctx result f') :
    f' = f := by
  cases h with
  | error =>
      cases h'
      rfl
  | recovered =>
      cases h'
      rfl
  | recorded htext =>
      cases h' with
      | recorded htext' =>
          rw [htext, Option.some.injEq] at htext'
          rw [htext']

theorem deliveries_conclude_of_unused (hi : s.invocation = none) :
    (conclude s ctx result).deliveries = [] := by
  cases result with
  | result r =>
      cases r with
      | ok _ => rw [conclude, hi]; rfl
      | error f => rw [conclude, hi]; rfl
  | fault message trace =>
      rw [conclude]
      simp only [hi]
      rfl

/-- A failure of a command is told of as a use and as a failure. -/
theorem map_kind_conclude_of_fails (hi : s.invocation = some i) (h : Fails ctx result f) :
    (conclude s ctx result).deliveries.map (·.kind) =
      s.telemetry.settings.usageKinds ++ s.telemetry.settings.reportKinds f := by
  have hfailed : ∀ ctx' attempt, Completion.failure? ctx' attempt = some f →
      (Completion.ofResult s.telemetry s.invocation ctx' attempt).deliveries.map (·.kind) =
        s.telemetry.settings.usageKinds ++ s.telemetry.settings.reportKinds f := by
    intro ctx' attempt hf
    rw [hi, Completion.ofResult, Completion.ofInvocation, hf]
    dsimp only
    rw [List.map_append, Completion.map_kind_usageDeliveries, Completion.map_kind_reportDeliveries]
  cases h with
  | error => exact hfailed ctx _ rfl
  | recovered message trace => exact hfailed _ _ rfl
  | recorded htext =>
      refine hfailed ctx _ ?_
      rw [Completion.failure?, htext]
      rfl

/-- A success of a command is told of as a use. -/
theorem map_kind_conclude_of_succeeds (hi : s.invocation = some i) (h : ∀ f, ¬Fails ctx result f) :
    (conclude s ctx result).deliveries.map (·.kind) = s.telemetry.settings.usageKinds := by
  cases result with
  | result r =>
      cases r with
      | ok _ =>
          have htext : ctx.text? Context.errorKey = none := by
            cases htext : ctx.text? Context.errorKey with
            | none => rfl
            | some text => exact absurd (.recorded htext) (h _)
          rw [conclude, hi, Completion.ofResult, Completion.ofInvocation, Completion.failure?,
            htext]
          exact Completion.map_kind_usageDeliveries _ _ _
      | error f => exact absurd (.error f) (h f)
  | fault message trace => exact absurd (.recovered message trace) (h _)

/-- What is told of a result: nothing when no command was used, else the use and then a failure. -/
theorem map_kind_conclude_cases (s : Start) (ctx : Context) (result : WorkerResult) :
    (s.invocation = none ∧ (conclude s ctx result).deliveries.map (·.kind) = []) ∨
      s.invocation.isSome = true ∧
        ((∃ f, Fails ctx result f ∧ (conclude s ctx result).deliveries.map (·.kind) =
            s.telemetry.settings.usageKinds ++ s.telemetry.settings.reportKinds f) ∨
          (∀ f, ¬Fails ctx result f) ∧
            (conclude s ctx result).deliveries.map (·.kind) = s.telemetry.settings.usageKinds) := by
  cases hi : s.invocation with
  | none => exact .inl ⟨rfl, by rw [deliveries_conclude_of_unused hi]; rfl⟩
  | some i =>
      refine .inr ⟨rfl, ?_⟩
      by_cases hfails : ∃ f, Fails ctx result f
      · obtain ⟨f, hf⟩ := hfails
        exact .inl ⟨f, hf, map_kind_conclude_of_fails hi hf⟩
      · have hsucceeds : ∀ f, ¬Fails ctx result f := not_exists.mp hfails
        exact .inr ⟨hsucceeds, map_kind_conclude_of_succeeds hi hsucceeds⟩

theorem count_conclude_le (s : Start) (ctx : Context) (result : WorkerResult) (k : DeliveryKind) :
    ((conclude s ctx result).deliveries.map (·.kind)).count k ≤ 1 := by
  have husage := s.telemetry.settings.length_usageKinds_le
  rcases map_kind_conclude_cases s ctx result with ⟨-, hkinds⟩ | ⟨-, ⟨f, -, hkinds⟩ | ⟨-, hkinds⟩⟩
  · rw [hkinds]
    exact Nat.zero_le 1
  · -- a use and a failure are events of different kinds
    have hreport := s.telemetry.settings.length_reportKinds_le f
    rw [hkinds, List.count_append]
    cases k with
    | usage =>
        have hnone : (s.telemetry.settings.reportKinds f).count .usage = 0 :=
          List.count_eq_zero.mpr fun hmem => nomatch (Settings.mem_reportKinds.mp hmem).1
        rw [hnone]
        exact Nat.le_trans List.count_le_length husage
    | diagnostic =>
        have hnone : s.telemetry.settings.usageKinds.count .diagnostic = 0 :=
          List.count_eq_zero.mpr fun hmem => nomatch (Settings.mem_usageKinds.mp hmem).1
        rw [hnone, Nat.zero_add]
        exact Nat.le_trans List.count_le_length hreport
  · rw [hkinds]
    exact Nat.le_trans List.count_le_length husage

theorem usage_mem_conclude_iff :
    .usage ∈ (conclude s ctx result).deliveries.map (·.kind) ↔
      s.invocation.isSome = true ∧ s.telemetry.settings.telemetry = true ∧
        s.telemetry.settings.devBuild = false ∧ s.telemetry.settings.eventsUrl.isSome = true := by
  rcases map_kind_conclude_cases s ctx result with ⟨hi, hkinds⟩ | ⟨hi, ⟨f, -, hkinds⟩ | ⟨-, hkinds⟩⟩
  · simp [hkinds, hi]
  · simp [hkinds, hi, Settings.mem_usageKinds, Settings.mem_reportKinds]
  · simp [hkinds, hi, Settings.mem_usageKinds]

theorem diagnostic_mem_conclude_iff :
    .diagnostic ∈ (conclude s ctx result).deliveries.map (·.kind) ↔
      ∃ f, Fails ctx result f ∧ f.isCancellation = false ∧ s.invocation.isSome = true ∧
        s.telemetry.settings.telemetry = true ∧
          s.telemetry.settings.diagnosticsUrl.isSome = true := by
  rcases map_kind_conclude_cases s ctx result with
    ⟨hi, hkinds⟩ | ⟨hi, ⟨f, hf, hkinds⟩ | ⟨hsucceeds, hkinds⟩⟩
  · simp [hkinds, hi]
  · rw [hkinds, List.mem_append, Settings.mem_usageKinds, Settings.mem_reportKinds]
    constructor
    · rintro (⟨hkind, -⟩ | ⟨-, htelemetry, hcancelled, hurl⟩)
      · cases hkind
      · exact ⟨f, hf, hcancelled, hi, htelemetry, hurl⟩
    · rintro ⟨f', hf', hcancelled, -, htelemetry, hurl⟩
      rw [hf.unique hf'] at hcancelled
      exact .inr ⟨rfl, htelemetry, hcancelled, hurl⟩
  · rw [hkinds, Settings.mem_usageKinds]
    constructor
    · rintro ⟨hkind, -⟩
      cases hkind
    · rintro ⟨f, hf, -⟩
      exact absurd hf (hsucceeds f)

/-! ## Processes -/

/-- A process that sees a result sends what is told of it. -/
theorem sentKinds_endingOf_of_sees (h : Sees s script e r) :
    (endingOf s script e).sentKinds =
      (conclude s (contextAt s script e r) r.event).deliveries.map (·.kind) := by
  obtain ⟨said, hending⟩ := endingOf_of_sees h
  have hsent := Outbox.map_sent_sendAll .empty s.carrier r.time
    (conclude s (contextAt s script e r) r.event).deliveries
  rw [hending, Ending.sentKinds, ← List.nil_append (conclude s _ _).deliveries]
  refine Eq.trans ?_ (congrArg (List.map (·.kind)) hsent)
  rw [List.map_map]
  rfl

/-- A process that sees no result sends nothing. -/
theorem sentKinds_endingOf_of_unseen
    (hfirst : FirstEvent.of (Course.ofScript none 0 script).finish signals = some e)
    (h : ¬∃ r, Sees s script e r) : (endingOf s script e).sentKinds = [] := by
  obtain ⟨said, time, hending, -⟩ := endingOf_of_unseen hfirst h
  rw [hending]
  rfl

/-- What a process sends. -/
structure Dispatches (s : Start) (script : Script) (e : FirstEvent) (ending : Ending) : Prop where
  usage_once : ending.sentKinds.count .usage ≤ 1
  report_once : ending.sentKinds.count .diagnostic ≤ 1
  /-- A use is told of when a result is seen, a command was used and the settings allow it. -/
  usage : .usage ∈ ending.sentKinds ↔
    (∃ r, Sees s script e r) ∧ s.invocation.isSome = true ∧
      s.telemetry.settings.telemetry = true ∧ s.telemetry.settings.devBuild = false ∧
      s.telemetry.settings.eventsUrl.isSome = true
  /-- A failure is told of when the result is one, other than a cancellation. -/
  report : .diagnostic ∈ ending.sentKinds ↔
    ∃ r f, Sees s script e r ∧ Fails (contextAt s script e r) r.event f ∧ f.isCancellation = false ∧
      s.invocation.isSome = true ∧ s.telemetry.settings.telemetry = true ∧
      s.telemetry.settings.diagnosticsUrl.isSome = true
  /-- A worker that ends because it is cancelled is not reported and not taken for a success. -/
  cancelled : ∀ time activities,
    (courseOf script e).finish = some ⟨time, .result (.error ⟨activities, .cancelled⟩)⟩ →
    .diagnostic ∉ ending.sentKinds ∧ ending.decision ≠ .success
  /-- A recovered fault is no cancellation and is reported, whatever its message says. -/
  recovered : ∀ time message trace, Sees s script e ⟨time, .fault message trace⟩ →
    (Failure.of (.internalFault message trace)).isCancellation = false ∧
      (s.invocation.isSome = true → s.telemetry.settings.telemetry = true →
        s.telemetry.settings.diagnosticsUrl.isSome = true → .diagnostic ∈ ending.sentKinds)

theorem dispatches_of_sees
    (hfirst : FirstEvent.of (Course.ofScript none 0 script).finish signals = some e)
    (h : Sees s script e r) : Dispatches s script e (endingOf s script e) := by
  have hkinds := sentKinds_endingOf_of_sees h
  have hreport : .diagnostic ∈ (endingOf s script e).sentKinds ↔
      ∃ r f, Sees s script e r ∧ Fails (contextAt s script e r) r.event f ∧
        f.isCancellation = false ∧
        s.invocation.isSome = true ∧ s.telemetry.settings.telemetry = true ∧
        s.telemetry.settings.diagnosticsUrl.isSome = true := by
    rw [hkinds, diagnostic_mem_conclude_iff]
    constructor
    · rintro ⟨f, hf⟩
      exact ⟨r, f, h, hf⟩
    · rintro ⟨r', f, hr', hf⟩
      rw [h.unique hr'] at hf
      exact ⟨f, hf⟩
  constructor
  · rw [hkinds]
    exact count_conclude_le _ _ _ _
  · rw [hkinds]
    exact count_conclude_le _ _ _ _
  · rw [hkinds, usage_mem_conclude_iff]
    exact ⟨fun hrest => ⟨⟨r, h⟩, hrest⟩, fun hrest => hrest.2⟩
  · exact hreport
  -- a run that gives up at a cancellation fails by it, and a cancellation is not reported
  · intro time activities hfinish
    rw [finish_of_sees hfirst h, Option.some.injEq] at hfinish
    subst hfinish
    constructor
    · rw [hreport]
      rintro ⟨r', f, hr', hf, hcancelled, -⟩
      rw [h.unique hr'] at hf
      cases hf
      rw [Failure.isCancellation_of_cancelled] at hcancelled
      cases hcancelled
    · obtain ⟨said, hending⟩ := endingOf_of_sees h
      rw [hending, afterFinish]
      dsimp only
      rw [decision_conclude]
      exact fun hsuccess => nomatch hsuccess
  -- a fault is reported even when its message reads like a cancellation
  · intro time message trace hfault
    refine ⟨Failure.isCancellation_internalFault message trace, fun hi htelemetry hurl => ?_⟩
    exact hreport.mpr ⟨_, _, hfault, .recovered message trace,
      Failure.isCancellation_internalFault message trace, hi, htelemetry, hurl⟩

theorem dispatches_of_unseen
    (hfirst : FirstEvent.of (Course.ofScript none 0 script).finish signals = some e)
    (h : ¬∃ r, Sees s script e r) : Dispatches s script e (endingOf s script e) := by
  have hkinds := sentKinds_endingOf_of_unseen hfirst h
  obtain ⟨said, time, hending, -⟩ := endingOf_of_unseen hfirst h
  constructor
  · simp [hkinds]
  · simp [hkinds]
  · rw [hkinds]
    exact ⟨fun hmem => absurd hmem List.not_mem_nil, fun hrest => absurd hrest.1 h⟩
  · rw [hkinds]
    refine ⟨fun hmem => absurd hmem List.not_mem_nil, ?_⟩
    rintro ⟨r, f, hr, -⟩
    exact absurd ⟨r, hr⟩ h
  · intro time activities _
    rw [hkinds, hending]
    refine ⟨List.not_mem_nil, ?_⟩
    cases e <;> exact fun hsuccess => nomatch hsuccess
  · intro time message trace hfault
    exact absurd ⟨_, hfault⟩ h

/-- Every process that ends has acted on an earliest event and sends what it should. -/
theorem run_dispatches {ending : Ending} (h : run s script signals = some ending) :
    ∃ e, FirstEvent.Comes (Course.ofScript none 0 script).finish signals e ∧
      (∀ e', FirstEvent.Comes (Course.ofScript none 0 script).finish signals e' →
        e.time ≤ e'.time) ∧
      Dispatches s script e ending := by
  rw [run_eq_map] at h
  obtain ⟨e, hfirst, rfl⟩ := Option.map_eq_some_iff.mp h
  refine ⟨e, FirstEvent.comes_of_eq_some hfirst,
    fun e' he' => FirstEvent.time_le_of_eq_some hfirst he', ?_⟩
  by_cases hsees : ∃ r, Sees s script e r
  · obtain ⟨r, hr⟩ := hsees
    exact dispatches_of_sees hfirst hr
  · exact dispatches_of_unseen hfirst hsees

/-- A run that has a collector for everything. -/
def collectedStart : Start :=
  let collector : Url := ⟨"http", some ⟨none, .domain "collector.test", none⟩, "/", none, none⟩
  let settings : Settings := .ofLookup false fun _ => none
  { plainStart with
    telemetry :=
      { plainStart.telemetry with
        settings :=
          { settings with eventsUrl := some collector, diagnosticsUrl := some collector } } }

/-- A fault whose message reads like a cancellation is told of all the same. -/
theorem run_dispatches_lookalike :
    ∃ ending, run collectedStart [.sleep 3, .fault cancelledText ""] ⟨none, some 5⟩ = some ending ∧
      .usage ∈ ending.sentKinds ∧ .diagnostic ∈ ending.sentKinds := by
  obtain ⟨ending, hrun⟩ :
      ∃ ending, run collectedStart [.sleep 3, .fault cancelledText ""] ⟨none, some 5⟩ =
        some ending :=
    ⟨_, rfl⟩
  obtain ⟨e, hcomes, hearliest, hdispatches⟩ := run_dispatches hrun
  have hle : e.time ≤ 3 := hearliest (.finish ⟨3, .fault cancelledText ""⟩) rfl
  have hsees : Sees collectedStart [.sleep 3, .fault cancelledText ""] e
      ⟨3, .fault cancelledText ""⟩ := by
    cases e with
    | finish r =>
        cases hcomes
        exact .finished _
    | interrupt t => cases hcomes
    | kill t =>
        cases hcomes
        exact absurd hle (by decide)
  exact ⟨ending, hrun, hdispatches.usage.mpr ⟨⟨_, hsees⟩, rfl, rfl, rfl, rfl⟩,
    (hdispatches.recovered _ _ _ hsees).2 rfl rfl rfl⟩

end Lifecycle

end Haulage
