import Haulage.Proofs.Lifecycle.Dispatch

/-!
# What is recorded of a failure

A failure comes to light in three ways: the worker returns it, the telemetry context records it
although the worker succeeded, or it is a fault recovered from the worker. The decision about the
result, the `error` entry of the context and the report agree on it in each of them.

- `Context.others_recorded`: recording a failure touches the `error` entry alone.
- `Completion.accounts_ofResult`: what the decision and the context say of a result.
- `Lifecycle.conclude_fault`: what follows from a recovered fault.
- `Lifecycle.result_accounted_for`: the decision, the context and the report agree.
-/

set_option autoImplicit false

namespace Haulage

open Haulage.Json

/-! ## The entry of a failure -/

namespace Context

variable {ctx : Context}

/-- The entries other than that of a failure, in order. -/
def others (ctx : Context) : Context :=
  ctx.filter fun m => m.1 != errorKey

theorem others_set (ctx : Context) (value : Value) :
    others (Members.set ctx errorKey value) = ctx.others := by
  induction ctx with
  | nil => simp [Members.set, others]
  | cons m rest ih =>
      obtain ⟨k, v⟩ := m
      rw [Members.set]
      split
      · rename_i hk
        subst hk
        simp [others]
      · simp only [others] at ih ⊢
        rw [List.filter_cons, List.filter_cons, ih]

theorem isBound_setText (ctx : Context) (key value : String) :
    (ctx.setText key value).isBound key = true := by
  rw [isBound, setText, Members.get?_set, if_pos rfl]
  rfl

/-- Recording a failure touches no other entry. -/
theorem others_recorded (ctx : Context) (f : Failure) :
    (Completion.recorded ctx f).others = ctx.others := by
  rw [Completion.recorded]
  split
  · rfl
  · exact others_set ctx _

/-- Once a failure is recorded there is one on record. -/
theorem isBound_recorded (ctx : Context) (f : Failure) :
    (Completion.recorded ctx f).isBound errorKey = true := by
  rw [Completion.recorded]
  split
  · rename_i hbound
    exact hbound
  · exact isBound_setText ctx _ _

end Context

/-! ## Results -/

namespace Completion

variable {ctx : Context} {f : Failure}

theorem recorded_of_isBound (h : ctx.isBound Context.errorKey = true) : recorded ctx f = ctx :=
  if_pos h

theorem get?_recorded_of_unbound (h : ctx.isBound Context.errorKey = false) :
    Members.get? (recorded ctx f) Context.errorKey = some (.string f.record) := by
  rw [recorded, h, if_neg Bool.false_ne_true, Context.setText, Members.get?_set, if_pos rfl]

/-- What the decision about a result and the context after it say. -/
structure Accounts (before : Context) (result : Attempt Unit) (c : Completion) : Prop where
  /-- It is a success when the worker succeeded and no failure was on record. -/
  success_iff : c.decision = .success ↔
    result = .ok () ∧ before.isBound Context.errorKey = false
  /-- It is a success when no failure is on record in the end. -/
  unrecorded_iff : c.decision = .success ↔ c.context.isBound Context.errorKey = false
  otherwise : c.decision ≠ .success → c.decision = .commandError
  /-- A success leaves the context as it was. -/
  untouched : c.decision = .success → c.context = before
  /-- A failure that was on record stays there. -/
  kept : before.isBound Context.errorKey = true →
    Members.get? c.context Context.errorKey = Members.get? before Context.errorKey
  /-- Any other failure is put on record. -/
  put : ∀ f, result = .error f → before.isBound Context.errorKey = false →
    Members.get? c.context Context.errorKey = some (.string f.record)
  others : c.context.others = before.others

theorem accounts_of_failure (t : Telemetry) (i : Invocation) (result : Attempt Unit)
    (h : failure? ctx result = some f)
    (hresult : result = .ok () → ctx.isBound Context.errorKey = true)
    (hf : ∀ f', result = .error f' → f' = f) :
    Accounts ctx result (ofInvocation t i ctx result) := by
  have hof : ofInvocation t i ctx result =
      { decision := .commandError
        context := recorded ctx f
        deliveries :=
          usageDeliveries t (recorded ctx f) i ++ reportDeliveries t (recorded ctx f) f i
        outputs := usageRemarks t i ++ reportRemarks t f i ++ [.stderr (lastWords i f)] } := by
    rw [ofInvocation, h]
  rw [hof]
  constructor
  · constructor
    · intro hsuccess
      cases hsuccess
    · rintro ⟨hok, hunbound⟩
      rw [hresult hok] at hunbound
      cases hunbound
  · constructor
    · intro hsuccess
      cases hsuccess
    · intro hunbound
      have hbound := Context.isBound_recorded ctx f
      rw [hunbound] at hbound
      cases hbound
  · exact fun _ => rfl
  · intro hsuccess
    cases hsuccess
  · intro hbound
    exact congrArg (Members.get? · Context.errorKey) (recorded_of_isBound hbound)
  · intro f' hf' hunbound
    rw [hf f' hf']
    exact get?_recorded_of_unbound hunbound
  · exact Context.others_recorded ctx f

/-- The decision about the result of an invocation and the context after it agree. -/
theorem accounts_ofResult (t : Telemetry) (i : Invocation) (ctx : Context) (result : Attempt Unit) :
    Accounts ctx result (ofResult t (some i) ctx result) := by
  rw [ofResult]
  cases result with
  | error f =>
      refine accounts_of_failure t i _ rfl ?_ ?_
      · intro hok
        cases hok
      · intro f' hf'
        exact (Except.error.inj hf').symm
  | ok _ =>
      -- a command that succeeded may have recorded an error, and fails by it then
      have htext := Context.isSome_text? ctx Context.errorKey
      cases hrecorded : ctx.text? Context.errorKey with
      | some text =>
          rw [hrecorded] at htext
          refine accounts_of_failure t i (f := .of (.text text)) _ ?_ ?_ ?_
          · rw [failure?, hrecorded]
            rfl
          · exact fun _ => htext.symm
          · intro f' hf'
            cases hf'
      | none =>
          rw [hrecorded] at htext
          have hof : ofInvocation t i ctx (.ok ()) =
              ⟨.success, ctx, usageDeliveries t ctx i, usageRemarks t i⟩ := by
            rw [ofInvocation, failure?, hrecorded]
            rfl
          rw [hof]
          constructor
          · exact ⟨fun _ => ⟨rfl, htext.symm⟩, fun _ => rfl⟩
          · exact ⟨fun _ => htext.symm, fun _ => rfl⟩
          · exact fun hfails => absurd rfl hfails
          · exact fun _ => rfl
          · exact fun _ => rfl
          · intro f hf
            cases hf
          · rfl

end Completion

/-! ## Recovered faults -/

/-- The message that a delivered report carries. -/
def Delivery.message? (d : Delivery) : Option String :=
  match d.body.members?.bind (Members.get? · "message") with
  | some (.string text) => some text
  | _ => none

namespace Completion

variable {t : Telemetry} {ctx : Context} {f : Failure} {i : Invocation} {d : Delivery}

/-- What is delivered about a failure is its report. -/
theorem body_of_mem_reportDeliveries (h : d ∈ reportDeliveries t ctx f i) :
    d.body = (t.report ctx f i).toValue := by
  rw [reportDeliveries, Option.mem_toList, Option.bind_eq_some_iff] at h
  obtain ⟨e, he, hd⟩ := h
  rw [Telemetry.reportDelivery?, Option.map_eq_some_iff] at hd
  obtain ⟨url, -, rfl⟩ := hd
  rw [Telemetry.report?, Telemetry.failureToReport] at he
  split at he
  · dsimp only at he
    split at he
    · cases he
    · rw [← Option.some.inj he]
  · cases he

theorem kind_of_mem_usageDeliveries (h : d ∈ usageDeliveries t ctx i) : d.kind = .usage := by
  have hkind : d.kind ∈ (usageDeliveries t ctx i).map (·.kind) := List.mem_map_of_mem h
  rw [map_kind_usageDeliveries] at hkind
  exact (Settings.mem_usageKinds.mp hkind).1

/-- The message of a delivered report begins with the text recorded for the failure. -/
theorem message?_of_mem_reportDeliveries (h : d ∈ reportDeliveries t ctx f i) :
    ∃ rest, d.message? = some (f.record ++ rest) := by
  have hmessage : d.message? = some (t.report ctx f i).message := by
    rw [Delivery.message?, body_of_mem_reportDeliveries h]
    rfl
  refine ⟨"\n\n" ++ DiagnosticEvent.divider ++ "\n\n" ++ (Value.object ctx.expand).pretty, ?_⟩
  rw [hmessage, Telemetry.report]
  simp only [String.append_assoc]

end Completion

namespace Lifecycle

variable {s : Start} {i : Invocation}

/-- A recovered fault is put on record, in place of any failure, and handed to the reporter. -/
theorem conclude_fault (hi : s.invocation = some i) (ctx : Context) (message trace : String) :
    conclude s ctx (.fault message trace) =
      let f : Failure := .of (.internalFault message trace)
      let ctx' := ctx.setText Context.errorKey f.record
      { decision := .commandError
        context := ctx'
        deliveries := Completion.usageDeliveries s.telemetry ctx' i ++
          Completion.reportDeliveries s.telemetry ctx' f i
        outputs :=
          Completion.usageRemarks s.telemetry i ++ Completion.reportRemarks s.telemetry f i ++
            [.stderr (Completion.lastWords i f)] } := by
  have hrecorded := fun f : Failure =>
    @Completion.recorded_of_isBound _ f (Context.isBound_setText ctx Context.errorKey f.record)
  simp only [conclude, hi, Completion.ofResult, Completion.ofInvocation, Completion.failure?,
    hrecorded]

/-- The text on record of a recovered fault. -/
def faultText (message trace : String) : String :=
  "panic occurred! " ++ message ++ "\n" ++ trace

/-- What follows from a recovered fault, whatever was on record before. -/
structure Recovers (s : Start) (i : Invocation) (before : Context) (message trace : String)
    (c : Completion) : Prop where
  decision : c.decision = .commandError
  recorded : Members.get? c.context Context.errorKey = some (.string (faultText message trace))
  /-- The reporter is handed the failure that this text is recorded for. -/
  handed : ∃ f, f = Failure.of (.internalFault message trace) ∧ f.record = faultText message trace ∧
    c.deliveries = Completion.usageDeliveries s.telemetry c.context i ++
      Completion.reportDeliveries s.telemetry c.context f i
  /-- The message of a report that is delivered begins with the text on record. -/
  reported : ∀ d ∈ c.deliveries, d.kind = .diagnostic →
    ∃ rest, d.message? = some (faultText message trace ++ rest)
  /-- A report is delivered if the settings allow it. -/
  delivered : s.telemetry.settings.telemetry = true →
    s.telemetry.settings.diagnosticsUrl.isSome = true → ∃ d ∈ c.deliveries, d.kind = .diagnostic
  others : c.context.others = before.others

theorem recovers_conclude (hi : s.invocation = some i) (ctx : Context) (message trace : String) :
    Recovers s i ctx message trace (conclude s ctx (.fault message trace)) := by
  have hfault := conclude_fault hi ctx message trace
  constructor
  · rw [hfault]
  · rw [hfault]
    dsimp only
    rw [Context.setText, Members.get?_set, if_pos rfl]
    rfl
  · refine ⟨_, rfl, rfl, ?_⟩
    rw [hfault]
  · intro d hd hkind
    rw [hfault] at hd
    rcases List.mem_append.mp hd with husage | hreport
    · rw [Completion.kind_of_mem_usageDeliveries husage] at hkind
      cases hkind
    · exact Completion.message?_of_mem_reportDeliveries hreport
  · intro htelemetry hurl
    -- whatever its message says, the fault is no cancellation
    have hmem : .diagnostic ∈ (conclude s ctx (.fault message trace)).deliveries.map (·.kind) :=
      diagnostic_mem_conclude_iff.mpr ⟨_, .recovered message trace,
        Failure.isCancellation_internalFault message trace, by rw [hi]; rfl, htelemetry, hurl⟩
    obtain ⟨d, hd, hkind⟩ := List.mem_map.mp hmem
    exact ⟨d, hd, hkind⟩
  · rw [hfault]
    exact Context.others_set ctx _

/-- The decision about a result, the failure on record after it and, for a recovered fault, the
report of it agree. -/
theorem result_accounted_for (hi : s.invocation = some i) (ctx : Context) :
    (∀ result, Completion.Accounts ctx result
        (Completion.ofResult s.telemetry s.invocation ctx result)) ∧
      ∀ message trace, Recovers s i ctx message trace (conclude s ctx (.fault message trace)) := by
  constructor
  · intro result
    rw [hi]
    exact Completion.accounts_ofResult s.telemetry i ctx result
  · exact recovers_conclude hi ctx

/-- A fault whose message reads like a cancellation takes the place of a failure on record, beside
the other entries, and its report begins with the same text. -/
theorem result_accounted_for_lookalike :
    ∃ c, conclude collectedStart [("stage", .string "load"), ("error", .string "stale")]
          (.fault cancelledText "0: main") = c ∧
      c.decision = .commandError ∧
      Members.get? c.context "error" = some
      (.string "panic occurred! operation cancelled\n0: main") ∧
      c.context.others = [("stage", .string "load")] ∧
      ∃ d ∈ c.deliveries, ∃ rest,
        d.message? = some ("panic occurred! operation cancelled\n0: main" ++ rest) := by
  have hi : collectedStart.invocation = some ⟨"run", none, .dataMovement⟩ := rfl
  obtain ⟨-, hrecovers⟩ :=
    result_accounted_for hi [("stage", .string "load"), ("error", .string "stale")]
  have hfault := hrecovers cancelledText "0: main"
  have htext : faultText cancelledText "0: main" =
      "panic occurred! operation cancelled\n0: main" := by
    decide
  obtain ⟨d, hd, hkind⟩ := hfault.delivered rfl rfl
  refine ⟨_, rfl, hfault.decision, ?_, ?_, d, hd, ?_⟩
  · rw [← htext]
    exact hfault.recorded
  · rw [hfault.others]
    rfl
  · rw [← htext]
    exact hfault.reported d hd hkind

end Lifecycle

end Haulage
