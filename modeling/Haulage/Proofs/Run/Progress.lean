import Haulage.Proofs.Run.Task
import Haulage.Proofs.Run.Transfer
import Haulage.Proofs.Telemetry.Filing

/-!
# The progress that a run records

A run leaves a record of how far it got: the stage that it entered last, what its task was once it
had one, and what it moved once it was done. The record agrees with the result, and the report of a
failure is filed under the two ends that the run was resolved to.

- `isEmpty_connectorType_of_endpoint`: every end of a run has a connector type.
- `stage_ofTask`: the stages that a transfer can end in.
- `records_record`, `filesReports_of_records`: what a run records about its task, and what its
  reports are filed under.
- `execute_leaves_record`: what the record says of a run.
-/

set_option autoImplicit false

namespace Haulage

/-! ## Connector types -/

namespace Location

theorem isEmpty_connectorType_file (path : Path) : (file path).connectorType.isEmpty = false := rfl

theorem isEmpty_connectorType_remote {url : Url} (h : 1 < url.scheme.utf8ByteSize) :
    (remote url).connectorType.isEmpty = false := by
  rw [connectorType]
  split
  · rfl
  · split
    · rfl
    · rw [String.isEmpty_eq_false_iff]
      intro hempty
      rw [hempty] at h
      exact absurd h (by decide)

theorem isEmpty_connectorType_read (raw : String) : (read raw).connectorType.isEmpty = false := by
  rw [read]
  split
  · exact isEmpty_connectorType_file _
  · split
    · split
      · rename_i hlong
        exact isEmpty_connectorType_remote hlong
      · exact isEmpty_connectorType_file _
    · exact isEmpty_connectorType_file _

theorem isEmpty_connectorType_withStream {fs : FileSystem} {base : Location} (stream : String)
    (h : base.connectorType.isEmpty = false) :
    (base.withStream fs stream).connectorType.isEmpty = false := by
  cases base with
  | remote url => exact h
  | file path =>
      rw [withStream]
      split <;> exact isEmpty_connectorType_file _

end Location

namespace Registry

variable {r : Registry} {fs : FileSystem}

theorem exists_read_of_resolve {asked : String} {l : Location} (h : r.resolve asked = .ok l) :
    ∃ raw, l = Location.read raw := by
  rw [resolve] at h
  split at h
  · rw [lookup] at h
    split at h
    · cases h
    · split at h
      · cases h
      · rename_i url _
        exact ⟨url, (Except.ok.inj h).symm⟩
  · split at h
    · exact ⟨asked, (Except.ok.inj h).symm⟩
    · cases h

/-- Every end of a run has a connector type. -/
theorem isEmpty_connectorType_of_endpoint {connection stream : Option String} {l : Location}
    (h : r.endpoint fs connection stream = .ok l) : l.connectorType.isEmpty = false := by
  cases connection with
  | none =>
      cases stream with
      | none => cases h
      | some path =>
          rw [← Except.ok.inj h]
          exact Location.isEmpty_connectorType_read path
  | some asked =>
      cases hresolve : r.resolve asked with
      | error f =>
          cases stream <;> simp [endpoint, hresolve, Except.map] at h
      | ok base =>
          obtain ⟨raw, hraw⟩ := exists_read_of_resolve hresolve
          have hbase : base.connectorType.isEmpty = false := by
            rw [hraw]
            exact Location.isEmpty_connectorType_read raw
          cases stream with
          | none =>
              rw [endpoint, hresolve] at h
              rw [← Except.ok.inj h]
              exact hbase
          | some stream =>
              rw [endpoint, hresolve] at h
              rw [← Except.ok.inj h]
              exact Location.isEmpty_connectorType_withStream stream hbase

end Registry

/-! ## Stages -/

namespace Transfer

variable {s : Surroundings} {fs : FileSystem} {o : RunOptions} {source target : Path}

theorem stage_toStdout :
    (toStdout s fs o source).stage = .extract ∨ (toStdout s fs o source).stage = .load := by
  rw [toStdout]
  split
  · exact .inl rfl
  · exact .inr rfl

theorem stage_toFile :
    (toFile s fs o source target).stage = .extract ∨
      (toFile s fs o source target).stage = .load := by
  have hcourse := course_toFile s fs o source target
  generalize toFile s fs o source target = transfer at hcourse
  cases hcourse with
  | copied => exact .inr rfl
  | _ => exact .inl rfl

theorem stage_overNetwork (ends : List Location) : (overNetwork s fs ends).stage = .connect := by
  rw [overNetwork]
  split <;> rfl

/-- A transfer ends in a stage of its own, neither before the first of them nor after the last. -/
theorem stage_ofTask (s : Surroundings) (fs : FileSystem) (t : Task) :
    (ofTask s fs t).stage = .extract ∨ (ofTask s fs t).stage = .load ∨
      (ofTask s fs t).stage = .connect := by
  obtain ⟨o, source, target, _, _, _⟩ := t
  cases source with
  | remote url => exact .inr (.inr (stage_overNetwork _))
  | file source =>
      cases target with
      | stdout =>
          rcases @stage_toStdout s fs o source with h | h
          · exact .inl h
          · exact .inr (.inl h)
      | location l =>
          cases l with
          | remote url => exact .inr (.inr (stage_overNetwork _))
          | file target =>
              rcases @stage_toFile s fs o source target with h | h
              · exact .inl h
              · exact .inr (.inl h)

end Transfer

/-! ## What a run records -/

theorem Mode.isEmpty_name (m : Mode) : m.name.isEmpty = false := by
  cases m <;> rfl

theorem Stage.isEmpty_name (stage : Stage) : stage.name.isEmpty = false := by
  cases stage <;> rfl

namespace Task

variable {r : Registry} {fs : FileSystem} {o : RunOptions}

/-- The mode of a run that has a task is one of the modes. -/
theorem isEmpty_mode_of_checkMode (h : checkMode o = .ok ()) : o.mode.isEmpty = false := by
  rw [checkMode] at h
  split at h
  · cases h
  · rename_i hnamed
    rw [Bool.not_eq_true, Option.isNone_eq_false_iff, Option.isSome_iff_exists] at hnamed
    obtain ⟨m, hm⟩ := hnamed
    have hname := List.find?_some hm
    rw [← eq_of_beq hname]
    exact m.isEmpty_name

theorem isEmpty_kind (t : Task) : t.kind.isEmpty = false := by
  rw [kind]
  cases t.source.family <;> cases t.target.family <;> decide

end Task

namespace Run

variable {s : Surroundings} {r : Registry} {o : RunOptions} {fs : FileSystem}

/-- The two ends that a run is resolved to; a run to standard output has no end to be resolved
there. -/
structure Resolves (r : Registry) (fs : FileSystem) (o : RunOptions) (source : Location)
    (target : Target) : Prop where
  source : r.endpoint fs o.sourceConnection o.sourceStream = .ok source
  target : if o.toStdout then target = .stdout
    else ∃ l, r.endpoint fs o.targetConnection o.targetObject = .ok l ∧ target = .location l

theorem resolves_of_ofOptions {t : Task} (h : Task.ofOptions r fs o = .ok t) :
    Resolves r fs o t.source t.target := by
  obtain ⟨-, -, -, -, hsource, htarget, -⟩ := Task.ofOptions_eq_ok_iff.mp h
  refine ⟨hsource, ?_⟩
  rw [Task.resolveTarget] at htarget
  split
  · rename_i hstdout
    rw [if_pos hstdout] at htarget
    exact (Except.ok.inj htarget).symm
  · rename_i hstdout
    rw [if_neg hstdout] at htarget
    cases hl : r.endpoint fs o.targetConnection o.targetObject with
    | error f =>
        rw [hl] at htarget
        cases htarget
    | ok l =>
        rw [hl] at htarget
        exact ⟨l, rfl, (Except.ok.inj htarget).symm⟩

/-- No text that a run with a task records is empty, so none of them counts as missing. -/
theorem isEmpty_recorded {t : Task} (h : Task.ofOptions r fs o = .ok t) (stage : Stage) :
    ∀ text ∈ [t.source.connectorType, t.target.connectorType, t.options.mode, t.kind, stage.name],
      text.isEmpty = false := by
  obtain ⟨hmode, -, -, -, -, -, hoptions⟩ := Task.ofOptions_eq_ok_iff.mp h
  obtain ⟨hsource, htarget⟩ := resolves_of_ofOptions h
  have htargetType : t.target.connectorType.isEmpty = false := by
    split at htarget
    · rw [htarget]
      rfl
    · obtain ⟨l, hl, htarget⟩ := htarget
      rw [htarget]
      exact Registry.isEmpty_connectorType_of_endpoint hl
  simp only [List.forall_mem_cons, List.not_mem_nil, false_implies, implies_true, and_true]
  refine ⟨Registry.isEmpty_connectorType_of_endpoint hsource, htargetType, ?_, t.isEmpty_kind,
    stage.isEmpty_name⟩
  rw [hoptions]
  exact Task.isEmpty_mode_of_checkMode hmode

/-- A run with a task records the task and the stage that it has entered. -/
theorem records_record (t : Task) (bulkExportFlowCsv : Bool) (stage : Stage) :
    Records ((t.record bulkExportFlowCsv (begun [])).setText "stage" stage.name)
      t.source.connectorType t.target.connectorType t.options.mode t.kind stage.name := by
  constructor <;> rfl

/-- The reports from a context are filed under the two ends that a run is resolved to, also once the
failure itself is on record. -/
def FilesReports (r : Registry) (o : RunOptions) (fs : FileSystem) (ctx : Context) (stage : Stage) :
    Prop :=
  ∃ source target, Resolves r fs o source target ∧
    ∀ (t : Telemetry) (f : Failure) (i : Invocation), i.kind = .dataMovement →
      ∀ ctx' ∈ [ctx, Completion.recorded ctx f],
        Filed (t.report ctx' f i) source.connectorType target.connectorType o.mode
          (source.family.label ++ "-" ++ target.family.label) stage.name

/-- What a run leaves on record when the last stage that it entered is the given one. -/
structure LeavesRecord (r : Registry) (o : RunOptions) (fs : FileSystem) (out : Outcome)
    (stage : Stage) : Prop where
  entered : out.context.text? "stage" = some stage.name
  /-- It succeeds exactly when it is done. -/
  done_iff : out.result = .ok () ↔ stage = .done
  /-- It records what it moved exactly when it succeeds. -/
  stats_iff : out.result = .ok () ↔ out.context.isBound "task_stats" = true
  /-- It has no task exactly while it has not begun. -/
  init_iff : stage = .init ↔
    out.context.isBound "task" = false ∧ out.context.isBound "task_options" = false
  /-- From then on its reports are filed under the ends that it was resolved to. -/
  filed : stage ≠ .init → FilesReports r o fs out.context stage

/-- The reports about a run are filed under the ends of its task. -/
theorem filesReports_of_records {t : Task} (ht : Task.ofOptions r fs o = .ok t) {stage : Stage}
    {ctx : Context}
    (h :
      Records ctx t.source.connectorType t.target.connectorType t.options.mode t.kind stage.name) :
    FilesReports r o fs ctx stage := by
  have htexts := isEmpty_recorded ht stage
  obtain ⟨-, -, -, -, -, -, hoptions⟩ := Task.ofOptions_eq_ok_iff.mp ht
  refine ⟨t.source, t.target, resolves_of_ofOptions ht, ?_⟩
  intro u f i hi ctx' hctx'
  rw [← hoptions]
  rw [List.mem_cons, List.mem_singleton] at hctx'
  rcases hctx' with rfl | rfl
  · exact h.filed htexts u f hi
  · exact (h.recorded f).filed htexts u f hi

/-- A run leaves on record how far it got, in agreement with its result, and what its task was from
the moment it had one. -/
theorem execute_leaves_record (s : Surroundings) (r : Registry) (o : RunOptions) (fs : FileSystem) :
    ∃ stage, LeavesRecord r o fs (execute s r o fs []) stage := by
  cases ht : Task.ofOptions r fs o with
  | error f =>
      -- without a task the run has only begun
      rw [execute_of_no_task ht]
      refine ⟨.init, ?_⟩
      constructor
      · rfl
      · constructor <;> intro h <;> cases h
      · constructor <;> intro h <;> cases h
      · exact ⟨fun _ => ⟨rfl, rfl⟩, fun _ => rfl⟩
      · exact fun h => absurd rfl h
  | ok t =>
      rw [execute_of_task ht]
      generalize htransfer : Transfer.ofTask s fs t = transfer
      cases hresult : transfer.result with
      | error f =>
          -- the stage in which the transfer failed stays on record
          rw [concluded, hresult]
          have hrecords := records_record t s.bulkExportFlowCsv transfer.stage
          have hstages : transfer.stage ≠ .init ∧ transfer.stage ≠ .done := by
            rw [← htransfer]
            rcases Transfer.stage_ofTask s fs t with h | h | h <;> rw [h] <;> decide
          refine ⟨transfer.stage, ?_⟩
          constructor
          · rfl
          · constructor
            · intro h
              cases h
            · exact fun h => absurd h hstages.2
          · constructor <;> intro h <;> cases h
          · constructor
            · exact fun h => absurd h hstages.1
            · intro h
              cases h.1
          · exact fun _ => filesReports_of_records ht hrecords
      | ok stats =>
          -- the statistics come on record last, beside the task and the last stage
          rw [concluded, hresult]
          have hrecords := records_record t s.bulkExportFlowCsv .done
          refine ⟨.done, ?_⟩
          constructor
          · rfl
          · exact ⟨fun _ => rfl, fun _ => rfl⟩
          · exact ⟨fun _ => rfl, fun _ => rfl⟩
          · constructor
            · intro h
              cases h
            · intro h
              cases h.1
          · exact fun _ => filesReports_of_records ht (hrecords.setText "task_stats" _ (by decide))

end Run

end Haulage
