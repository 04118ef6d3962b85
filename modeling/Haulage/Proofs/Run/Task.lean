import Haulage.Run.Transfer

/-!
# Tasks of runs

A run has a task exactly when its mode is known, the keys it needs are given, its inline JSON can be
read and both of its ends are resolved. Without a task nothing is touched.

- `ofOptions_eq_ok_iff`: when a run has a task.
- `ofOptions_congr`: what a task depends on among the files.
- `resolveTarget_of_endpoint`: the target of a run that does not write to standard output.
- `execute_of_task`, `execute_of_no_task`: what a run does about its task.
- `execute_between_files`: a run whose two ends are files.
-/

set_option autoImplicit false

namespace Haulage

theorem Attempt.during_eq_ok_iff {α : Type} {a : Attempt α} {activity : Activity} {x : α} :
    a.during activity = .ok x ↔ a = .ok x := by
  cases a with
  | ok y => rfl
  | error f => simp [Attempt.during]

namespace Task

/-- A run has a task when each of its options can be read. -/
theorem ofOptions_eq_ok_iff {r : Registry} {fs : FileSystem} {o : RunOptions} {t : Task} :
    ofOptions r fs o = .ok t ↔
      checkMode o = .ok () ∧
        readInline "--src-options" o.sourceOptions = .ok t.sourceOptions ∧
        readInline "--tgt-options" o.targetOptions = .ok t.targetOptions ∧
        readInline "--env" o.environment = .ok t.environment ∧
        r.endpoint fs o.sourceConnection o.sourceStream = .ok t.source ∧
        resolveTarget r fs o = .ok t.target ∧ t.options = o := by
  rw [ofOptions]
  constructor
  · intro h
    -- the checks in their order; a run that has a task has passed each of them
    split at h
    · cases h
    · rename_i hmode
      split at h
      · cases h
      · rename_i src hsrc
        split at h
        · cases h
        · rename_i tgt htgt
          split at h
          · cases h
          · rename_i env henv
            split at h
            · cases h
            · rename_i source hsource
              rw [Attempt.during_eq_ok_iff] at hsource
              cases htarget : resolveTarget r fs o with
              | error f =>
                  rw [htarget] at h
                  cases h
              | ok target =>
                  rw [htarget] at h
                  cases h
                  exact ⟨hmode, hsrc, htgt, henv, hsource, rfl, rfl⟩
  · rintro ⟨hmode, hsrc, htgt, henv, hsource, htarget, rfl⟩
    rw [hmode, hsrc, htgt, henv, hsource, htarget]
    rfl

/-- Of the files only the directories count for a task. -/
theorem ofOptions_congr {r : Registry} {fs fs' : FileSystem}
    (h : ∀ p, fs'.hasDirectory p = fs.hasDirectory p) (o : RunOptions) :
    ofOptions r fs' o = ofOptions r fs o := by
  have hstream : ∀ base stream, Location.withStream fs' base stream =
      Location.withStream fs base stream := by
    intro base stream
    cases base with
    | remote url => rfl
    | file path => simp only [Location.withStream, h]
  have hendpoint : ∀ connection stream, r.endpoint fs' connection stream =
      r.endpoint fs connection stream := by
    intro connection stream
    cases connection <;> cases stream <;> simp only [Registry.endpoint, hstream]
  simp only [ofOptions, resolveTarget, hendpoint]

/-- A target that is no standard output is an end of the run. -/
theorem resolveTarget_of_endpoint {r : Registry} {fs : FileSystem} {o : RunOptions} {l : Location}
    (hstdout : o.toStdout = false)
    (hl : r.endpoint fs o.targetConnection o.targetObject = .ok l) :
    resolveTarget r fs o = .ok (.location l) := by
  rw [resolveTarget, hstdout, hl]
  rfl

/-- A run between two ends that asks for nothing inline has a task. -/
theorem ofOptions_of_endpoints {r : Registry} {fs : FileSystem} {o : RunOptions}
    {source target : Location} (hmode : checkMode o = .ok ())
    (hinline : o.sourceOptions = none ∧ o.targetOptions = none ∧ o.environment = none)
    (hsource : r.endpoint fs o.sourceConnection o.sourceStream = .ok source)
    (hstdout : o.toStdout = false)
    (htarget : r.endpoint fs o.targetConnection o.targetObject = .ok target) :
    ofOptions r fs o = .ok ⟨o, source, .location target, .null, .null, .null⟩ := by
  obtain ⟨hsourceOptions, htargetOptions, henvironment⟩ := hinline
  rw [ofOptions_eq_ok_iff, hsourceOptions, htargetOptions, henvironment]
  exact ⟨hmode, rfl, rfl, rfl, hsource, resolveTarget_of_endpoint hstdout htarget, rfl⟩

end Task

/-! ## Runs that ask for little -/

/-- Surroundings without a network in which nothing is cancelled or shown. -/
def Surroundings.quiet : Surroundings :=
  ⟨Network.isolated, none, false, false, ⟨0⟩⟩

/-- The options of a run from one path to another. -/
def RunOptions.between (source target : String) (mode : Mode) : RunOptions :=
  { sourceConnection := none
    sourceStream := some source
    sourceOptions := none
    targetConnection := none
    targetObject := some target
    targetOptions := none
    selection := none
    streams := none
    toStdout := false
    environment := none
    mode := mode.name
    limit := none
    primaryKey := none
    updateKey := none
    debug := false }

/-- Without a connection the end of a run is what its path says. -/
theorem Registry.endpoint_path {r : Registry} {fs : FileSystem} {path : String} {l : Location}
    (h : Location.read path = l) : r.endpoint fs none (some path) = .ok l :=
  congrArg Except.ok h

namespace Run

variable {s : Surroundings} {r : Registry} {o : RunOptions} {fs : FileSystem} {ctx : Context}

theorem execute_of_no_task {f : Failure} (h : Task.ofOptions r fs o = .error f) :
    execute s r o fs ctx = ⟨fs, begun ctx, [], .error f⟩ := by
  rw [execute, h]

theorem execute_of_task {t : Task} (h : Task.ofOptions r fs o = .ok t) :
    execute s r o fs ctx =
      concluded s.elapsed (.ofTask s fs t) (t.record s.bulkExportFlowCsv (begun ctx)) := by
  rw [execute, h]

theorem files_concluded (elapsed : Duration) (t : Transfer) (ctx : Context) :
    (concluded elapsed t ctx).files = t.files := by
  rw [concluded]
  split <;> rfl

theorem result_concluded_eq_ok_iff {elapsed : Duration} {t : Transfer} {ctx : Context} :
    (concluded elapsed t ctx).result = .ok () ↔ ∃ stats, t.result = .ok stats := by
  rw [concluded]
  split
  · rename_i f hf
    simp [hf]
  · rename_i stats hstats
    simp [hstats]

/-- The outcome of a run whose transfer succeeds. -/
theorem concluded_of_ok {elapsed : Duration} {t : Transfer} {ctx : Context} {stats : RunStats}
    (h : t.result = .ok stats) :
    concluded elapsed t ctx =
      { files := t.files
        context :=
          (ctx.setText "stage" Stage.done.name).setText "task_stats"
            (statsValue stats elapsed).compact
        outputs := t.outputs ++ [.stderr (closingLine stats elapsed)]
        result := .ok () } := by
  rw [concluded, h]

/-- A run whose ends are files has no task and touches nothing, or carries out a transfer
between the two. -/
theorem execute_between_files {source target : Path}
    (hsource : r.endpoint fs o.sourceConnection o.sourceStream = .ok (.file source))
    (hstdout : o.toStdout = false)
    (htarget : r.endpoint fs o.targetConnection o.targetObject = .ok (.file target)) :
    (∃ f, Task.ofOptions r fs o = .error f ∧
        execute s r o fs ctx = ⟨fs, begun ctx, [], .error f⟩) ∨
      ∃ t, Task.ofOptions r fs o = .ok t ∧ t.source = .file source ∧
        execute s r o fs ctx =
          concluded s.elapsed (Transfer.toFile s fs o source target)
            (t.record s.bulkExportFlowCsv (begun ctx)) := by
  cases ht : Task.ofOptions r fs o with
  | error f => exact .inl ⟨f, rfl, execute_of_no_task ht⟩
  | ok t =>
      obtain ⟨-, -, -, -, hsource', htarget', hoptions⟩ := Task.ofOptions_eq_ok_iff.mp ht
      rw [hsource, Except.ok.injEq] at hsource'
      rw [Task.resolveTarget_of_endpoint hstdout htarget, Except.ok.injEq] at htarget'
      refine .inr ⟨t, rfl, hsource'.symm, ?_⟩
      rw [execute_of_task ht, Transfer.ofTask, ← hsource', ← htarget', hoptions]

end Run

end Haulage
