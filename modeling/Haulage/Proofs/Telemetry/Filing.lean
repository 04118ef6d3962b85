import Haulage.Completion
import Haulage.Proofs.Json.Texts

/-!
# How the failure of a run is filed

A run records its task as a text that holds an object, and the report of its failure reads that text
again. What was recorded is what the report is filed under: the tags are the recorded texts, and
none of them falls back to what stands for the unknown.

- `get?_expand`: an entry that is nested is read, and every other entry stays as it is.
- `Records.filed`: a report is filed under what the context records.
- `Records.recorded`: this is so once the failure is recorded, too.
-/

set_option autoImplicit false

namespace Haulage

open Haulage.Json

/-! ## Nested entries -/

namespace Context

/-- What an entry is shown as when it is nested. -/
def shown (v : Value) : Value :=
  (nestedObject? v).getD v

theorem get?_expandKey (ctx : Context) (key other : String) :
    Members.get? (expandKey ctx key) other =
      if key = other then (Members.get? ctx other).map shown else Members.get? ctx other := by
  rw [expandKey]
  cases hentry : Members.get? ctx key with
  | none =>
      by_cases h : key = other
      · subst h
        simp [hentry]
      · simp [h]
  | some v =>
      cases hnested : nestedObject? v with
      | none =>
          by_cases h : key = other
          · subst h
            simp [hentry, shown, hnested]
          · simp [h, hnested]
      | some object =>
          simp only [Option.bind_some, hnested, Members.get?_set]
          by_cases h : key = other
          · subst h
            simp [hentry, shown, hnested]
          · simp [h]

theorem get?_foldl_expandKey {keys : List String} (hkeys : keys.Nodup) (ctx : Context)
    (key : String) :
    Members.get? (keys.foldl expandKey ctx) key =
      if key ∈ keys then (Members.get? ctx key).map shown else Members.get? ctx key := by
  induction keys generalizing ctx with
  | nil => simp
  | cons k more ih =>
      obtain ⟨hk, hmore⟩ := List.nodup_cons.mp hkeys
      rw [List.foldl_cons, ih hmore, get?_expandKey]
      by_cases h : k = key
      · subst h
        simp [hk]
      · have hne : ¬key = k := fun e => h e.symm
        simp [h, hne]

/-- An entry that is nested is read, and every other entry stays as it is. -/
theorem get?_expand (ctx : Context) (key : String) :
    Members.get? ctx.expand key =
      if key ∈ nestedKeys then (Members.get? ctx key).map shown else Members.get? ctx key :=
  get?_foldl_expandKey (by decide) ctx key

/-- An object of texts is shown as that object. -/
theorem shown_compact_texts (entries : List (String × String)) :
    shown (.string (Value.object (textMembers entries)).compact) =
      .object (Members.update [] (textMembers entries)) := by
  rw [shown, nestedObject?, read_compact_texts]
  rfl

end Context

/-! ## Tags -/

theorem tagText?_string {s : String} (h : s.isEmpty = false) :
    tagText? (some (.string s)) = some s := by
  rw [tagText?, h]
  rfl

/-- A tag that is added has its value, and every other tag keeps the one it had. -/
theorem Tags.get?_insertSome (tags : Tags) (key : String) (value : Option String) (other : String) :
    (tags.insertSome key value).get? other =
      if key = other then value.or (tags.get? other) else tags.get? other := by
  cases value with
  | none => simp [insertSome]
  | some v => simp [insertSome, SortedMap.get?_insert]

/-! ## Reports of runs -/

/-- What the failure of a run is filed under. -/
structure Filed (e : DiagnosticEvent) (source target mode kind stage : String) : Prop where
  source_type : e.tags.get? "source_type" = some source
  target_type : e.tags.get? "target_type" = some target
  mode : e.tags.get? "mode" = some mode
  type : e.tags.get? "type" = some kind
  stage : e.tags.get? "stage" = some stage
  run_mode : e.tags.get? "run_mode" = some "task"
  transaction : e.transaction = source ++ " - " ++ target

/-- A context that records a run: its task as a text, how far it has got, and that it is one. -/
structure Records (ctx : Context) (source target mode kind stage : String) : Prop where
  task : Members.get? ctx "task" =
    some (.string (Value.object (textMembers
      [("source_type", source), ("target_type", target), ("mode", mode), ("type", kind)])).compact)
  stage : Members.get? ctx "stage" = some (.string stage)
  run_mode : Members.get? ctx "run_mode" = some (.string "task")

namespace Records

variable {ctx : Context} {source target mode kind stage : String}

/-- The task is read from the text that records it. -/
theorem taskOf_expand (h : Records ctx source target mode kind stage) :
    Classification.taskOf ctx.expand =
      textMembers
        [("source_type", source), ("target_type", target), ("mode", mode), ("type", kind)] := by
  rw [Classification.taskOf, Context.get?_expand, if_pos (by decide), h.task, Option.map_some,
    Context.shown_compact_texts]
  rfl

/-- The classification of a run, entry by entry; only the task among them is nested. -/
theorem ofRun_expand (h : Records ctx source target mode kind stage)
    (hnonempty : ∀ s ∈ [source, target, mode, kind, stage], s.isEmpty = false) (s : Settings) :
    Classification.ofRun s ctx.expand =
      ⟨source ++ " - " ++ target,
        Tags.insertSome
          (((((((SortedMap.empty.insert "source_type" source).insert "target_type" target).insert
            "stage" stage).insert "run_mode" "task").insert "mode" mode).insert "type" kind).insert
              "package" s.packageName) "project_id" s.projectId⟩ := by
  have htag : ∀ s ∈ [source, target, mode, kind, stage], tagText? (some (.string s)) = some s :=
    fun s hs => tagText?_string (hnonempty s hs)
  have hsource := htag source (by simp)
  have htarget := htag target (by simp)
  have hmode := htag mode (by simp)
  have hkind := htag kind (by simp)
  have htaskTag : tagText? (some (.string "task")) = some "task" := rfl
  have hstage : Members.get? ctx.expand "stage" = some (.string stage) := by
    rw [Context.get?_expand, if_neg (by decide), h.stage]
  have hrunMode : Members.get? ctx.expand "run_mode" = some (.string "task") := by
    rw [Context.get?_expand, if_neg (by decide), h.run_mode]
  simp only [Classification.ofRun, h.taskOf_expand, hstage, hrunMode, htag stage (by simp),
    htaskTag]
  simp only [textMembers, List.map_cons, List.map_nil, Classification.required, Members.get?_cons,
    String.reduceEq, if_false, if_true, hsource, htarget, hmode, hkind, Option.getD_some]
  rfl

/-- A report is filed under what the context records. -/
theorem filed (h : Records ctx source target mode kind stage)
    (hnonempty : ∀ s ∈ [source, target, mode, kind, stage], s.isEmpty = false)
    (t : Telemetry) (f : Failure) {i : Invocation} (hi : i.kind = .dataMovement) :
    Filed (t.report ctx f i) source target mode kind stage := by
  have hof : Classification.of t.settings i.kind ctx.expand =
      Classification.ofRun t.settings ctx.expand := by
    rw [hi, Classification.of]
  constructor <;>
    simp [Telemetry.report, hof, h.ofRun_expand hnonempty, Tags.get?_insertSome,
      SortedMap.get?_insert]

/-- Further entries leave the records of the run alone. -/
theorem setText (h : Records ctx source target mode kind stage) (key value : String)
    (hkey : key ∉ ["task", "stage", "run_mode"]) :
    Records (ctx.setText key value) source target mode kind stage := by
  simp only [List.mem_cons, List.not_mem_nil, or_false, not_or] at hkey
  obtain ⟨htask, hstage, hrunMode⟩ := hkey
  constructor
  · rw [Context.setText, Members.get?_set, if_neg htask, h.task]
  · rw [Context.setText, Members.get?_set, if_neg hstage, h.stage]
  · rw [Context.setText, Members.get?_set, if_neg hrunMode, h.run_mode]

/-- So does the failure of the run. -/
theorem recorded (h : Records ctx source target mode kind stage) (f : Failure) :
    Records (Completion.recorded ctx f) source target mode kind stage := by
  rw [Completion.recorded]
  split
  · exact h
  · exact h.setText _ _ (by decide)

end Records

end Haulage
