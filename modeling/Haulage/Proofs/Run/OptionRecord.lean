import Haulage.Proofs.Json.Nesting
import Haulage.Proofs.Run.FileEnds
import Haulage.Proofs.Telemetry.Expansion

/-!
# The options that a run records

A run records what it was asked for as a text, with the inline values of its two ends one level
down. A report shows that text as an object and the options in it as they were given, if both inline
values nest less deep than the reader allows. An inline value of just that depth is taken by the
reader, but what is recorded with it is refused: the report then shows the text.

- `isRegular_optionSummary`, `depth_optionSummary`: what is recorded can be read back, depth
  permitting.
- `exists_givesOptions_of_alike`: what is read back gives the options.
- `showsRecord_execute`: how a report shows the options of a run.
-/

set_option autoImplicit false

namespace Haulage

open Haulage.Json Haulage.Numeric

/-! ## Inline values -/

theorem readable_of_readInline {flag : String} {raw : Option String} {v : Value}
    (h : readInline flag raw = .ok v) : v.Readable deepest := by
  cases raw with
  | none => exact Except.ok.inj h ▸ .null _
  | some text =>
      rw [readInline] at h
      split at h
      · rename_i w hread
        exact Except.ok.inj h ▸ readable_of_read hread
      · cases h

/-- A text of less than 2^63 characters gives no more members than a word can count. -/
theorem length_le_of_readInline {flag : String} {raw : Option String} {members : Members}
    (h : readInline flag raw = .ok (.object members))
    (hsize : ∀ text, raw = some text → text.length < 2 ^ 63) : members.length ≤ largestWord := by
  cases raw with
  | none => cases h
  | some text =>
      have hlength : members.length ≤ 2 * text.length := by
        rw [readInline] at h
        split at h
        · rename_i w hread
          exact length_le_of_read (hread.trans (congrArg Except.ok (Except.ok.inj h)))
        · cases h
      have htext := hsize text rfl
      have hword : 2 * 2 ^ 63 - 2 ≤ largestWord := by decide
      omega

/-! ## What is recorded -/

/-- A limit, or null without one. -/
def RunOptions.limitValue (o : RunOptions) : Value :=
  match o.limit with
  | none => .null
  | some n => .ofNat n.toNat

theorem isRegular_ofNat {n : Nat} (h : n ≤ largestWord) : (Value.ofNat n).IsRegular := by
  refine .number ⟨?_, by exact_mod_cast h⟩
  omega

theorem isRegular_limitValue (o : RunOptions) : o.limitValue.IsRegular := by
  rw [RunOptions.limitValue]
  split
  · exact .null
  · rename_i n _
    exact isRegular_ofNat (Nat.le_pred_of_lt n.toNat_lt)

theorem isRegular_ofOption (text : Option String) : (Value.ofOption text).IsRegular := by
  cases text with
  | none => exact .null
  | some s => exact .string s

theorem depth_limitValue (o : RunOptions) : o.limitValue.depth = 0 := by
  rw [RunOptions.limitValue]
  split <;> rfl

theorem depth_ofOption (text : Option String) : (Value.ofOption text).depth = 0 := by
  cases text <;> rfl

namespace Task

variable {r : Registry} {fs : FileSystem} {o : RunOptions} {t : Task}

/-- What a run records of its options, member by member. -/
def optionMembers (t : Task) (bulk : Bool) : Members :=
  [("limit", t.options.limitValue), ("select", .ofOption t.options.selection),
    ("streams", .ofOption t.options.streams), ("primary_key", .ofOption t.options.primaryKey),
    ("update_key", .ofOption t.options.updateKey), ("stdout", .bool t.options.toStdout),
    ("src_options", t.sourceOptions), ("tgt_options", t.targetOptions),
    ("env_keys", .ofNat ((t.environment.members?.map List.length).getD 0)),
    ("bulk_export_flow_csv", .bool bulk)]

theorem optionSummary_eq (t : Task) (bulk : Bool) :
    t.optionSummary bulk = .object (t.optionMembers bulk) := by
  rw [optionSummary, optionMembers, RunOptions.limitValue]
  cases t.options.limit <;> rfl

theorem distinct_optionMembers (t : Task) (bulk : Bool) : (t.optionMembers bulk).Distinct := by
  have hkeys : (t.optionMembers bulk).keys =
      ["limit", "select", "streams", "primary_key", "update_key", "stdout", "src_options",
        "tgt_options", "env_keys", "bulk_export_flow_csv"] := rfl
  rw [Members.Distinct, hkeys]
  decide

/-- It can have been read. -/
theorem isRegular_optionSummary (ht : ofOptions r fs o = .ok t)
    (hsize : ∀ text, o.environment = some text → text.length < 2 ^ 63) (bulk : Bool) :
    (t.optionSummary bulk).IsRegular := by
  obtain ⟨-, hsource, htarget, henvironment, -, -, -⟩ := ofOptions_eq_ok_iff.mp ht
  have hcount : (Value.ofNat ((t.environment.members?.map List.length).getD 0)).IsRegular := by
    refine isRegular_ofNat ?_
    cases hvalue : t.environment with
    | object members =>
        rw [hvalue] at henvironment
        exact length_le_of_readInline henvironment hsize
    | _ => exact Nat.zero_le _
  rw [optionSummary_eq]
  refine .object (distinct_optionMembers t bulk) ?_
  simp only [optionMembers, List.forall_mem_cons, List.not_mem_nil, false_implies, implies_true,
    and_true]
  exact ⟨isRegular_limitValue _, isRegular_ofOption _, isRegular_ofOption _, isRegular_ofOption _,
    isRegular_ofOption _, .bool _, (readable_of_readInline hsource).isRegular,
    (readable_of_readInline htarget).isRegular, hcount, .bool _⟩

/-- The inline values of both ends stand in it one level down. -/
theorem depth_optionSummary (t : Task) (bulk : Bool) :
    (t.optionSummary bulk).depth = max t.sourceOptions.depth t.targetOptions.depth + 1 := by
  rw [optionSummary_eq]
  simp [optionMembers, Value.depth, Value.membersDepth, depth_limitValue, depth_ofOption,
    Value.ofNat]

end Task

/-! ## What is shown -/

/-- An object that gives the options of a run as the run was given them. -/
structure GivesOptions (o : RunOptions) (members : Members) : Prop where
  limit : members.get? "limit" = some o.limitValue
  select : members.get? "select" = some (.ofOption o.selection)
  streams : members.get? "streams" = some (.ofOption o.streams)
  primary_key : members.get? "primary_key" = some (.ofOption o.primaryKey)
  update_key : members.get? "update_key" = some (.ofOption o.updateKey)
  stdout : members.get? "stdout" = some (.bool o.toStdout)

/-- What is like the record of a task is an object that gives its options. -/
theorem exists_givesOptions_of_alike {t : Task} {bulk : Bool} {w : Value}
    (h : (t.optionSummary bulk).Alike w) :
    ∃ members, w = .object members ∧ GivesOptions t.options members := by
  rw [Task.optionSummary_eq] at h
  cases h with
  | @object _ members hmembers =>
      -- only a real number or a nested value can differ from what was recorded
      have hexact : ∀ key v, v.depth = 0 → (∀ x, v ≠ .number (.real x)) →
          (t.optionMembers bulk).get? key = some v → Members.get? members key = some v := by
        intro key v hflat hreal hv
        obtain ⟨w, hw, halike⟩ := hmembers.get? hv
        rw [hw, halike.eq_of_exact hflat hreal]
      have hoption : ∀ text x, Value.ofOption text ≠ .number (.real x) := by
        intro text x
        cases text <;> exact nofun
      have hlimit : ∀ x, t.options.limitValue ≠ .number (.real x) := by
        intro x
        rw [RunOptions.limitValue]
        split <;> exact nofun
      refine ⟨members, rfl, ?_, ?_, ?_, ?_, ?_, ?_⟩
      · exact hexact "limit" _ (depth_limitValue _) hlimit rfl
      · exact hexact "select" _ (depth_ofOption _) (hoption _) rfl
      · exact hexact "streams" _ (depth_ofOption _) (hoption _) rfl
      · exact hexact "primary_key" _ (depth_ofOption _) (hoption _) rfl
      · exact hexact "update_key" _ (depth_ofOption _) (hoption _) rfl
      · exact hexact "stdout" _ rfl nofun rfl

namespace Run

variable {r : Registry} {fs : FileSystem} {o : RunOptions} {t : Task} {ctx : Context} {bulk : Bool}

/-- Neither inline value of a task nests as deep as the reader allows. -/
def IsShallow (t : Task) : Prop :=
  t.sourceOptions.depth < deepest ∧ t.targetOptions.depth < deepest

/-- How the record of a task is shown: as an object that gives the options, or as the text it is. -/
structure ShowsRecord (t : Task) (bulk : Bool) (shown : Option Value) : Prop where
  object_iff : (∃ members, shown = some (.object members)) ↔ IsShallow t
  options : ∀ members, shown = some (.object members) → GivesOptions t.options members
  text : ¬ IsShallow t → shown = some (.string (t.optionSummary bulk).compact)

/-- An inline value that is not shallow nests just as deep as the reader allows. -/
theorem isShallow_or (ht : Task.ofOptions r fs o = .ok t) :
    IsShallow t ∨ t.sourceOptions.depth = deepest ∨ t.targetOptions.depth = deepest := by
  obtain ⟨-, hsource, htarget, -, -, -, -⟩ := Task.ofOptions_eq_ok_iff.mp ht
  have hsource := (readable_of_readInline hsource).depth_le
  have htarget := (readable_of_readInline htarget).depth_le
  rw [IsShallow]
  omega

theorem depth_optionSummary_le_iff (t : Task) (bulk : Bool) :
    (t.optionSummary bulk).depth ≤ deepest ↔ IsShallow t := by
  rw [t.depth_optionSummary bulk, IsShallow]
  omega

/-- The record of a task holds an object exactly when both inline values are shallow. -/
theorem holdsObject_iff (h : (t.optionSummary bulk).IsRegular) :
    (∃ members, Context.HoldsObject (some (.string (t.optionSummary bulk).compact)) members) ↔
      IsShallow t := by
  rw [← depth_optionSummary_le_iff t bulk, ← read_compact_iff h]
  constructor
  · rintro ⟨members, text, htext, hread⟩
    obtain rfl := Value.string.inj (Option.some.inj htext)
    exact ⟨_, hread⟩
  · rintro ⟨w, hread⟩
    obtain ⟨members, rfl, -⟩ := exists_givesOptions_of_alike (alike_of_read_compact h hread)
    exact ⟨members, _, rfl, hread⟩

/-- A context that records a task shows it. -/
theorem showsRecord_expand (h : (t.optionSummary bulk).IsRegular)
    (hentry : Members.get? ctx "task_options" = some (.string (t.optionSummary bulk).compact)) :
    ShowsRecord t bulk (Members.get? ctx.expand "task_options") := by
  have hkey : "task_options" ∈ Context.nestedKeys := by decide
  have hholds := holdsObject_iff h
  rw [← hentry] at hholds
  have htext : ¬ IsShallow t →
      Members.get? ctx.expand "task_options" = some (.string (t.optionSummary bulk).compact) := by
    intro hdeep
    rw [← hholds, not_exists] at hdeep
    rw [Context.get?_expand_of_no_object hdeep, hentry]
  have hobject : (∃ members, Members.get? ctx.expand "task_options" = some (.object members)) ↔
      IsShallow t := by
    constructor
    · rintro ⟨members, hmembers⟩
      by_contra hdeep
      rw [htext hdeep] at hmembers
      cases hmembers
    · intro hshallow
      obtain ⟨members, hmembers⟩ := hholds.mpr hshallow
      exact ⟨members, Context.get?_expand_of_holdsObject hkey hmembers⟩
  refine ⟨hobject, ?_, htext⟩
  intro members hmembers
  -- the object shown is the one that was read from the text, and so like the recorded one
  obtain ⟨read, hread⟩ := hholds.mpr (hobject.mp ⟨members, hmembers⟩)
  rw [Context.get?_expand_of_holdsObject hkey hread, Option.some.injEq] at hmembers
  obtain rfl := Value.object.inj hmembers
  rw [hentry] at hread
  obtain ⟨text, htext, hread⟩ := hread
  obtain rfl := Value.string.inj (Option.some.inj htext)
  obtain ⟨given, hgiven, hgives⟩ := exists_givesOptions_of_alike (alike_of_read_compact h hread)
  exact Value.object.inj hgiven ▸ hgives

/-! ## Runs -/

/-- A run with a task has its options on record when it ends, however it ends. -/
theorem get?_taskOptions_execute (s : Surroundings) (ctx : Context)
    (ht : Task.ofOptions r fs o = .ok t) :
    Members.get? (execute s r o fs ctx).context "task_options" =
      some (.string (t.optionSummary s.bulkExportFlowCsv).compact) := by
  have hrecord : Members.get? (t.record s.bulkExportFlowCsv (begun ctx)) "task_options" =
      some (.string (t.optionSummary s.bulkExportFlowCsv).compact) := by
    rw [Task.record, Context.setText, Members.get?_set, if_pos rfl]
  rw [execute_of_task ht, concluded]
  split
  · rw [Context.setText, Members.get?_set, if_neg (by decide), hrecord]
  · rw [Context.setText, Members.get?_set, if_neg (by decide), Context.setText, Members.get?_set,
      if_neg (by decide), hrecord]

/-- So it has once its failure is recorded. -/
theorem get?_taskOptions_recorded (f : Failure) :
    Members.get? (Completion.recorded ctx f) "task_options" = Members.get? ctx "task_options" := by
  rw [Completion.recorded]
  split
  · rfl
  · rw [Context.setText, Members.get?_set, if_neg (by decide)]

/-- A report shows the options of a run as they were given unless an inline value nests just as deep
as the reader allows. Then it shows the text that records them. The names in the inline environment
are counted, and must be no more than a word can count. -/
theorem showsRecord_execute (s : Surroundings) (ctx : Context) (f : Failure)
    (ht : Task.ofOptions r fs o = .ok t)
    (hsize : ∀ text, o.environment = some text → text.length < 2 ^ 63) :
    t.options = o ∧
      (IsShallow t ∨ t.sourceOptions.depth = deepest ∨ t.targetOptions.depth = deepest) ∧
      ShowsRecord t s.bulkExportFlowCsv
        (Members.get? (execute s r o fs ctx).context.expand "task_options") ∧
      ShowsRecord t s.bulkExportFlowCsv
        (Members.get? (Completion.recorded (execute s r o fs ctx).context f).expand
          "task_options") := by
  have hregular := Task.isRegular_optionSummary ht hsize s.bulkExportFlowCsv
  have hentry := get?_taskOptions_execute s ctx ht
  refine ⟨(Task.ofOptions_eq_ok_iff.mp ht).2.2.2.2.2.2, isShallow_or ht,
    showsRecord_expand hregular hentry, ?_⟩
  exact showsRecord_expand hregular ((get?_taskOptions_recorded f).trans hentry)

/-- A run with an inline value for its source. -/
def askingRun (value : String) : RunOptions :=
  { RunOptions.between "in.csv" "out.csv" .fullRefresh with
    sourceOptions := some value
    selection := some "id,\"name\""
    environment := some "\x7b\"TZ\":1\x7d"
    limit := some 10 }

theorem length_environment_askingRun (value : String) :
    ∀ text, (askingRun value).environment = some text → text.length < 2 ^ 63 := by
  rintro text htext
  obtain rfl := Option.some.inj htext
  decide +kernel

/-- Such a run has a task when its inline value can be read. -/
theorem exists_task_askingRun {text : String} {v : Value} (h : Json.read text = .ok v) :
    ∃ t, Task.ofOptions .empty pointedFiles (askingRun text) = .ok t ∧ t.sourceOptions = v ∧
      t.targetOptions = .null := by
  have hsource : Location.read "in.csv" = .file ⟨"in.csv"⟩ := by decide +kernel
  have htarget : Location.read "out.csv" = .file ⟨"out.csv"⟩ := by decide +kernel
  have hread : readInline "--src-options" (some text) = .ok v := by rw [readInline, h]
  have henvironment : (readInline "--env" (some "\x7b\"TZ\":1\x7d")).isOk = true := by
    decide +kernel
  cases hnames : readInline "--env" (some "\x7b\"TZ\":1\x7d") with
  | error f =>
      rw [hnames] at henvironment
      cases henvironment
  | ok names =>
      refine ⟨⟨askingRun text, .file ⟨"in.csv"⟩, .location (.file ⟨"out.csv"⟩), v, .null, names⟩,
        ?_, rfl, rfl⟩
      rw [Task.ofOptions_eq_ok_iff]
      exact ⟨rfl, hread, rfl, hnames, Registry.endpoint_path hsource,
        Task.resolveTarget_of_endpoint rfl (Registry.endpoint_path htarget), rfl⟩

/-- An inline value that nests twice is shown with the other options. -/
theorem exists_givesOptions_askingRun :
    ∃ t, Task.ofOptions .empty pointedFiles (askingRun "\x7b\"a\":[1,0.5]\x7d") = .ok t ∧
      IsShallow t ∧
      ∃ members,
        Members.get? (execute .quiet .empty (askingRun "\x7b\"a\":[1,0.5]\x7d") pointedFiles
          []).context.expand "task_options" = some (.object members) ∧
        GivesOptions (askingRun "\x7b\"a\":[1,0.5]\x7d") members := by
  have hdepth : (Json.read "\x7b\"a\":[1,0.5]\x7d").toOption.map Value.depth = some 2 := by
    decide +kernel
  cases hread : Json.read "\x7b\"a\":[1,0.5]\x7d" with
  | error flaw =>
      rw [hread] at hdepth
      cases hdepth
  | ok v =>
      rw [hread] at hdepth
      have hv : v.depth = 2 := Option.some.inj hdepth
      obtain ⟨t, ht, rfl, htarget⟩ := exists_task_askingRun hread
      have hshallow : IsShallow t := by
        rw [IsShallow, hv, htarget]
        decide
      obtain ⟨hoptions, -, hshown, -⟩ :=
        showsRecord_execute .quiet [] (.of (.text "")) ht (length_environment_askingRun _)
      obtain ⟨members, hmembers⟩ := hshown.object_iff.mpr hshallow
      exact ⟨t, ht, hshallow, members, hmembers, hoptions ▸ hshown.options members hmembers⟩

/-- As many brackets as the reader allows to nest. -/
def deepestBrackets : String :=
  String.ofList (List.replicate deepest '[' ++ List.replicate deepest ']')

theorem depth_deepestBrackets :
    (Json.read deepestBrackets).toOption.map Value.depth = some deepest := by
  rw [Json.read, Cursor.start, deepestBrackets, String.toList_ofList]
  decide +kernel

/-- An inline value that nests so deep is taken, and a report shows the text that records it. -/
theorem exists_text_askingRun :
    ∃ t, Task.ofOptions .empty pointedFiles (askingRun deepestBrackets) = .ok t ∧
      ∃ text, Members.get? (execute .quiet .empty (askingRun deepestBrackets) pointedFiles
        []).context.expand "task_options" = some (.string text) := by
  have hdepth := depth_deepestBrackets
  cases hread : Json.read deepestBrackets with
  | error flaw =>
      rw [hread] at hdepth
      cases hdepth
  | ok v =>
      rw [hread] at hdepth
      have hv : v.depth = deepest := Option.some.inj hdepth
      obtain ⟨t, ht, rfl, -⟩ := exists_task_askingRun hread
      have hdeep : ¬ IsShallow t := fun hshallow => hshallow.1.ne hv
      have hregular := Task.isRegular_optionSummary ht (length_environment_askingRun _)
        Surroundings.quiet.bulkExportFlowCsv
      have hentry := get?_taskOptions_execute .quiet [] ht
      exact ⟨t, ht, _, (showsRecord_expand hregular hentry).text hdeep⟩

end Run

end Haulage
