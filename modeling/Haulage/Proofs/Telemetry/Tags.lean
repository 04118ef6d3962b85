import Haulage.Proofs.Numeric.Digits
import Haulage.Proofs.Telemetry.Filing

/-!
# The tags of a report

The tags of a report and its transaction are fixed by the kind of command, the telemetry context and
the settings. A connection command has two tags. A run has tags for its two ends and its package,
and four more for what the context and its task say, each if there is something to say. No other tag
is there, and none is empty.

- `isSome_tagText?_iff`, `tagText?_ne_empty`: which values give a tag, and that none
  gives an empty one.
- `taskOf_expand`: the task that a report reads.
- `taggedAsConnection_report`, `taggedAsRun_report`: the tags of the two kinds of commands.
- `report_is_tagged`: the tags of every report.
-/

set_option autoImplicit false

namespace Haulage

open Haulage.Json Haulage.Numeric Haulage.Text

/-! ## Texts of values -/

theorem Json.realChars_ne_nil (d : ShortDecimal) : realChars d ≠ [] := by
  rw [realChars]
  dsimp only
  split
  · simp
  · split
    · simp
    · split <;> simp

theorem Json.Number.chars_ne_nil (n : Number) : n.chars ≠ [] := by
  cases n with
  | integer i =>
      rw [chars]
      split
      · exact List.cons_ne_nil _ _
      · exact decimalChars_ne_nil _
  | real x =>
      cases x with
      | finite negative units =>
          rw [chars]
          split
          · exact List.cons_ne_nil _ _
          · split
            · exact List.cons_ne_nil _ _
            · exact realChars_ne_nil _
      | _ => exact List.cons_ne_nil _ _

theorem Json.Value.compact_ne_empty (v : Value) : v.compact ≠ "" := by
  have hchars : v.compactChars ≠ [] := by
    cases v with
    | number n => exact n.chars_ne_nil
    | bool b => cases b <;> exact List.cons_ne_nil _ _
    | array items => cases items <;> exact List.cons_ne_nil _ _
    | object members => cases members <;> exact List.cons_ne_nil _ _
    | _ => exact List.cons_ne_nil _ _
  intro hempty
  rw [compact, String.ofList_eq_empty_iff] at hempty
  exact hchars hempty

/-- A value that says something: it is there, and is neither null nor the empty text. -/
def Says (v : Option Value) : Prop :=
  v ≠ none ∧ v ≠ some .null ∧ v ≠ some (.string "")

/-- No value gives an empty tag. -/
theorem tagText?_ne_empty {v : Option Value} {text : String} (h : tagText? v = some text) :
    text ≠ "" := by
  cases v with
  | none => cases h
  | some v =>
      cases v with
      | null => cases h
      | string raw =>
          rw [tagText?] at h
          split at h
          · cases h
          · rename_i hraw
            obtain rfl := Option.some.inj h
            intro hempty
            rw [hempty] at hraw
            exact hraw rfl
      | _ =>
          rw [← Option.some.inj h]
          exact Value.compact_ne_empty _

/-- A value gives a tag exactly when it says something. -/
theorem isSome_tagText?_iff (v : Option Value) : (tagText? v).isSome = true ↔ Says v := by
  cases v with
  | none => exact ⟨nofun, fun h => absurd rfl h.1⟩
  | some v =>
      cases v with
      | null => exact ⟨nofun, fun h => absurd rfl h.2.1⟩
      | string text =>
          by_cases hempty : text = ""
          · subst hempty
            exact ⟨nofun, fun h => absurd rfl h.2.2⟩
          · rw [tagText?_string (String.isEmpty_eq_false_iff.mpr hempty)]
            exact ⟨fun _ => ⟨nofun, nofun, fun h => hempty (by simpa using h)⟩, fun _ => rfl⟩
      | _ => exact ⟨fun _ => ⟨nofun, nofun, nofun⟩, fun _ => rfl⟩

theorem Classification.required_ne_empty (members : Members) (key : String) :
    required members key ≠ "" := by
  rw [required]
  cases htag : tagText? (members.get? key) with
  | none => decide
  | some text => exact tagText?_ne_empty htag

/-! ## What a report reads -/

/-- The task that a context holds: an object, or a text that reads as one. -/
def Context.taskObject (ctx : Context) : Members :=
  match Members.get? ctx "task" with
  | some (.object members) => members
  | some (.string text) =>
    match Json.read text with
    | .ok (.object members) => members
    | _ => []
  | _ => []

theorem Context.get?_expand_of_not_mem {key : String} (ctx : Context) (h : key ∉ nestedKeys) :
    Members.get? ctx.expand key = Members.get? ctx key := by
  rw [get?_expand, if_neg h]

/-- The task that a report reads is the one that the context holds. -/
theorem Classification.taskOf_expand (ctx : Context) : taskOf ctx.expand = ctx.taskObject := by
  rw [taskOf, Context.get?_expand, if_pos (by decide), Context.taskObject]
  cases Members.get? ctx "task" with
  | none => rfl
  | some v =>
      cases v with
      | string text =>
          rw [Option.map_some, Option.bind_some, Context.shown, Context.nestedObject?]
          dsimp only
          cases Json.read text with
          | error flaw => rfl
          | ok value => cases value <;> rfl
      | _ => rfl

/-! ## Connection commands -/

/-- The tags of a failed connection command. -/
structure TaggedAsConnection (ctx : Context) (e : DiagnosticEvent) : Prop where
  tags : e.tags.toList = [("run_mode", "conns"), ("target_type", e.transaction)]
  transaction : e.transaction = (tagText? (Members.get? ctx "conn_type")).getD "unknown"

theorem taggedAsConnection_report (t : Telemetry) (ctx : Context) (f : Failure) {i : Invocation}
    (hi : i.kind = .connectionManagement) : TaggedAsConnection ctx (t.report ctx f i) := by
  have htype := @Context.get?_expand_of_not_mem "conn_type" ctx (by decide)
  constructor
  · rw [Telemetry.report, hi]
    rfl
  · rw [Telemetry.report, hi, Classification.of, Classification.ofConnection,
      Classification.required, htype]
    rfl

/-! ## Runs -/

/-- The keys of the tags that a failed run can have. -/
def runTagKeys : List String :=
  ["source_type", "target_type", "stage", "run_mode", "mode", "type", "package", "project_id"]

/-- The tag of a key is the text of a value, and it is there exactly when the value says
something. -/
structure TaggedBy (tags : Tags) (key : String) (v : Option Value) : Prop where
  value : tags.get? key = tagText? v
  present : tags.contains key = true ↔ Says v

theorem TaggedBy.of_get? {tags : Tags} {key : String} {v : Option Value}
    (h : tags.get? key = tagText? v) : TaggedBy tags key v := by
  refine ⟨h, ?_⟩
  rw [SortedMap.contains_eq_isSome, h]
  exact isSome_tagText?_iff v

/-- The tags of a failed run. -/
structure TaggedAsRun (s : Settings) (ctx : Context) (e : DiagnosticEvent) : Prop where
  /-- Both ends are always known by something, and the transaction joins them. -/
  ends : ∃ source target, e.tags.get? "source_type" = some source ∧
    e.tags.get? "target_type" = some target ∧ source ≠ "" ∧ target ≠ "" ∧
    source = (tagText? (ctx.taskObject.get? "source_type")).getD "unknown" ∧
    target = (tagText? (ctx.taskObject.get? "target_type")).getD "unknown" ∧
    e.transaction = source ++ " - " ++ target
  package : e.tags.get? "package" = some s.packageName
  project : e.tags.get? "project_id" = s.projectId
  /-- How far the run has got is as the context says. -/
  ofContext : ∀ key ∈ ["stage", "run_mode"], TaggedBy e.tags key (Members.get? ctx key)
  /-- What kind of run it was is as the task says. -/
  ofTask : ∀ key ∈ ["mode", "type"], TaggedBy e.tags key (ctx.taskObject.get? key)
  only : ∀ key, e.tags.contains key = true → key ∈ runTagKeys

namespace Classification

/-- What is read for the tag of a key of a run. -/
def runTag? (s : Settings) (ctx : Context) (key : String) : Option String :=
  if key = "source_type" ∨ key = "target_type" then some (required ctx.taskObject key)
  else if key = "stage" ∨ key = "run_mode" then tagText? (Members.get? ctx key)
  else if key = "mode" ∨ key = "type" then tagText? (ctx.taskObject.get? key)
  else if key = "package" then some s.packageName
  else if key = "project_id" then s.projectId
  else none

/-- The tag of every key in the classification of a run. -/
theorem get?_ofRun (s : Settings) (ctx : Context) (key : String) :
    (ofRun s ctx.expand).tags.get? key = runTag? s ctx key := by
  have hstage := @Context.get?_expand_of_not_mem "stage" ctx (by decide)
  have hmode := @Context.get?_expand_of_not_mem "run_mode" ctx (by decide)
  rw [ofRun, taskOf_expand, hstage, hmode, runTag?]
  simp only [Tags.get?_insertSome, SortedMap.get?_insert]
  by_cases hkey : key ∈ runTagKeys
  · simp only [runTagKeys, List.mem_cons, List.not_mem_nil, or_false] at hkey
    rcases hkey with rfl | rfl | rfl | rfl | rfl | rfl | rfl | rfl <;>
      simp [SortedMap.get?, SortedMap.empty]
  · simp only [runTagKeys, List.mem_cons, List.not_mem_nil, or_false, not_or] at hkey
    simp [hkey, eq_comm, SortedMap.get?, SortedMap.empty]

end Classification

theorem get?_tags_report (t : Telemetry) (ctx : Context) (f : Failure) {i : Invocation}
    (hi : i.kind = .dataMovement) (key : String) :
    (t.report ctx f i).tags.get? key = Classification.runTag? t.settings ctx key := by
  rw [Telemetry.report, hi, Classification.of]
  exact Classification.get?_ofRun t.settings ctx key

theorem taggedAsRun_report (t : Telemetry) (ctx : Context) (f : Failure) {i : Invocation}
    (hi : i.kind = .dataMovement) : TaggedAsRun t.settings ctx (t.report ctx f i) := by
  have hget := get?_tags_report t ctx f hi
  constructor
  case ends =>
    refine ⟨_, _, hget "source_type", hget "target_type",
      Classification.required_ne_empty ctx.taskObject "source_type",
      Classification.required_ne_empty ctx.taskObject "target_type", rfl, rfl, ?_⟩
    rw [Telemetry.report, hi, Classification.of, Classification.ofRun, Classification.taskOf_expand]
  case package => exact hget "package"
  case project => exact hget "project_id"
  case ofContext =>
    intro key hkey
    apply TaggedBy.of_get?
    rw [hget]
    obtain rfl | rfl : key = "stage" ∨ key = "run_mode" := by simpa using hkey
    · rfl
    · rfl
  case ofTask =>
    intro key hkey
    apply TaggedBy.of_get?
    rw [hget]
    obtain rfl | rfl : key = "mode" ∨ key = "type" := by simpa using hkey
    · rfl
    · rfl
  case only =>
    intro key hkey
    rw [SortedMap.contains_eq_isSome, hget] at hkey
    refine Decidable.byContradiction fun hnot => ?_
    simp only [runTagKeys, List.mem_cons, List.not_mem_nil, or_false, not_or] at hnot
    simp [Classification.runTag?, hnot] at hkey

/-! ## Settings -/

namespace Settings

theorem value?_ne_empty {lookup : String → Option String} {key text : String}
    (h : value? lookup key = some text) : text ≠ "" := by
  obtain ⟨-, hblank⟩ := Option.filter_eq_some_iff.mp h
  rintro rfl
  exact absurd hblank (by decide)

/-- A package always has a name. -/
theorem packageName_ofLookup_ne_empty (devBuild : Bool) (lookup : String → Option String) :
    (ofLookup devBuild lookup).packageName ≠ "" := by
  change (value? lookup "FERRY_PACKAGE").getD "binary" ≠ ""
  cases hpackage : value? lookup "FERRY_PACKAGE" with
  | none => decide
  | some text => exact value?_ne_empty hpackage

/-- A project that is known has a name. -/
theorem projectId_ofLookup_ne_empty {devBuild : Bool} {lookup : String → Option String}
    {project : String} (h : (ofLookup devBuild lookup).projectId = some project) :
    project ≠ "" := by
  change (value? lookup "FERRY_PROJECT_ID").or (value? lookup "GITHUB_REPOSITORY_ID") = _ at h
  rcases Option.or_eq_some_iff.mp h with hchosen | ⟨-, hrepository⟩
  · exact value?_ne_empty hchosen
  · exact value?_ne_empty hrepository

end Settings

/-! ## Reports -/

theorem Classification.runTag?_ne_empty {devBuild : Bool} {lookup : String → Option String}
    {ctx : Context} {key text : String}
    (h : runTag? (.ofLookup devBuild lookup) ctx key = some text) : text ≠ "" := by
  rw [runTag?] at h
  split_ifs at h
  · rw [← Option.some.inj h]
    exact required_ne_empty _ _
  · exact tagText?_ne_empty h
  · exact tagText?_ne_empty h
  · rw [← Option.some.inj h]
    exact Settings.packageName_ofLookup_ne_empty _ _
  · exact Settings.projectId_ofLookup_ne_empty h

/-- How a report is tagged. -/
structure Tagged (t : Telemetry) (ctx : Context) (kind : CommandKind)
    (e : DiagnosticEvent) : Prop where
  connection : kind = .connectionManagement → TaggedAsConnection ctx e
  run : kind = .dataMovement → TaggedAsRun t.settings ctx e
  nonempty : ∀ tag ∈ e.tags.toList, tag.2 ≠ ""
  user : e.user = t.identity

/-- With settings from an environment, every report has the tags of its kind of command, and none of
them is empty. -/
theorem Telemetry.report_is_tagged (devBuild : Bool) (lookup : String → Option String)
    (identity : Identity) (emitTime : Int) (timestamp : String) (ctx : Context) (f : Failure)
    (i : Invocation) :
    let t : Telemetry := ⟨.ofLookup devBuild lookup, identity, emitTime, timestamp⟩
    Tagged t ctx i.kind (t.report ctx f i) := by
  intro t
  constructor
  case connection => exact taggedAsConnection_report t ctx f
  case run => exact taggedAsRun_report t ctx f
  case nonempty =>
    intro tag htag
    cases hkind : i.kind with
    | connectionManagement =>
        have hconn := taggedAsConnection_report t ctx f hkind
        rw [hconn.tags, hconn.transaction] at htag
        obtain rfl | rfl : tag = _ ∨ tag = _ := by simpa using htag
        · decide
        · exact Classification.required_ne_empty ctx "conn_type"
    | dataMovement =>
        have hvalue := SortedMap.get?_eq_some_of_mem htag
        rw [get?_tags_report t ctx f hkind] at hvalue
        exact Classification.runTag?_ne_empty hvalue
  case user => rfl

end Haulage
