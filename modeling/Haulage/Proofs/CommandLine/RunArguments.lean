import Haulage.CommandLine.Program
import Haulage.Proofs.CommandLine.Assignments
import Haulage.Proofs.Numeric.Digits

/-!
# The options of a run as arguments

A run has an argument `--name=text` for each value it has and an argument `--name` for each flag
that is set. In any order these select exactly that run, whatever the texts hold; the mode need not
be named when it is the one that a run has without it.

- `names_values`, `names_switches`: the arguments cover the grammar of a run.
- `Spelling`: arguments that give the options of a run.
- `Spells.runOptions_eq`: the options are read back from what was given.
- `run_of_spelling`: such arguments select the run.
-/

set_option autoImplicit false

namespace Haulage

open CommandLine

/-! ## The grammar of a run -/

namespace CommandLine

theorem nodup_names : (runSpec.options.map (·.long)).Nodup := by
  decide

theorem isOptionName_of_mem : ∀ s ∈ runSpec.options, IsOptionName s.long := by
  decide

theorem kind?_of_mem : ∀ s ∈ runSpec.options, runSpec.kind? s.long = some s.kind := by
  decide

theorem kind_of_takesValue :
    ∀ s ∈ runSpec.options, s.kind.takesValue = true →
      s.kind = .text ∨ s.kind = .count ∧ s.long = "limit" := by
  decide

theorem hasOptionsOnly_runSpec : runSpec.HasOptionsOnly :=
  ⟨rfl, rfl⟩

/-- The text of a number is read as that number. -/
theorem readCount?_decimal (n : UInt64) : readCount? (Numeric.decimal n.toNat) = some n := by
  have hlead : Text.dropLead? ['+'] (Numeric.decimalChars n.toNat) = none := by
    rw [← Option.not_isSome_iff_eq_none, Text.isSome_dropLead?_iff]
    rintro ⟨rest, hrest⟩
    have hplus : '+' ∈ Numeric.decimalChars n.toNat := by
      rw [← hrest]
      exact List.mem_cons_self
    exact absurd (Numeric.isDecimalDigit_of_mem_decimalChars _ _ hplus) (by decide)
  have hdigits : (Numeric.decimalChars n.toNat).all Numeric.isDecimalDigit = true :=
    List.all_eq_true.mpr (Numeric.isDecimalDigit_of_mem_decimalChars _)
  have hsize : n.toNat < UInt64.size := n.toNat_lt
  simp [readCount?, Numeric.decimal, hlead, hdigits, hsize, Numeric.ofDigits_decimalChars,
    Numeric.decimalChars_ne_nil]

end CommandLine

/-! ## Arguments -/

namespace RunOptions

/-- The options with a value, by their names. -/
def values (o : RunOptions) : List (String × Option String) :=
  [ ("src-conn", o.sourceConnection),
    ("src-stream", o.sourceStream),
    ("src-options", o.sourceOptions),
    ("tgt-conn", o.targetConnection),
    ("tgt-object", o.targetObject),
    ("tgt-options", o.targetOptions),
    ("select", o.selection),
    ("streams", o.streams),
    ("env", o.environment),
    ("mode", some o.mode),
    ("limit", o.limit.map fun n => Numeric.decimal n.toNat),
    ("primary-key", o.primaryKey),
    ("update-key", o.updateKey) ]

/-- The flags, by their names. -/
def switches (o : RunOptions) : List (String × Bool) :=
  [ ("stdout", o.toStdout),
    ("debug", o.debug) ]

/-- The values that there are and the flags that are set. -/
def assignments (o : RunOptions) : List Assignment :=
  (o.values.filterMap fun v => v.2.map (.value v.1)) ++
    (o.switches.filter Prod.snd).map fun f => .flag f.1

/-- The arguments that give them. -/
def arguments (o : RunOptions) : List String :=
  o.assignments.map Assignment.argument

/-- The arguments that give them apart from the mode. -/
def argumentsWithoutMode (o : RunOptions) : List String :=
  (o.assignments.filter fun a => a.name != "mode").map Assignment.argument

variable {o : RunOptions} {name text : String}

theorem value_mem_assignments_iff :
    .value name text ∈ o.assignments ↔ (name, some text) ∈ o.values := by
  simp [assignments]

theorem flag_mem_assignments_iff : .flag name ∈ o.assignments ↔ (name, true) ∈ o.switches := by
  simp [assignments]

/-- Every option of the grammar that takes a value is covered. -/
theorem names_values (o : RunOptions) :
    o.values.map Prod.fst = (runSpec.options.filter (·.kind.takesValue)).map (·.long) :=
  rfl

/-- Every flag of the grammar is covered. -/
theorem names_switches (o : RunOptions) :
    o.switches.map Prod.fst = (runSpec.options.filter (·.kind = .flag)).map (·.long) :=
  rfl

theorem nodup_names_values (o : RunOptions) : (o.values.map Prod.fst).Nodup := by
  rw [names_values]
  exact nodup_names.sublist (List.filter_sublist.map _)

theorem nodup_names_switches (o : RunOptions) : (o.switches.map Prod.fst).Nodup := by
  rw [names_switches]
  exact nodup_names.sublist (List.filter_sublist.map _)

/-- What a list of distinct names says of one of them. -/
theorem eq_of_mem_of_nodup {α : Type} {entries : List (String × α)} {a b : α}
    (h : (entries.map Prod.fst).Nodup) (ha : (name, a) ∈ entries) (hb : (name, b) ∈ entries) :
    a = b :=
  congrArg Prod.snd (List.inj_on_of_nodup_map h ha hb rfl)

/-- No option is given twice. -/
theorem nodup_assignments (o : RunOptions) : (o.assignments.map Assignment.name).Nodup := by
  have hvalues : ∀ values : List (String × Option String),
      ((values.filterMap fun v => v.2.map (Assignment.value v.1)).map Assignment.name).Sublist
        (values.map Prod.fst) := by
    intro values
    -- a value that is missing only drops its name
    induction values with
    | nil => exact .slnil
    | cons v more ih =>
        obtain ⟨name, _ | text⟩ := v
        · exact ih.cons _
        · exact ih.cons_cons _
  have hswitches : (((o.switches.filter Prod.snd).map fun f => Assignment.flag f.1).map
      Assignment.name).Sublist (o.switches.map Prod.fst) := by
    rw [List.map_map]
    exact List.filter_sublist.map _
  have hnames : (o.values.map Prod.fst ++ o.switches.map Prod.fst).Nodup := by
    rw [names_values, names_switches]
    decide
  rw [assignments, List.map_append]
  exact hnames.sublist ((hvalues o.values).append hswitches)

theorem mode_mem_values : ("mode", some o.mode) ∈ o.values := by
  simp [values]

theorem eq_of_name_eq_mode {a : Assignment} (h : a ∈ o.assignments) (hname : a.name = "mode") :
    a = .value "mode" o.mode := by
  cases a with
  | flag name =>
      obtain rfl : name = "mode" := hname
      have hswitch := flag_mem_assignments_iff.mp h
      simp [switches] at hswitch
  | value name text =>
      obtain rfl : name = "mode" := hname
      have htext :=
        eq_of_mem_of_nodup (nodup_names_values o) (value_mem_assignments_iff.mp h) mode_mem_values
      rw [Option.some.inj htext]

/-! ## The grammar allows them -/

/-- The grammar of a run allows its assignments. -/
theorem suits_of_mem {a : Assignment} (h : a ∈ o.assignments) : a.Suits runSpec := by
  cases a with
  | flag name =>
      have hname : name ∈ o.switches.map Prod.fst :=
        List.mem_map_of_mem (flag_mem_assignments_iff.mp h)
      rw [names_switches] at hname
      obtain ⟨s, hs, rfl⟩ := List.mem_map.mp hname
      obtain ⟨hs, hkind⟩ := List.mem_filter.mp hs
      exact .flag (isOptionName_of_mem s hs) (by rw [kind?_of_mem s hs, of_decide_eq_true hkind])
  | value name text =>
      have hvalue := value_mem_assignments_iff.mp h
      have hname : name ∈ o.values.map Prod.fst := List.mem_map_of_mem hvalue
      rw [names_values] at hname
      obtain ⟨s, hs, rfl⟩ := List.mem_map.mp hname
      obtain ⟨hs, htakes⟩ := List.mem_filter.mp hs
      rcases kind_of_takesValue s hs htakes with hkind | ⟨hkind, hlimit⟩
      · exact .text (isOptionName_of_mem s hs) (by rw [kind?_of_mem s hs, hkind])
      · -- the limit is the only number, and its text is the text of one
        refine .count (isOptionName_of_mem s hs) (by rw [kind?_of_mem s hs, hkind]) ?_
        rw [hlimit] at hvalue
        have hnumber : ("limit", o.limit.map fun n => Numeric.decimal n.toNat) ∈ o.values := by
          simp [values]
        have htext := eq_of_mem_of_nodup (nodup_names_values o) hnumber hvalue
        obtain ⟨n, -, rfl⟩ := Option.map_eq_some_iff.mp htext
        rw [readCount?_decimal]
        rfl

/-! ## Reading them back -/

/-- Arguments that give the options of a run, each once and in any order. The mode need not be given
when it is the one that a run has without it. -/
inductive Spelling (o : RunOptions) : List String → Prop
  | full {arguments : List String} (h : arguments.Perm o.arguments) : Spelling o arguments
  | withoutMode {arguments : List String} (hmode : o.mode = Mode.fullRefresh.name)
      (h : arguments.Perm o.argumentsWithoutMode) : Spelling o arguments

/-- Assignments that give the options of a run, perhaps without the mode that it has anyway. -/
structure Covers (o : RunOptions) (assignments : List Assignment) : Prop where
  nodup : (assignments.map Assignment.name).Nodup
  subset : ∀ a ∈ assignments, a ∈ o.assignments
  complete : ∀ a ∈ o.assignments, a ∈ assignments ∨ a = .value "mode" Mode.fullRefresh.name

theorem Spelling.exists_covers {arguments : List String} (h : o.Spelling arguments) :
    ∃ assignments, arguments = assignments.map Assignment.argument ∧ o.Covers assignments := by
  have hof : ∀ {given : List Assignment}, arguments.Perm (given.map Assignment.argument) →
      ∃ assignments : List Assignment, arguments = assignments.map Assignment.argument ∧
        assignments.Perm given := fun {given} hperm =>
    (congrFun (congrFun (List.eq_map_comp_perm Assignment.argument) arguments) given).mpr hperm
  cases h with
  | full h =>
      obtain ⟨assignments, hmap, hperm⟩ := hof h
      exact ⟨assignments, hmap, (hperm.map _).nodup_iff.mpr (nodup_assignments o),
        fun a ha => hperm.mem_iff.mp ha, fun a ha => .inl (hperm.mem_iff.mpr ha)⟩
  | withoutMode hmode h =>
      obtain ⟨assignments, hmap, hperm⟩ := hof h
      refine ⟨assignments, hmap, ?_, fun a ha => ?_, fun a ha => ?_⟩
      · exact (hperm.map _).nodup_iff.mpr
          ((nodup_assignments o).sublist (List.filter_sublist.map _))
      · exact List.mem_of_mem_filter (hperm.mem_iff.mp ha)
      · by_cases hname : a.name = "mode"
        · exact .inr (hmode ▸ eq_of_name_eq_mode ha hname)
        · exact .inl (hperm.mem_iff.mpr (List.mem_filter.mpr ⟨ha, by simpa using hname⟩))

/-- What was given to a run that has the options. -/
structure Spells (o : RunOptions) (g : Given) : Prop where
  value : ∀ v ∈ o.values, v.1 ≠ "mode" → g.value? v.1 = v.2
  mode : (g.value? "mode").getD Mode.fullRefresh.name = o.mode
  switch : ∀ f ∈ o.switches, g.hasFlag f.1 = f.2

/-- The options are read back from what was given. -/
theorem Spells.runOptions_eq {g : Given} (h : o.Spells g) : g.runOptions = o := by
  obtain ⟨hvalue, hmode, hswitch⟩ := h
  have hlimit : (o.limit.map fun n => Numeric.decimal n.toNat).bind readCount? = o.limit := by
    cases o.limit with
    | none => rfl
    | some n => exact readCount?_decimal n
  simp only [values, List.forall_mem_cons] at hvalue
  simp only [switches, List.forall_mem_cons] at hswitch
  simp_all [Given.runOptions]

/-- What the assignments give. -/
theorem Covers.spells {assignments : List Assignment} (h : o.Covers assignments) :
    o.Spells (assignments.foldl Given.assign .nothing) := by
  have hvalue : ∀ {name text : String},
      (assignments.foldl Given.assign .nothing).value? name = some text ↔
        .value name text ∈ assignments := by
    intro name text
    rw [Given.value?_foldl_assign_iff h.nodup fun _ _ => ⟨rfl, rfl⟩]
    simp [Given.value?, Given.nothing]
  constructor
  · rintro ⟨name, v⟩ hv hmode
    ext text
    rw [hvalue]
    constructor
    · intro hmem
      exact eq_of_mem_of_nodup (nodup_names_values o) hv
        (value_mem_assignments_iff.mp (h.subset _ hmem))
    · intro hsome
      obtain rfl : v = some text := hsome
      rcases h.complete _ (value_mem_assignments_iff.mpr hv) with hmem | hdefault
      · exact hmem
      · exact absurd (congrArg Assignment.name hdefault) hmode
  · cases hgiven : (assignments.foldl Given.assign .nothing).value? "mode" with
    | some text =>
        have hmem := h.subset _ (hvalue.mp hgiven)
        exact Option.some.inj
          (eq_of_mem_of_nodup (nodup_names_values o)
            (value_mem_assignments_iff.mp hmem) mode_mem_values)
    | none =>
        -- the mode was left out, so it is the one that a run has without it
        rcases h.complete _ (value_mem_assignments_iff.mpr mode_mem_values) with hmem | hdefault
        · exact absurd (hvalue.mpr hmem) (by simp [hgiven])
        · injection hdefault with _ hmode
          exact hmode.symm
  · rintro ⟨name, b⟩ hb
    rw [Bool.eq_iff_iff, Given.hasFlag_foldl_assign_iff]
    constructor
    · rintro (hnothing | hmem)
      · cases hnothing
      · exact eq_of_mem_of_nodup (nodup_names_switches o) hb
          (flag_mem_assignments_iff.mp (h.subset _ hmem))
    · intro hset
      obtain rfl : b = true := hset
      rcases h.complete _ (flag_mem_assignments_iff.mpr hb) with hmem | hmode
      · exact .inr hmem
      · cases hmode

/-- Reading such arguments ends with the options. -/
theorem Spelling.exists_readFrom {arguments : List String} (h : o.Spelling arguments)
    (path : List String) :
    ∃ g, readFrom runSpec path .start arguments = .ok ⟨path, g⟩ ∧ g.runOptions = o := by
  obtain ⟨assignments, rfl, hcovers⟩ := h.exists_covers
  refine ⟨assignments.foldl Given.assign .nothing, ?_, hcovers.spells.runOptions_eq⟩
  rw [readFrom_eq_ok_iff hasOptionsOnly_runSpec]
  refine ⟨.ready (assignments.foldl Given.assign .nothing), _, ?_, rfl, rfl⟩
  exact takeAll_arguments (fun a ha => suits_of_mem (hcovers.subset a ha)) hcovers.nodup
    fun _ _ => ⟨rfl, rfl⟩

end RunOptions

namespace CommandLine

/-- The first argument of a run leaves the others to the grammar of a run. -/
theorem command_run (arguments : List String) :
    command ("run" :: arguments) =
      (readFrom runSpec ["ferry", "run"] .start arguments).map Choice.command :=
  rfl

/-- The options of a run, given one by one in any order, select the run with exactly these
options. -/
theorem run_of_spelling {o : RunOptions} {arguments : List String} (h : o.Spelling arguments) :
    command ("run" :: arguments) = .ok (.run o) ∧
      (Command.run o).invocation? = some ⟨"run", none, .dataMovement⟩ := by
  obtain ⟨g, hread, hoptions⟩ := h.exists_readFrom ["ferry", "run"]
  refine ⟨?_, rfl⟩
  rw [command_run, hread, ← hoptions]
  rfl

/-- A run whose texts look like options. -/
def dashedRun : RunOptions where
  sourceConnection := none
  sourceStream := some ""
  sourceOptions := some "--debug"
  targetConnection := none
  targetObject := some "-"
  targetOptions := none
  selection := some "-limit,--,-m=a"
  streams := none
  toStdout := true
  environment := some "="
  mode := "full-refresh"
  limit := some 18446744073709551615
  primaryKey := some "-l 5"
  updateKey := none
  debug := false

/-- The arguments of `dashedRun`, in an order of their own and without the mode. -/
def dashedArguments : List String :=
  ["--limit=18446744073709551615", "--stdout", "--select=-limit,--,-m=a", "--tgt-object=-",
    "--primary-key=-l 5", "--src-options=--debug", "--env==", "--src-stream="]

theorem spelling_dashedRun : dashedRun.Spelling dashedArguments := by
  refine .withoutMode rfl ?_
  decide +kernel

theorem run_dashed : dashedRun.Spelling dashedArguments ∧
    command ("run" :: dashedArguments) = .ok (.run dashedRun) ∧
      (Command.run dashedRun).invocation? = some ⟨"run", none, .dataMovement⟩ :=
  ⟨spelling_dashedRun, run_of_spelling spelling_dashedRun⟩

end CommandLine

end Haulage
