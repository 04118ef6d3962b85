import Haulage.Settings.Basic

/-!
# Settings that fall back, and the warnings they leave

Six variables are parsed: three toggles, two URLs and the grace period. Each of them decides one
setting and falls back to a default when it is unset or cannot be read. A value that cannot be read
should leave a warning that names its variable. The URLs and the grace period leave it. The toggles
leave none.

- `Obeys`: the rule for one parsed variable, with the number of warnings that a bad value leaves.
- `KeepsToRule`: the rule for all six variables of an environment, with one warning for each bad
  value.
- `fallback_and_warnings`: how the six settings of every environment come about, and that the rule
  is kept exactly where no toggle holds a bad value.
- `mistyped_switch_silent`: a toggle that is mistyped without a warning.
-/

set_option autoImplicit false

namespace Haulage

open Haulage.Text

/-- The variable that a warning is about. -/
def SettingsWarning.variableName : SettingsWarning → String
  | .grace _ _ => "FERRY_SHUTDOWN_GRACE"
  | .url name _ _ => name

theorem SettingsWarning.message_grace (value : String) (flaw : Duration.Flaw) :
    (grace value flaw).message =
      "ignoring FERRY_SHUTDOWN_GRACE=" ++ quoted value ++ ": " ++ flaw.message :=
  rfl

theorem SettingsWarning.message_url (name value : String) (flaw : Url.Flaw) :
    (url name value flaw).message =
      "ignoring " ++ name ++ ": invalid url " ++ quoted value ++ ": " ++ flaw.message :=
  rfl

/-- A warning names its variable before it says anything else. -/
theorem SettingsWarning.exists_message_eq (w : SettingsWarning) :
    ∃ rest, w.message = "ignoring " ++ w.variableName ++ rest := by
  cases w with
  | grace value flaw =>
      refine ⟨"=" ++ quoted value ++ ": " ++ flaw.message, ?_⟩
      have hkey : "ignoring FERRY_SHUTDOWN_GRACE=" = "ignoring " ++ "FERRY_SHUTDOWN_GRACE" ++
          "=" := by
        decide
      rw [message_grace, hkey, variableName]
      simp only [String.append_assoc]
  | url name value flaw =>
      refine ⟨": invalid url " ++ quoted value ++ ": " ++ flaw.message, ?_⟩
      rw [message_url, variableName]
      simp only [String.append_assoc]

namespace Settings

/-- A variable whose value is parsed, and the setting that it decides. -/
structure ParsedVariable (α : Type) where
  key : String
  /-- The setting that a value asks for, if it is valid. -/
  read? : String → Option α
  default : α
  setting : Settings → α

/-- The switch that keeps telemetry off. -/
def disableTelemetry : ParsedVariable Bool where
  key := "FERRY_DISABLE_TELEMETRY"
  read? raw := (Toggle.read? raw).map not
  default := true
  setting := telemetry

/-- The switch for an export in bulk. -/
def bulkExport : ParsedVariable Bool where
  key := "FERRY_BULK_EXPORT_FLOW_CSV"
  read? := Toggle.read?
  default := false
  setting := bulkExportFlowCsv

/-- The switch for colours in the log. -/
def loggingColor : ParsedVariable Bool where
  key := "FERRY_LOGGING_COLOR"
  read? := Toggle.read?
  default := true
  setting := logColor

/-- The URL that a value stands for. There is none unless it is given. -/
def readUrl? (raw : String) : Option (Option Url) :=
  (Url.read (trim raw)).toOption.map some

/-- A variable that holds the URL of a collector. -/
def collector (key : String) (setting : Settings → Option Url) : ParsedVariable (Option Url) where
  key := key
  read? := readUrl?
  default := none
  setting := setting

/-- The time that an interrupted command may take. -/
def grace : ParsedVariable Duration where
  key := "FERRY_SHUTDOWN_GRACE"
  read? raw := (Duration.read (trim raw)).toOption
  default := defaultGrace
  setting := shutdownGrace

/-- The three switches. -/
def toggles : List (ParsedVariable Bool) :=
  [disableTelemetry, bulkExport, loggingColor]

/-- The two collectors. -/
def collectors : List (ParsedVariable (Option Url)) :=
  [collector "FERRY_EVENTS_URL" eventsUrl, collector "FERRY_DIAGNOSTICS_URL" diagnosticsUrl]

/-- The names of the six variables. -/
def parsedKeys : List String :=
  toggles.map (·.key) ++ collectors.map (·.key) ++ [grace.key]

/-- The warnings about a variable. -/
def warningsOf (s : Settings) (key : String) : List SettingsWarning :=
  s.warnings.filter (·.variableName = key)

/-- A variable is missing or holds blanks only. -/
def Unset (lookup : String → Option String) (key : String) : Prop :=
  ∀ raw, lookup key = some raw → isBlankText raw = true

namespace ParsedVariable

variable {α : Type}

/-- The variable holds a valid value. -/
def AsksFor (x : ParsedVariable α) (lookup : String → Option String) (a : α) : Prop :=
  ∃ raw, lookup x.key = some raw ∧ isBlankText raw = false ∧ x.read? raw = some a

/-- The variable holds a value that is neither blank nor valid. -/
def Invalid (x : ParsedVariable α) (lookup : String → Option String) : Prop :=
  ∃ raw, lookup x.key = some raw ∧ isBlankText raw = false ∧ x.read? raw = none

/-- The rule for a parsed variable of which a bad value leaves so many warnings. -/
structure Obeys (x : ParsedVariable α) (count : Nat) (devBuild : Bool)
    (lookup : String → Option String) : Prop where
  unset : Unset lookup x.key →
    x.setting (ofLookup devBuild lookup) = x.default ∧
      (ofLookup devBuild lookup).warningsOf x.key = []
  valid : ∀ a, x.AsksFor lookup a →
    x.setting (ofLookup devBuild lookup) = a ∧ (ofLookup devBuild lookup).warningsOf x.key = []
  invalid : x.Invalid lookup →
    x.setting (ofLookup devBuild lookup) = x.default ∧
      ((ofLookup devBuild lookup).warningsOf x.key).length = count
  /-- The other variables make no difference. -/
  alone : ∀ lookup' : String → Option String, lookup' x.key = lookup x.key →
    x.setting (ofLookup devBuild lookup') = x.setting (ofLookup devBuild lookup)

/-- The setting, and the number of warnings, that an environment makes of the variable. -/
def outcome (x : ParsedVariable α) (count : Nat) (lookup : String → Option String) : α × Nat :=
  match value? lookup x.key with
  | none => (x.default, 0)
  | some raw =>
    match x.read? raw with
    | none => (x.default, count)
    | some a => (a, 0)

end ParsedVariable

/-- The rule for all parsed variables: one warning for each bad value and no others, each of which
begins with the name of its variable. -/
structure KeepsToRule (devBuild : Bool) (lookup : String → Option String) : Prop where
  toggles : ∀ x ∈ toggles, x.Obeys 1 devBuild lookup
  collectors : ∀ x ∈ collectors, x.Obeys 1 devBuild lookup
  grace : grace.Obeys 1 devBuild lookup
  noOthers : ∀ w ∈ (ofLookup devBuild lookup).warnings, w.variableName ∈ parsedKeys
  named : ∀ w ∈ (ofLookup devBuild lookup).warnings,
    ∃ rest, w.message = "ignoring " ++ w.variableName ++ rest

/-! ## The value of a variable -/

theorem value?_eq_some_iff {lookup : String → Option String} {key raw : String} :
    value? lookup key = some raw ↔ lookup key = some raw ∧ isBlankText raw = false := by
  rw [value?, Option.filter_eq_some_iff, Bool.not_eq_true']

theorem value?_eq_none_iff {lookup : String → Option String} {key : String} :
    value? lookup key = none ↔ Unset lookup key := by
  simp only [value?, Option.filter_eq_none_iff, Unset, Bool.not_eq_true', Bool.not_eq_false]

namespace ParsedVariable

variable {α : Type} {x : ParsedVariable α} {count : Nat} {lookup lookup' : String → Option String}
  {devBuild : Bool}

theorem outcome_of_unset (h : Unset lookup x.key) : x.outcome count lookup = (x.default, 0) := by
  rw [outcome, value?_eq_none_iff.mpr h]

theorem outcome_of_asksFor {a : α} (h : x.AsksFor lookup a) : x.outcome count lookup = (a, 0) := by
  obtain ⟨raw, hraw, hblank, hread⟩ := h
  simp only [outcome, value?_eq_some_iff.mpr ⟨hraw, hblank⟩, hread]

theorem outcome_of_invalid (h : x.Invalid lookup) :
    x.outcome count lookup = (x.default, count) := by
  obtain ⟨raw, hraw, hblank, hread⟩ := h
  simp only [outcome, value?_eq_some_iff.mpr ⟨hraw, hblank⟩, hread]

/-- The outcome hangs on the variable only. -/
theorem outcome_congr (h : lookup x.key = lookup' x.key) :
    x.outcome count lookup = x.outcome count lookup' := by
  simp only [outcome, value?, h]

/-- In every environment the setting and the warnings are what the outcome says. -/
def ComesOut (x : ParsedVariable α) (count : Nat) : Prop :=
  ∀ devBuild lookup, (x.setting (ofLookup devBuild lookup),
    ((ofLookup devBuild lookup).warningsOf x.key).length) = x.outcome count lookup

/-- A variable whose outcome is the one of the rule obeys it. -/
theorem ComesOut.obeys (h : x.ComesOut count) : x.Obeys count devBuild lookup := by
  have both {a : α} {n : Nat} (hout : x.outcome count lookup = (a, n)) :
      x.setting (ofLookup devBuild lookup) = a ∧
        ((ofLookup devBuild lookup).warningsOf x.key).length = n :=
    Prod.mk.inj ((h devBuild lookup).trans hout)
  constructor
  case unset =>
    intro hunset
    obtain ⟨hsetting, hlength⟩ := both (outcome_of_unset hunset)
    exact ⟨hsetting, List.eq_nil_of_length_eq_zero hlength⟩
  case valid =>
    intro a hasks
    obtain ⟨hsetting, hlength⟩ := both (outcome_of_asksFor hasks)
    exact ⟨hsetting, List.eq_nil_of_length_eq_zero hlength⟩
  case invalid =>
    intro hinvalid
    exact both (outcome_of_invalid hinvalid)
  case alone =>
    intro lookup' hsame
    have heq := ((h devBuild lookup').trans (outcome_congr hsame)).trans (h devBuild lookup).symm
    exact congrArg Prod.fst heq

/-- A variable that never warns obeys the rule of one warning unless its value is bad. -/
theorem Obeys.one_iff (h : x.Obeys 0 devBuild lookup) :
    x.Obeys 1 devBuild lookup ↔ ¬ x.Invalid lookup := by
  constructor
  · intro hone hinvalid
    have hnone := (h.invalid hinvalid).2
    rw [(hone.invalid hinvalid).2] at hnone
    cases hnone
  · intro hvalid
    exact ⟨h.unset, h.valid, fun hinvalid => absurd hinvalid hvalid, h.alone⟩

end ParsedVariable

/-! ## The warnings of an environment -/

variable {devBuild : Bool} {lookup : String → Option String} {key : String}

theorem variableName_of_mem_readGrace {w : SettingsWarning} (h : w ∈ (readGrace lookup).2) :
    w.variableName = grace.key := by
  unfold readGrace at h
  split at h
  · cases h
  · split at h
    · cases h
    · rw [List.mem_singleton.mp h]
      rfl

theorem variableName_of_mem_readUrl {w : SettingsWarning} (h : w ∈ (readUrl lookup key).2) :
    w.variableName = key := by
  unfold readUrl at h
  split at h
  · cases h
  · split at h
    · cases h
    · rw [List.mem_singleton.mp h]
      rfl

/-- Warnings about one variable are kept or left out together. -/
theorem filter_warnings {ws : List SettingsWarning} {name : String}
    (h : ∀ w ∈ ws, w.variableName = name) :
    ws.filter (·.variableName = key) = if name = key then ws else [] := by
  split
  · rename_i heq
    apply List.filter_eq_self.mpr
    intro w hw
    exact decide_eq_true ((h w hw).trans heq)
  · rename_i hne
    apply List.filter_eq_nil_iff.mpr
    intro w hw
    rw [h w hw]
    exact fun heq => hne (of_decide_eq_true heq)

/-- The warnings about a variable come from the one place that reads it. -/
theorem warningsOf_ofLookup :
    (ofLookup devBuild lookup).warningsOf key =
      (if grace.key = key then (readGrace lookup).2 else []) ++
        (if "FERRY_EVENTS_URL" = key then (readUrl lookup "FERRY_EVENTS_URL").2 else []) ++
        (if "FERRY_DIAGNOSTICS_URL" = key then (readUrl lookup "FERRY_DIAGNOSTICS_URL").2
          else []) := by
  have hwarnings : (ofLookup devBuild lookup).warnings = (readGrace lookup).2 ++
      (readUrl lookup "FERRY_EVENTS_URL").2 ++ (readUrl lookup "FERRY_DIAGNOSTICS_URL").2 := rfl
  rw [warningsOf, hwarnings, List.filter_append, List.filter_append,
    filter_warnings fun w => variableName_of_mem_readGrace,
    filter_warnings fun w => variableName_of_mem_readUrl,
    filter_warnings fun w => variableName_of_mem_readUrl]

/-! ## The outcome of each variable -/

theorem outcome_grace :
    grace.outcome 1 lookup = ((readGrace lookup).1, (readGrace lookup).2.length) := by
  rw [ParsedVariable.outcome, readGrace, grace]
  rcases value? lookup "FERRY_SHUTDOWN_GRACE" with _ | raw
  · rfl
  · dsimp only
    rcases Duration.read (trim raw) with flaw | d <;> rfl

theorem outcome_collector {setting : Settings → Option Url} :
    (collector key setting).outcome 1 lookup =
      ((readUrl lookup key).1, (readUrl lookup key).2.length) := by
  rw [ParsedVariable.outcome, readUrl, collector]
  rcases value? lookup key with _ | raw
  · rfl
  · dsimp only [readUrl?]
    rcases Url.read (trim raw) with flaw | u <;> rfl

/-- The outcome of a variable that never warns. -/
theorem outcome_zero {α : Type} (x : ParsedVariable α) :
    x.outcome 0 lookup = (((value? lookup x.key).bind x.read?).getD x.default, 0) := by
  rw [ParsedVariable.outcome]
  rcases value? lookup x.key with _ | raw
  · rfl
  · rw [Option.bind_some]
    dsimp only
    rcases x.read? raw with _ | a <;> rfl

/-- No warning is about a toggle. -/
theorem warningsOf_toggle (h : key ∈ toggles.map (·.key)) :
    (ofLookup devBuild lookup).warningsOf key = [] := by
  simp only [toggles, disableTelemetry, bulkExport, loggingColor, List.map, List.mem_cons,
    List.not_mem_nil, or_false] at h
  rw [warningsOf_ofLookup, grace]
  rcases h with rfl | rfl | rfl <;> simp only [String.reduceEq, reduceIte, List.append_nil]

/-- A toggle reads its variable in one way, whether a value switches something on or off. -/
theorem not_getD_map_not (read : Option Bool) (b : Bool) :
    (!read.getD b) = (read.map not).getD !b := by
  cases read <;> rfl

theorem setting_disableTelemetry :
    disableTelemetry.setting (ofLookup devBuild lookup) =
      ((value? lookup disableTelemetry.key).bind disableTelemetry.read?).getD
        disableTelemetry.default := by
  have htelemetry : (ofLookup devBuild lookup).telemetry =
      !toggle lookup "FERRY_DISABLE_TELEMETRY" false := rfl
  simp only [disableTelemetry, htelemetry, toggle, not_getD_map_not, Option.map_bind]
  rfl

theorem setting_bulkExport :
    bulkExport.setting (ofLookup devBuild lookup) =
      ((value? lookup bulkExport.key).bind bulkExport.read?).getD bulkExport.default := by
  have hbulk : (ofLookup devBuild lookup).bulkExportFlowCsv =
      toggle lookup "FERRY_BULK_EXPORT_FLOW_CSV" false := rfl
  simp only [bulkExport, hbulk, toggle]

theorem setting_loggingColor :
    loggingColor.setting (ofLookup devBuild lookup) =
      ((value? lookup loggingColor.key).bind loggingColor.read?).getD loggingColor.default := by
  have hcolor : (ofLookup devBuild lookup).logColor = toggle lookup "FERRY_LOGGING_COLOR" true :=
    rfl
  simp only [loggingColor, hcolor, toggle]

/-- A toggle falls back without a warning. -/
theorem comesOut_toggles : ∀ x ∈ toggles, x.ComesOut 0 := by
  intro x hx devBuild lookup
  rw [outcome_zero, warningsOf_toggle (List.mem_map_of_mem hx)]
  rw [toggles, List.mem_cons, List.mem_cons, List.mem_singleton] at hx
  rcases hx with rfl | rfl | rfl
  · rw [setting_disableTelemetry, List.length_nil]
  · rw [setting_bulkExport, List.length_nil]
  · rw [setting_loggingColor, List.length_nil]

/-- A URL falls back with a warning. -/
theorem comesOut_collectors : ∀ x ∈ collectors, x.ComesOut 1 := by
  intro x hx devBuild lookup
  rw [collectors, List.mem_cons, List.mem_singleton] at hx
  rcases hx with rfl | rfl
  · have hevents : (ofLookup devBuild lookup).eventsUrl = (readUrl lookup "FERRY_EVENTS_URL").1 :=
      rfl
    rw [outcome_collector, warningsOf_ofLookup]
    simp only [grace, collector, hevents, String.reduceEq, reduceIte, List.nil_append,
      List.append_nil]
  · have hdiagnostics :
        (ofLookup devBuild lookup).diagnosticsUrl = (readUrl lookup "FERRY_DIAGNOSTICS_URL").1 :=
          rfl
    rw [outcome_collector, warningsOf_ofLookup]
    simp only [grace, collector, hdiagnostics, String.reduceEq, reduceIte, List.nil_append]

/-- The grace period falls back with a warning. -/
theorem comesOut_grace : grace.ComesOut 1 := by
  intro devBuild lookup
  have hgrace : (ofLookup devBuild lookup).shutdownGrace = (readGrace lookup).1 := rfl
  rw [outcome_grace, warningsOf_ofLookup]
  simp only [grace, hgrace, String.reduceEq, reduceIte, List.append_nil]

/-- Every warning is about the grace period or a URL. -/
theorem variableName_of_mem_warnings {w : SettingsWarning}
    (h : w ∈ (ofLookup devBuild lookup).warnings) :
    w.variableName ∈ grace.key :: collectors.map (·.key) := by
  have hwarnings : (ofLookup devBuild lookup).warnings = (readGrace lookup).2 ++
      (readUrl lookup "FERRY_EVENTS_URL").2 ++ (readUrl lookup "FERRY_DIAGNOSTICS_URL").2 := rfl
  rw [hwarnings, List.mem_append, List.mem_append] at h
  simp only [collectors, collector, List.map, List.mem_cons]
  rcases h with (hgrace | hevents) | hdiagnostics
  · exact .inl (variableName_of_mem_readGrace hgrace)
  · exact .inr (.inl (variableName_of_mem_readUrl hevents))
  · exact .inr (.inr (.inl (variableName_of_mem_readUrl hdiagnostics)))

/-! ## The rule -/

/-- In every environment a parsed variable decides its own setting and no other: it is the default
when the variable is unset or its value bad, and what the value asks for otherwise. A bad URL and a
bad grace period leave one warning each, which begins with the name of the variable, and there are
no other warnings. So the rule of one warning for each bad value is kept exactly where no toggle
holds a bad one. -/
theorem fallback_and_warnings (devBuild : Bool) (lookup : String → Option String) :
    (∀ x ∈ toggles, x.Obeys 0 devBuild lookup) ∧
      (∀ x ∈ collectors, x.Obeys 1 devBuild lookup) ∧
      grace.Obeys 1 devBuild lookup ∧
      (∀ w ∈ (ofLookup devBuild lookup).warnings,
        w.variableName ∈ grace.key :: collectors.map (·.key) ∧
        ∃ rest, w.message = "ignoring " ++ w.variableName ++ rest) ∧
      (KeepsToRule devBuild lookup ↔ ∀ x ∈ toggles, ¬ x.Invalid lookup) := by
  have htoggles (x : ParsedVariable Bool) (hx : x ∈ toggles) : x.Obeys 0 devBuild lookup :=
    (comesOut_toggles x hx).obeys
  have hcollectors (x : ParsedVariable (Option Url)) (hx : x ∈ collectors) :
      x.Obeys 1 devBuild lookup :=
    (comesOut_collectors x hx).obeys
  have hgrace : grace.Obeys 1 devBuild lookup := comesOut_grace.obeys
  refine ⟨htoggles, hcollectors, hgrace, ?_, ?_, ?_⟩
  · intro w hw
    exact ⟨variableName_of_mem_warnings hw, w.exists_message_eq⟩
  · intro hrule x hx
    exact (htoggles x hx).one_iff.mp (hrule.toggles x hx)
  · intro hvalid
    constructor
    case toggles =>
      intro x hx
      exact (htoggles x hx).one_iff.mpr (hvalid x hx)
    case collectors => exact hcollectors
    case grace => exact hgrace
    case noOthers =>
      intro w hw
      have hname := variableName_of_mem_warnings hw
      simp only [parsedKeys, List.mem_append, List.mem_cons, List.not_mem_nil, or_false] at hname ⊢
      rcases hname with hname | hname
      · exact .inr hname
      · exact .inl (.inr hname)
    case named =>
      intro w _
      exact w.exists_message_eq

/-- An environment in which the switch that keeps telemetry off is mistyped. -/
def mistypedSwitch (key : String) : Option String :=
  if key = "FERRY_DISABLE_TELEMETRY" then some "garbage" else none

/-- A mistyped switch leaves telemetry on without a warning, so the rule is not kept. -/
theorem mistyped_switch_silent : ¬ KeepsToRule false mistypedSwitch := by
  intro hrule
  have hmem : disableTelemetry ∈ toggles := List.mem_cons_self
  have hinvalid : disableTelemetry.Invalid mistypedSwitch :=
    ⟨"garbage", if_pos rfl, by decide, by decide⟩
  have hlength := ((hrule.toggles disableTelemetry hmem).invalid hinvalid).2
  rw [warningsOf_toggle (List.mem_map_of_mem hmem)] at hlength
  cases hlength

end Settings

end Haulage
