import Haulage.Proofs.CommandLine.RunArguments

/-!
# Values given by an argument of their own

An option that takes a value can have it in its own argument, `--name=text`, or in the next one. The
two say the same unless the text starts with a dash and has more behind it: then the next argument
is an option or `--` and the first one is left without its value, so nothing with such a text is
accepted. A list of columns to leave out, each behind a dash, is such a text, except for the one
that names only the empty column.

- `readFrom_settle_iff`: a value that is known binds as if its option had been read with it.
- `readFrom_ne_ok_of_looksLikeOption`: an option without its value is not accepted.
- `readFrom_separate_iff`: an option and its value as two arguments.
- `separate_exclusions_iff`: columns to leave out.
-/

set_option autoImplicit false

namespace Haulage

namespace CommandLine

variable {c : CommandSpec} {path : List String}

/-! ## Settling -/

namespace Progress

variable {p q r : Progress} {o : OptionSpec}

theorem settle_of_pending_none (h : p.pending = none) : p.settle = .ok p := by
  rw [settle, h]

theorem bindValue_keeps {text : String} (h : p.bindValue o text = .ok q) :
    q.pending = p.pending ∧ q.trailing = p.trailing := by
  rw [bindValue] at h
  split at h
  · cases h
  · split at h
    · cases h
    · cases h
      exact ⟨rfl, rfl⟩

/-- Nothing is awaited once it is settled, and the arguments that follow are what they were. -/
theorem settle_keeps (h : p.settle = .ok q) : q.pending = none ∧ q.trailing = p.trailing := by
  rw [settle] at h
  split at h
  · rename_i hnone
    cases h
    exact ⟨hnone, rfl⟩
  · cases h
  · exact bindValue_keeps h

theorem awaitsValue_of_settle (h : p.settle = .ok q) : q.awaitsValue = false := by
  rw [awaitsValue, (settle_keeps h).1]
  rfl

theorem settle_of_settle (h : p.settle = .ok q) : q.settle = .ok q :=
  settle_of_pending_none (settle_keeps h).1

/-- Settling does not depend on the arguments that follow. -/
theorem settle_trailing (p : Progress) :
    { p with trailing := true }.settle = p.settle.map fun q => { q with trailing := true } := by
  obtain ⟨given, _ | ⟨o, _ | text⟩, trailing⟩ := p
  · rfl
  · rfl
  · simp only [settle, bindValue]
    split
    · rfl
    · split <;> rfl

theorem settle_trailing_eq_ok_iff :
    { p with trailing := true }.settle = .ok r ↔
      ∃ q, p.settle = .ok q ∧ { q with trailing := true } = r := by
  rw [settle_trailing]
  cases p.settle <;> simp [Except.map]

/-! ## Options settle what comes before them -/

/-- An option by its name is taken after settling. -/
theorem takeLong_eq_ok_iff {name : String} {value : Option String} :
    p.takeLong c path name value = .ok r ↔
      ∃ q, p.settle = .ok q ∧ q.takeLong c path name value = .ok r := by
  cases hsettle : p.settle with
  | error e =>
      -- a flag, a bound value and an open one all fail where settling fails
      simp only [takeLong, takeBound, takeOpen, takeFlag, hsettle, Except.map]
      grind
  | ok q => simp [takeLong, takeBound, takeOpen, takeFlag, hsettle, settle_of_settle hsettle]

/-- Letters are taken after settling, for the first of them settles. -/
theorem takeLetters_eq_ok_iff {letter : Char} {rest : List Char} :
    p.takeLetters c path (letter :: rest) = .ok r ↔
      ∃ q, p.settle = .ok q ∧ q.takeLetters c path (letter :: rest) = .ok r := by
  cases hsettle : p.settle with
  | error e =>
      simp only [takeLetters, takeBound, takeOpen, takeFlag, hsettle, Except.map]
      grind
  | ok q => simp [takeLetters, takeBound, takeOpen, takeFlag, hsettle, settle_of_settle hsettle]

end Progress

/-! ## Arguments with a dash -/

/-- An argument that starts with a dash and has more behind it. -/
def LooksLikeOption (argument : String) : Prop :=
  ∃ next rest, argument.toList = '-' :: next :: rest

theorem read_of_not_looksLikeOption {argument : String} (h : ¬LooksLikeOption argument) :
    Token.read argument = .word argument := by
  rw [Token.read]
  split
  · rename_i rest hchars
    exact absurd ⟨'-', rest, hchars⟩ h
  · rename_i next rest _ hchars
    exact absurd ⟨next, rest, hchars⟩ h
  · rfl

theorem read_of_looksLikeOption {argument : String} (h : LooksLikeOption argument) :
    Token.read argument = .escape ∨ (∃ name value, Token.read argument = .long name value) ∨
      ∃ letter rest, Token.read argument = .letters (letter :: rest) := by
  obtain ⟨next, rest, hchars⟩ := h
  rw [Token.read, hchars]
  grind

/-! ## Taking one argument -/

namespace Progress

variable {p q r : Progress} {o : OptionSpec} {argument : String}

theorem take_escape (htrailing : p.trailing = false) (h : Token.read argument = .escape) :
    p.take c path argument = .ok { p with trailing := true } := by
  simp [take, htrailing, h]

/-- An option settles what comes before it. -/
theorem take_eq_ok_iff (htrailing : p.trailing = false) (h : LooksLikeOption argument)
    (hescape : Token.read argument ≠ .escape) :
    p.take c path argument = .ok r ↔ ∃ q, p.settle = .ok q ∧ q.take c path argument = .ok r := by
  have hq : ∀ q, p.settle = .ok q → q.trailing = false := fun q hsettle =>
    (settle_keeps hsettle).2.trans htrailing
  rcases read_of_looksLikeOption h with hread | ⟨name, value, hread⟩ | ⟨letter, rest, hread⟩
  · exact absurd hread hescape
  · -- taking such an argument is taking the option, before and after settling
    have htake : ∀ s : Progress, s.trailing = false →
        s.take c path argument = s.takeLong c path name value :=
          fun s hs => by simp [take, hs, hread]
    rw [htake p htrailing, takeLong_eq_ok_iff]
    exact exists_congr fun q => and_congr_right fun hsettle => by rw [htake q (hq q hsettle)]
  · have htake : ∀ s : Progress, s.trailing = false →
        s.take c path argument = s.takeLetters c path (letter :: rest) := fun s hs => by
      simp [take, hs, hread]
    rw [htake p htrailing, takeLetters_eq_ok_iff]
    exact exists_congr fun q => and_congr_right fun hsettle => by rw [htake q (hq q hsettle)]

/-- A word is the value of the option before it. -/
theorem take_value (htrailing : p.trailing = false) (hpending : p.pending = some ⟨o, none⟩)
    (h : ¬LooksLikeOption argument) :
    p.take c path argument = .ok { p with pending := some ⟨o, some argument⟩ } := by
  simp [take, htrailing, read_of_not_looksLikeOption h, hpending]

theorem takeWord_ne_ok (h : c.HasOptionsOnly) : p.takeWord c argument ≠ .ok r := by
  simp [takeWord, CommandSpec.hasPlace, h.noPositionals]

/-- Words have no place of their own. -/
theorem take_ne_ok_of_word (h : c.HasOptionsOnly) (hawaits : p.awaitsValue = false)
    (hword : ¬LooksLikeOption argument) : p.take c path argument ≠ .ok r := by
  have htake : p.take c path argument = p.takeWord c argument := by
    rw [take, read_of_not_looksLikeOption hword]
    obtain ⟨given, _ | ⟨o, _ | text⟩, trailing⟩ := p
    · exact ite_self _
    · cases hawaits
    · exact ite_self _
  rw [htake]
  exact takeWord_ne_ok h

theorem take_ne_ok_of_trailing (h : c.HasOptionsOnly) (htrailing : p.trailing = true) :
    p.take c path argument ≠ .ok r := by
  rw [take, if_pos htrailing]
  exact takeWord_ne_ok h

end Progress

/-! ## Reading all arguments -/

section Reading

variable {p : Progress} {o : OptionSpec} {arguments : List String} {choice : Choice}

theorem readFrom_append_eq_ok_iff (h : c.HasOptionsOnly) {before after : List String} :
    readFrom c path p (before ++ after) = .ok choice ↔
      ∃ q, p.takeAll c path before = .ok q ∧ readFrom c path q after = .ok choice := by
  simp only [readFrom_eq_ok_iff h, Progress.takeAll_append_eq_ok_iff]
  grind

theorem readFrom_cons_eq_ok_iff (h : c.HasOptionsOnly) {argument : String} :
    readFrom c path p (argument :: arguments) = .ok choice ↔
      ∃ q, p.take c path argument = .ok q ∧ readFrom c path q arguments = .ok choice := by
  simp only [readFrom_eq_ok_iff h, Progress.takeAll_cons_eq_ok_iff]
  grind

/-- When no option waits for its value, what is pending can be settled at once. -/
theorem readFrom_settle_iff (h : c.HasOptionsOnly) (hawaits : p.awaitsValue = false) :
    readFrom c path p arguments = .ok choice ↔
      ∃ q, p.settle = .ok q ∧ readFrom c path q arguments = .ok choice := by
  induction arguments generalizing p with
  | nil =>
      simp only [readFrom, Progress.finish]
      cases hsettle : p.settle with
      | error e => simp [Except.map]
      | ok q => simp [Progress.settle_of_settle hsettle]
  | cons argument more ih =>
      simp only [readFrom_cons_eq_ok_iff h]
      by_cases htrailing : p.trailing = true
      · -- nothing has a place any more, before and after settling
        constructor
        · rintro ⟨r, htake, -⟩
          exact absurd htake (Progress.take_ne_ok_of_trailing h htrailing)
        · rintro ⟨q, hsettle, r, htake, -⟩
          exact absurd htake
            (Progress.take_ne_ok_of_trailing h ((Progress.settle_keeps hsettle).2.trans htrailing))
      rw [Bool.not_eq_true] at htrailing
      by_cases hoption : LooksLikeOption argument
      · by_cases hescape : Token.read argument = .escape
        · -- the end of the options settles nothing itself
          have hmark : { p with trailing := true }.awaitsValue = false := hawaits
          constructor
          · rintro ⟨_, htake, hmore⟩
            rw [Progress.take_escape htrailing hescape] at htake
            cases htake
            obtain ⟨q', hsettle', hread⟩ := (ih hmark).mp hmore
            obtain ⟨q, hsettle, rfl⟩ := Progress.settle_trailing_eq_ok_iff.mp hsettle'
            exact ⟨q, hsettle, _,
              Progress.take_escape ((Progress.settle_keeps hsettle).2.trans htrailing) hescape,
              hread⟩
          · rintro ⟨q, hsettle, r, htake, hmore⟩
            rw [Progress.take_escape ((Progress.settle_keeps hsettle).2.trans htrailing)
              hescape] at htake
            cases htake
            have hmarked := Progress.settle_trailing_eq_ok_iff.mpr ⟨q, hsettle, rfl⟩
            exact ⟨_, Progress.take_escape htrailing hescape, (ih hmark).mpr ⟨_, hmarked, hmore⟩⟩
        · constructor
          · rintro ⟨r, htake, hmore⟩
            obtain ⟨q, hsettle, hq⟩ := (Progress.take_eq_ok_iff htrailing hoption hescape).mp htake
            exact ⟨q, hsettle, r, hq, hmore⟩
          · rintro ⟨q, hsettle, r, htake, hmore⟩
            exact ⟨r, (Progress.take_eq_ok_iff htrailing hoption hescape).mpr ⟨q, hsettle, htake⟩,
              hmore⟩
      · constructor
        · rintro ⟨r, htake, -⟩
          exact absurd htake (Progress.take_ne_ok_of_word h hawaits hoption)
        · rintro ⟨q, hsettle, r, htake, -⟩
          exact absurd htake
            (Progress.take_ne_ok_of_word h (Progress.awaitsValue_of_settle hsettle) hoption)

/-- An option whose value is still to come gets none from an argument that looks like an option. -/
theorem readFrom_ne_ok_of_looksLikeOption (h : c.HasOptionsOnly) {text : String}
    (hpending : p.pending = some ⟨o, none⟩) (hoption : LooksLikeOption text) :
    readFrom c path p (text :: arguments) ≠ .ok choice := by
  intro hread
  obtain ⟨q, htake, hmore⟩ := (readFrom_cons_eq_ok_iff h).mp hread
  have hsettle : p.settle = .error .invalidValue := by rw [Progress.settle, hpending]
  cases htrailing : p.trailing with
  | true => exact absurd htake (Progress.take_ne_ok_of_trailing h htrailing)
  | false =>
      by_cases hescape : Token.read text = .escape
      · rw [Progress.take_escape htrailing hescape] at htake
        cases htake
        -- no argument has a place any more, and the end comes before the value
        cases arguments with
        | nil =>
            rw [readFrom, Progress.finish, Progress.settle_trailing, hsettle] at hmore
            cases hmore
        | cons argument more =>
            obtain ⟨r, hword, -⟩ := (readFrom_cons_eq_ok_iff h).mp hmore
            exact absurd hword (Progress.take_ne_ok_of_trailing h rfl)
      · obtain ⟨q, hq, -⟩ := (Progress.take_eq_ok_iff htrailing hoption hescape).mp htake
        rw [hsettle] at hq
        cases hq

end Reading

/-! ## An option and its value -/

/-- An argument that names an option and gives it no value. -/
inductive Names (c : CommandSpec) (o : OptionSpec) : String → Prop
  | long {argument : String} (hread : Token.read argument = .long o.long none)
      (hnamed : c.optionNamed? o.long = some o) : Names c o argument
  | letter {argument : String} {letter : Char} (hread : Token.read argument = .letters [letter])
      (hlettered : c.optionLettered? letter = some o) : Names c o argument

section Value

variable {o : OptionSpec}

theorem Progress.take_of_names {p : Progress} {argument : String}
    (htakes : o.kind.takesValue = true) (hnames : Names c o argument)
    (htrailing : p.trailing = false) :
    p.take c path argument = p.takeOpen o := by
  cases hnames with
  | long hread hnamed => simp [take, htrailing, hread, takeLong, hnamed, htakes]
  | letter hread hlettered => simp [take, htrailing, hread, takeLetters, hlettered, htakes]

theorem Progress.take_attached {p : Progress} (htakes : o.kind.takesValue = true)
    (hname : IsOptionName o.long) (hnamed : c.optionNamed? o.long = some o)
    (htrailing : p.trailing = false) (text : String) :
    p.take c path ("--" ++ o.long ++ "=" ++ text) = p.takeBound o text := by
  simp [take, htrailing, read_argument_value hname, takeLong, hnamed, htakes]

/-- An option and its value as two arguments do what they do as one, unless the value looks like an
option: then nothing is accepted. -/
theorem readFrom_separate_iff (h : c.HasOptionsOnly) (htakes : o.kind.takesValue = true)
    (hname : IsOptionName o.long) (hnamed : c.optionNamed? o.long = some o) {argument : String}
    (hnames : Names c o argument) {p : Progress} {text : String} {after : List String}
    {choice : Choice} :
    readFrom c path p (argument :: text :: after) = .ok choice ↔
      ¬LooksLikeOption text ∧
        readFrom c path p (("--" ++ o.long ++ "=" ++ text) :: after) = .ok choice := by
  rw [readFrom_cons_eq_ok_iff h, readFrom_cons_eq_ok_iff h]
  cases htrailing : p.trailing with
  | true =>
      have hne : ∀ {argument : String} {r : Progress}, p.take c path argument ≠ .ok r :=
        Progress.take_ne_ok_of_trailing h htrailing
      simp [hne]
  | false =>
      rw [Progress.take_of_names htakes hnames htrailing,
        Progress.take_attached htakes hname hnamed htrailing, Progress.takeOpen, Progress.takeBound]
      cases hsettle : p.settle with
      | error e => simp [Except.map]
      | ok s =>
          simp only [Except.map, Except.ok.injEq, exists_eq_left']
          obtain ⟨hnone, hstill⟩ := Progress.settle_keeps hsettle
          by_cases hoption : LooksLikeOption text
          · have hrefused : readFrom c path { s with pending := some ⟨o, none⟩ } (text :: after) ≠
                .ok choice :=
              readFrom_ne_ok_of_looksLikeOption h rfl hoption
            simp [hoption, hrefused]
          · -- the value is known now; settling it at once binds it as the attached form does
            have hvalue : ({ s with pending := some ⟨o, none⟩ } : Progress).take c path text =
                .ok { s with pending := some ⟨o, some text⟩ } :=
              Progress.take_value (hstill.trans htrailing) rfl hoption
            have hbind : ({ s with pending := some ⟨o, some text⟩ } : Progress).settle =
                s.bindValue o text := by
              rw [Progress.settle, ← hnone]
            rw [readFrom_cons_eq_ok_iff h, hvalue]
            simp only [Except.ok.injEq, exists_eq_left', hoption, not_false_eq_true, true_and]
            rw [readFrom_settle_iff h rfl, hbind]

end Value

end CommandLine

/-! ## A selection -/

section Selection

open CommandLine

variable {o : RunOptions} {text : String}

/-- A selection is one assignment more. -/
theorem RunOptions.assignments_select (h : o.selection = none) (text : String) :
    ({ o with selection := some text } : RunOptions).assignments.Perm
      (.value "select" text :: o.assignments) := by
  have hwith : ({ o with selection := some text } : RunOptions).values =
      o.values.take 6 ++ ("select", some text) :: o.values.drop 7 := rfl
  have hwithout : o.values = o.values.take 6 ++ ("select", none) :: o.values.drop 7 := by
    rw [← h]
    rfl
  have hswitches : ({ o with selection := some text } : RunOptions).switches = o.switches := rfl
  rw [assignments, assignments, hwith, hswitches]
  conv_rhs => rw [hwithout]
  simp only [List.filterMap_append, List.filterMap_cons, Option.map_some, Option.map_none,
    List.append_assoc, List.cons_append]
  exact List.perm_middle

/-- Arguments of a run without a selection give it one with one argument more. -/
theorem RunOptions.Spelling.select {before after : List String} (h : o.Spelling (before ++ after))
    (hnone : o.selection = none) (text : String) :
    ({ o with selection := some text } : RunOptions).Spelling
      (before ++ ("--select=" ++ text) :: after) := by
  have hassignments := RunOptions.assignments_select hnone text
  -- where the argument stands does not matter
  have hadd : ∀ {arguments : List String}, (before ++ after).Perm arguments →
      (before ++ ("--select=" ++ text) :: after).Perm (("--select=" ++ text) :: arguments) :=
    fun hperm => List.perm_middle.trans (hperm.cons _)
  cases h with
  | full h => exact .full ((hadd h).trans (hassignments.map Assignment.argument).symm)
  | withoutMode hmode h =>
      have hfilter := (hassignments.filter fun a => a.name != "mode").map Assignment.argument
      rw [List.filter_cons_of_pos rfl] at hfilter
      exact .withoutMode hmode ((hadd h).trans hfilter.symm)

end Selection

namespace CommandLine

theorem command_run_eq_ok_iff {arguments : List String} {selected : Command} :
    command ("run" :: arguments) = .ok selected ↔
      ∃ choice, readFrom runSpec ["ferry", "run"] .start arguments = .ok choice ∧
        choice.command = selected := by
  rw [command_run]
  cases readFrom runSpec ["ferry", "run"] .start arguments <;> simp [Except.map]

/-- The selection of a run and its text as two arguments. -/
theorem command_separate_iff {argument : String} (hargument : argument ∈ ["--select", "-s"])
    (before after : List String) (text : String) (selected : Command) :
    command ("run" :: before ++ argument :: text :: after) = .ok selected ↔
      ¬LooksLikeOption text ∧
        command ("run" :: before ++ ("--select=" ++ text) :: after) = .ok selected := by
  have hkind : runSpec.kind? "select" = some .text := by decide
  have hletter : runSpec.optionLettered? 's' = runSpec.optionNamed? "select" := by decide
  obtain ⟨o, hnamed, hlong, htext⟩ := exists_of_kind?_eq hkind
  have hnames : Names runSpec o argument := by
    rcases List.mem_cons.mp hargument with rfl | hshort
    · exact .long (by rw [hlong]; decide) (by rw [hlong, hnamed])
    · rw [List.mem_singleton.mp hshort]
      exact .letter (by decide) (hletter.trans hnamed)
  have hattached : "--" ++ o.long ++ "=" ++ text = "--select=" ++ text := by
    rw [hlong]
    rfl
  have hread : ∀ (p : Progress) (choice : Choice),
      readFrom runSpec ["ferry", "run"] p (argument :: text :: after) = .ok choice ↔
        ¬LooksLikeOption text ∧
          readFrom runSpec ["ferry", "run"] p (("--select=" ++ text) :: after) = .ok choice := by
    intro p choice
    rw [← hattached]
    exact readFrom_separate_iff hasOptionsOnly_runSpec (by rw [htext]; rfl)
      (by rw [hlong]; decide) (by rw [hlong, hnamed]) hnames
  simp only [List.cons_append, command_run_eq_ok_iff,
    readFrom_append_eq_ok_iff hasOptionsOnly_runSpec, hread]
  grind

/-! ## Columns to leave out -/

/-- The selection that leaves columns out: each name behind a dash. -/
def exclusionText (names : List String) : String :=
  Text.join ',' (names.map fun name => "-" ++ name)

theorem looksLikeOption_exclusionText_iff {names : List String} (h : names ≠ []) :
    LooksLikeOption (exclusionText names) ↔ names ≠ [""] := by
  obtain ⟨name, more, rfl⟩ := List.exists_cons_of_ne_nil h
  have hdash : ("-" ++ name).toList = '-' :: name.toList := String.toList_append
  cases more with
  | nil =>
      have htext : (exclusionText [name]).toList = '-' :: name.toList := by
        rw [exclusionText, Text.join, String.toList_ofList, ← hdash]
        rfl
      rw [LooksLikeOption, htext, Ne, List.cons.injEq, ← String.toList_eq_nil_iff]
      cases name.toList <;> simp
  | cons next more =>
      have htext : ∃ rest, (exclusionText (name :: next :: more)).toList =
          '-' :: (name.toList ++ ',' :: rest) := by
        rw [exclusionText, Text.join, String.toList_ofList]
        simp only [List.map_cons, Text.joinChars, hdash]
        exact ⟨_, rfl⟩
      obtain ⟨rest, htext⟩ := htext
      rw [LooksLikeOption, htext]
      cases name.toList <;> simp

/-- Columns to leave out, given as an argument of their own, are refused unless the empty column is
the only one; attached to the option they are accepted with all other options of a run. -/
theorem separate_exclusions_iff {names : List String} (hnames : names ≠ []) :
    (∀ argument ∈ ["--select", "-s"], ∀ (before after : List String) (selected : Command),
      command ("run" :: before ++ argument :: exclusionText names :: after) = .ok selected ↔
        names = [""] ∧
          command ("run" :: before ++ ("--select=" ++ exclusionText names) :: after) =
            .ok selected) ∧
    ∀ (o : RunOptions) (before after : List String),
      o.selection = none → o.Spelling (before ++ after) →
        command ("run" :: before ++ ("--select=" ++ exclusionText names) :: after) =
          .ok (.run { o with selection := some (exclusionText names) }) := by
  constructor
  · intro argument hargument before after selected
    rw [command_separate_iff hargument, looksLikeOption_exclusionText_iff hnames, not_ne_iff]
  · intro o before after hnone hspelling
    obtain ⟨g, hread, hoptions⟩ :=
      (hspelling.select hnone (exclusionText names)).exists_readFrom ["ferry", "run"]
    exact command_run_eq_ok_iff.mpr ⟨_, hread, congrArg Command.run hoptions⟩

/-- A run of at most five rows to standard output. -/
def shortRun : RunOptions where
  sourceConnection := none
  sourceStream := none
  sourceOptions := none
  targetConnection := none
  targetObject := none
  targetOptions := none
  selection := none
  streams := none
  toStdout := true
  environment := none
  mode := "full-refresh"
  limit := some 5
  primaryKey := none
  updateKey := none
  debug := false

theorem spelling_shortRun : shortRun.Spelling ["--stdout", "--limit=5"] := by
  refine .withoutMode rfl ?_
  decide +kernel

theorem separate_exclusions_shortRun :
    ["debit", "email"] ≠ [] ∧ shortRun.selection = none ∧
      shortRun.Spelling ["--stdout", "--limit=5"] ∧
      (∀ selected, command ["run", "--stdout", "-s", "-debit,-email", "--limit=5"] ≠ .ok selected) ∧
      command ["run", "--stdout", "--select=-debit,-email", "--limit=5"] =
        .ok (.run { shortRun with selection := some "-debit,-email" }) := by
  have hnames := List.cons_ne_nil "debit" ["email"]
  obtain ⟨hseparate, hattached⟩ := separate_exclusions_iff hnames
  refine ⟨hnames, rfl, spelling_shortRun, fun selected hselected => ?_, ?_⟩
  · have honly := (hseparate "-s" (by decide) ["--stdout"] ["--limit=5"] selected).mp hselected
    exact absurd honly.1 (by decide)
  · exact hattached shortRun ["--stdout"] ["--limit=5"] rfl spelling_shortRun

/-- One column to leave out, as an argument of its own and attached. -/
theorem exclusion_refused :
    command ["run", "--select", exclusionText ["email"]] = .error .unknownArgument ∧
      command ["run", "-s", exclusionText ["debit"]] = .error .invalidValue ∧
      ∀ name ∈ ["email", "debit"],
        command ["run", "--select=" ++ exclusionText [name]] =
          .ok (.run { shortRun with
            selection := some ("-" ++ name), toStdout := false, limit := none }) := by
  decide +kernel

end CommandLine

end Haulage
