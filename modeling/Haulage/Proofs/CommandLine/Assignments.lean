import Haulage.CommandLine.Reader
import Haulage.Proofs.Text.Words
import Mathlib.Data.List.Nodup
import Mathlib.Data.List.Perm.Basic

/-!
# Options given by one argument each

`--name` gives a flag and `--name=text` a value, whatever characters the text holds. A command
without words and sub-commands takes such arguments in any order, as long as its grammar has their
names, no name comes twice and counts are given as numbers. What was given then holds these flags
and values and nothing else.

- `read_argument_flag`, `read_argument_value`: the form of such an argument.
- `readFrom_eq_ok_iff`: reading is taking one argument after the other and finishing.
- `take_argument`: what one such argument does.
- `takeAll_arguments`: what a list of them does.
- `Given.value?_foldl_assign_iff`, `Given.hasFlag_foldl_assign_iff`: what was given afterwards.
-/

set_option autoImplicit false

namespace Haulage

open Haulage.Text

/-- The kind of the option with a long name. -/
def CommandSpec.kind? (c : CommandSpec) (name : String) : Option OptionKind :=
  (c.optionNamed? name).map (·.kind)

/-- A grammar of options only, with no place for a word and no sub-commands. -/
structure CommandSpec.HasOptionsOnly (c : CommandSpec) : Prop where
  noPositionals : c.positionals = []
  noSubcommands : c.subcommands = []

namespace CommandLine

variable {c : CommandSpec} {path : List String}

/-! ## Taking arguments one after the other -/

namespace Progress

/-- How far the arguments of a command have been read after some more of them. -/
def takeAll (p : Progress) (c : CommandSpec) (path : List String) :
    List String → Except Rejection Progress
  | [] => .ok p
  | argument :: more =>
    match p.take c path argument with
    | .error e => .error e
    | .ok q => q.takeAll c path more

variable {p r : Progress}

theorem takeAll_cons_eq_ok_iff {argument : String} {more : List String} :
    p.takeAll c path (argument :: more) = .ok r ↔
      ∃ q, p.take c path argument = .ok q ∧ q.takeAll c path more = .ok r := by
  rw [takeAll]
  cases p.take c path argument <;> simp

theorem takeAll_append_eq_ok_iff {before after : List String} :
    p.takeAll c path (before ++ after) = .ok r ↔
      ∃ q, p.takeAll c path before = .ok q ∧ q.takeAll c path after = .ok r := by
  induction before generalizing p with
  | nil => simp [takeAll]
  | cons argument more ih =>
      simp only [List.cons_append, takeAll_cons_eq_ok_iff, ih]
      constructor
      · rintro ⟨q, htake, q', hmore, hafter⟩
        exact ⟨q', ⟨q, htake, hmore⟩, hafter⟩
      · rintro ⟨q', ⟨q, htake, hmore⟩, hafter⟩
        exact ⟨q, htake, q', hmore, hafter⟩

end Progress

theorem subcommand?_eq_none (h : c.HasOptionsOnly) (name : String) : c.subcommand? name = none := by
  rw [CommandSpec.subcommand?, CommandSpec.allSubcommands, h.noSubcommands]
  rfl

/-- A command of options only is read by taking its arguments and finishing. -/
theorem readFrom_eq_ok_iff (h : c.HasOptionsOnly) {p : Progress} {arguments : List String}
    {choice : Choice} :
    readFrom c path p arguments = .ok choice ↔
      ∃ q g, p.takeAll c path arguments = .ok q ∧ q.finish c = .ok g ∧ choice = ⟨path, g⟩ := by
  induction arguments generalizing p with
  | nil =>
      rw [readFrom, Progress.takeAll]
      cases hfinish : p.finish c <;> simp [Except.map, hfinish, eq_comm]
  | cons argument more ih =>
      rw [readFrom, subcommand?_eq_none h, ite_self]
      simp only [Progress.takeAll]
      cases p.take c path argument with
      | error e => simp
      | ok q => exact ih

/-! ## Assignments -/

/-- An option as one argument gives it. -/
inductive Assignment where
  | flag (name : String)
  | value (name text : String)

/-- A name that an argument can give in full. -/
def IsOptionName (name : String) : Prop :=
  name ≠ "" ∧ '=' ∉ name.toList

instance (name : String) : Decidable (IsOptionName name) :=
  inferInstanceAs (Decidable (_ ∧ _))

namespace Assignment

/-- The name of the option. -/
def name : Assignment → String
  | .flag name => name
  | .value name _ => name

/-- The argument. -/
def argument : Assignment → String
  | .flag name => "--" ++ name
  | .value name text => "--" ++ name ++ "=" ++ text

/-- An assignment that a grammar allows. -/
inductive Suits (c : CommandSpec) : Assignment → Prop
  | flag {name : String} (hname : IsOptionName name) (hkind : c.kind? name = some .flag) :
      Suits c (.flag name)
  | text {name text : String} (hname : IsOptionName name) (hkind : c.kind? name = some .text) :
      Suits c (.value name text)
  | count {name text : String} (hname : IsOptionName name) (hkind : c.kind? name = some .count)
      (hcount : (readCount? text).isSome = true) : Suits c (.value name text)

end Assignment

/-- The form of an argument that gives a flag. -/
theorem read_argument_flag {name : String} (h : IsOptionName name) :
    Token.read ("--" ++ name) = .long name none := by
  have hchars : ("--" ++ name).toList = '-' :: '-' :: name.toList := String.toList_append
  have hne : name.toList.isEmpty = false := by simpa using h.1
  have hsplit : splitFirst? '=' name = none := splitFirst?_eq_none_iff.mpr h.2
  simp only [Token.read, hchars, hne, Bool.false_eq_true, if_false, String.ofList_toList, hsplit]

/-- The form of an argument that gives a value. -/
theorem read_argument_value {name : String} (h : IsOptionName name) (text : String) :
    Token.read ("--" ++ name ++ "=" ++ text) = .long name (some text) := by
  have hchars : ("--" ++ name ++ "=" ++ text).toList =
      '-' :: '-' :: (name.toList ++ '=' :: text.toList) := by
    simp only [String.toList_append, List.append_assoc]
    rfl
  have hne : (name.toList ++ '=' :: text.toList).isEmpty = false := by simp
  have hsplit : splitFirst? '=' (String.ofList (name.toList ++ '=' :: text.toList)) =
      some (name, text) := splitFirst?_eq_some_iff.mpr ⟨String.toList_ofList, h.2⟩
  simp only [Token.read, hchars, hne, Bool.false_eq_true, if_false, hsplit]

/-! ## What was given -/

namespace Given

/-- What was given, with one option more. -/
def assign (g : Given) : Assignment → Given
  | .flag name => { g with flags := name :: g.flags }
  | .value name text => { g with values := (name, text) :: g.values }

/-- An option that was not given so far. -/
def Lacks (g : Given) (name : String) : Prop :=
  g.hasFlag name = false ∧ g.value? name = none

variable {g : Given} {a : Assignment} {assignments : List Assignment} {name text : String}

theorem value?_assign_flag (g : Given) (name other : String) :
    (g.assign (.flag name)).value? other = g.value? other :=
  rfl

theorem value?_assign_value (g : Given) (name text other : String) :
    (g.assign (.value name text)).value? other = if name =
      other then some text else g.value? other := by
  by_cases h : name = other <;> simp [assign, value?, h]

theorem hasFlag_assign_value (g : Given) (name text other : String) :
    (g.assign (.value name text)).hasFlag other = g.hasFlag other :=
  rfl

theorem hasFlag_assign_flag (g : Given) (name other : String) :
    (g.assign (.flag name)).hasFlag other = (other == name || g.hasFlag other) := by
  rw [assign, hasFlag, List.contains_cons]
  rfl

/-- An option of another name does not count as given. -/
theorem Lacks.assign (h : g.Lacks name) (hne : a.name ≠ name) : (g.assign a).Lacks name := by
  cases a with
  | flag other =>
      refine ⟨?_, h.2⟩
      have hbeq : (name == other) = false := beq_eq_false_iff_ne.mpr (Ne.symm hne)
      rw [hasFlag_assign_flag, hbeq, h.1]
      rfl
  | value other text =>
      have hother : other ≠ name := hne
      refine ⟨h.1, ?_⟩
      rw [value?_assign_value, if_neg hother]
      exact h.2

theorem hasFlag_foldl_assign_iff :
    (assignments.foldl assign g).hasFlag name = true ↔
      g.hasFlag name = true ∨ .flag name ∈ assignments := by
  induction assignments generalizing g with
  | nil => simp
  | cons a more ih =>
      rw [List.foldl_cons, ih, List.mem_cons]
      cases a with
      | flag other => simp [hasFlag_assign_flag, or_assoc, or_left_comm]
      | value other text => simp [hasFlag_assign_value]

theorem value?_foldl_assign_iff (hnames : (assignments.map Assignment.name).Nodup)
    (hlacks : ∀ a ∈ assignments, g.Lacks a.name) :
    (assignments.foldl assign g).value? name = some text ↔
      g.value? name = some text ∨ .value name text ∈ assignments := by
  induction assignments generalizing g with
  | nil => simp
  | cons a more ih =>
      rw [List.map_cons, List.nodup_cons] at hnames
      obtain ⟨ha, hmore⟩ := List.forall_mem_cons.mp hlacks
      -- the names differ, so what is assigned first leaves the others lacking
      have hstill : ∀ b ∈ more, (g.assign a).Lacks b.name := by
        intro b hb
        refine (hmore b hb).assign fun heq => hnames.1 ?_
        exact heq ▸ List.mem_map_of_mem hb
      rw [List.foldl_cons, ih hnames.2 hstill, List.mem_cons]
      cases a with
      | flag other => simp [value?_assign_flag]
      | value other value =>
          rw [value?_assign_value]
          by_cases heq : other = name
          · subst heq
            have hnone : g.value? other = none := ha.2
            simp [hnone, eq_comm]
          · simp [heq, Ne.symm heq]

end Given

/-! ## Reading assignments -/

/-- Nothing is awaited, and options can still be given. -/
def Progress.ready (g : Given) : Progress :=
  ⟨g, none, false⟩

theorem exists_of_kind?_eq {name : String} {kind : OptionKind} (h : c.kind? name = some kind) :
    ∃ o, c.optionNamed? name = some o ∧ o.long = name ∧ o.kind = kind := by
  obtain ⟨o, ho, hkind⟩ := Option.map_eq_some_iff.mp h
  exact ⟨o, ho, by simpa using List.find?_some ho, hkind⟩

/-- One such argument is taken when its option was not given before. -/
theorem take_argument {g : Given} {a : Assignment} (hsuits : a.Suits c) (hlacks : g.Lacks a.name) :
    (Progress.ready g).take c path a.argument = .ok (.ready (g.assign a)) := by
  cases hsuits with
  | @flag name hname hkind =>
      obtain ⟨o, ho, rfl, hflag⟩ := exists_of_kind?_eq hkind
      have hgiven : g.hasFlag o.long = false := hlacks.1
      rw [Progress.take, Assignment.argument, read_argument_flag hname]
      simp [Progress.takeLong, ho, hflag, OptionKind.takesValue, Progress.takeFlag, Progress.settle,
        Progress.ready, hgiven, Given.assign]
  | @text name text hname hkind =>
      obtain ⟨o, ho, rfl, htext⟩ := exists_of_kind?_eq hkind
      have hgiven : g.value? o.long = none := hlacks.2
      rw [Progress.take, Assignment.argument, read_argument_value hname]
      simp [Progress.takeLong, ho, htext, OptionKind.takesValue, Progress.takeBound,
        Progress.settle, Progress.bindValue, Progress.ready, hgiven, Given.assign]
  | @count name text hname hkind hcount =>
      obtain ⟨o, ho, rfl, hnumber⟩ := exists_of_kind?_eq hkind
      have hgiven : g.value? o.long = none := hlacks.2
      have hreads : readCount? text ≠ none := Option.isSome_iff_ne_none.mp hcount
      rw [Progress.take, Assignment.argument, read_argument_value hname]
      simp [Progress.takeLong, ho, hnumber, OptionKind.takesValue, Progress.takeBound,
        Progress.settle, Progress.bindValue, Progress.ready, hgiven, hreads, Given.assign]

/-- Such arguments are taken in any order when no option is given twice. -/
theorem takeAll_arguments {g : Given} {assignments : List Assignment}
    (hsuits : ∀ a ∈ assignments, a.Suits c) (hnames : (assignments.map Assignment.name).Nodup)
    (hlacks : ∀ a ∈ assignments, g.Lacks a.name) :
    (Progress.ready g).takeAll c path (assignments.map Assignment.argument) =
      .ok (.ready (assignments.foldl Given.assign g)) := by
  induction assignments generalizing g with
  | nil => rfl
  | cons a more ih =>
      obtain ⟨ha, hmoreSuits⟩ := List.forall_mem_cons.mp hsuits
      obtain ⟨halacks, hmoreLacks⟩ := List.forall_mem_cons.mp hlacks
      rw [List.map_cons, List.nodup_cons] at hnames
      rw [List.map_cons, Progress.takeAll_cons_eq_ok_iff]
      refine ⟨_, take_argument ha halacks, ?_⟩
      refine ih hmoreSuits hnames.2 fun b hb => (hmoreLacks b hb).assign fun heq => hnames.1 ?_
      exact heq ▸ List.mem_map_of_mem hb

end CommandLine

end Haulage
