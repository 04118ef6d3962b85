import Haulage.Text.Basic

/-!
# Command grammars

A command takes options, positional words and sub-commands. An option is a flag or takes one value;
it has a long name and perhaps a letter. Every command offers help, and a command with a version
offers that. Every command with sub-commands has one more, which shows help.

The help of a command says what it is about and how it is used, then lists its sub-commands,
positional words and options in two columns, the second starting two blanks after the longest
entry of the first.
-/

set_option autoImplicit false

namespace Haulage

open Haulage.Text

/-- What an option is for. -/
inductive OptionKind where
  | flag
  | text
  /-- A number of 64 bits. -/
  | count
  | help
  | version
  deriving Repr, DecidableEq

/-- Whether an option of a kind takes a value. -/
def OptionKind.takesValue : OptionKind → Bool
  | .text => true
  | .count => true
  | _ => false

/-- An option of a command. -/
structure OptionSpec where
  long : String
  letter : Option Char
  kind : OptionKind
  default : Option String
  help : String
  deriving Repr, DecidableEq

namespace OptionSpec

/-- The name under which help shows the value of an option. -/
def valueName (o : OptionSpec) : String :=
  String.ofList ((upperAscii o.long).toList.map fun c => if c = '-' then '_' else c)

/-- The option that shows help. -/
def showHelp : OptionSpec :=
  ⟨"help", some 'h', .help, none, "Print help"⟩

/-- The option that shows the version. -/
def showVersion : OptionSpec :=
  ⟨"version", some 'V', .version, none, "Print version"⟩

end OptionSpec

/-- A positional word of a command. -/
structure PositionalSpec where
  name : String
  required : Bool
  /-- Whether the word can be given several times. -/
  repeats : Bool
  help : String
  deriving Repr, DecidableEq

/-- A command. -/
structure CommandSpec where
  name : String
  about : String
  options : List OptionSpec
  positionals : List PositionalSpec
  subcommands : List CommandSpec
  version : Option String
  /-- Whether the command has an option for help. -/
  offersHelp : Bool
  /-- The text below the help. -/
  closing : Option String

namespace CommandSpec

/-- The sub-command that shows help. -/
def showHelp : CommandSpec :=
  { name := "help"
    about := "Print this message or the help of the given subcommand(s)"
    options := []
    positionals := [⟨"COMMAND", false, true, "Print help for the subcommand(s)"⟩]
    subcommands := []
    version := none
    offersHelp := false
    closing := none }

/-- All sub-commands, the one for help last. -/
def allSubcommands (c : CommandSpec) : List CommandSpec :=
  if c.subcommands.isEmpty then [] else c.subcommands ++ [showHelp]

/-- All options, those for help and version last. -/
def allOptions (c : CommandSpec) : List OptionSpec :=
  c.options ++ (if c.offersHelp then [.showHelp] else []) ++
    (if c.version.isSome then [.showVersion] else [])

/-- The sub-command with a name. -/
def subcommand? (c : CommandSpec) (name : String) : Option CommandSpec :=
  c.allSubcommands.find? fun s => s.name == name

/-- The option with a long name. -/
def optionNamed? (c : CommandSpec) (long : String) : Option OptionSpec :=
  c.allOptions.find? fun o => o.long == long

/-- The option with a letter. -/
def optionLettered? (c : CommandSpec) (letter : Char) : Option OptionSpec :=
  c.allOptions.find? fun o => o.letter == some letter

/-- Whether one more positional word has a place after so many of them. -/
def hasPlace (c : CommandSpec) (given : Nat) : Bool :=
  given < c.positionals.length || (c.positionals.getLast?.any (·.repeats))

/-- The number of positional words that must be given. -/
def wordsNeeded (c : CommandSpec) : Nat :=
  (c.positionals.filter (·.required)).length

end CommandSpec

/-! ## Help texts -/

/-- A positional word as it is shown: in angle brackets when it must be given, else in square
ones. -/
def PositionalSpec.label (p : PositionalSpec) : String :=
  (if p.required then "<" ++ p.name ++ ">" else "[" ++ p.name ++ "]") ++
    (if p.repeats then "..." else "")

/-- An option as it is shown. -/
def OptionSpec.label (o : OptionSpec) : String :=
  (match o.letter with
    | some c => String.ofList ['-', c, ',', ' ']
    | none => "    ") ++
    "--" ++ o.long ++ (if o.kind.takesValue then " <" ++ o.valueName ++ ">" else "")

/-- The explanation of an option, with its default. -/
def OptionSpec.explanation (o : OptionSpec) : String :=
  match o.default with
  | some d => o.help ++ " [default: " ++ d ++ "]"
  | none => o.help

namespace CommandSpec

/-- Lines of two columns below a title; nothing when there are none. -/
def helpBlock (title : String) (rows : List (String × String)) : List String :=
  if rows.isEmpty then []
  else
    let width := rows.foldl (fun w r => max w r.1.length) 0
    let line (r : String × String) : String :=
      "  " ++ r.1 ++ String.ofList (List.replicate (width - r.1.length + 2) ' ') ++ r.2
    ["\n" ++ title ++ ":\n"] ++ rows.map fun r => line r ++ "\n"

/-- How a command is used, its name given with those above it. -/
def usage (c : CommandSpec) (path : List String) : String :=
  " ".intercalate
    (path ++ (if c.options.isEmpty then [] else ["[OPTIONS]"]) ++
      c.positionals.map PositionalSpec.label ++
      (if c.subcommands.isEmpty then [] else ["[COMMAND]"]))

/-- The help of a command. -/
def helpText (c : CommandSpec) (path : List String) : String :=
  String.join
    ([c.about ++ "\n\nUsage: " ++ c.usage path ++ "\n"] ++
      helpBlock "Commands" (c.allSubcommands.map fun s => (s.name, s.about)) ++
      helpBlock "Arguments" (c.positionals.map fun p => (p.label, p.help)) ++
      helpBlock "Options" (c.allOptions.map fun o => (o.label, o.explanation)) ++
      (match c.closing with
        | some text => ["\n" ++ text ++ "\n"]
        | none => []))

end CommandSpec

end Haulage
