import Haulage.CommandLine.Grammar
import Haulage.Numeric.Decimal
import Haulage.Text.Basic

/-!
# Reading a command line

The arguments are read from left to right. A name of a sub-command hands the rest to that command.
`--` makes all that follows positional. `--name=value` and `-nvalue` bind a value at once; `--name`
and `-n` take the next argument as their value unless that looks like an option. Letters of flags
can share one dash. A value is checked when it is settled: at the next option or positional word, or
at the end. Each option can be given once.
-/

set_option autoImplicit false

namespace Haulage.CommandLine

open Haulage.Text

/-- Why the arguments do not select a command to run. -/
inductive Rejection where
  | unknownArgument
  | invalidSubcommand
  | missingRequiredArgument
  | invalidValue
  | valueValidation
  | argumentConflict
  | tooManyValues
  | displayHelp (text : String)
  | displayVersion (text : String)
  deriving Repr, DecidableEq

/-- The name of a rejection. -/
def Rejection.name : Rejection → String
  | .unknownArgument => "UnknownArgument"
  | .invalidSubcommand => "InvalidSubcommand"
  | .missingRequiredArgument => "MissingRequiredArgument"
  | .invalidValue => "InvalidValue"
  | .valueValidation => "ValueValidation"
  | .argumentConflict => "ArgumentConflict"
  | .tooManyValues => "TooManyValues"
  | .displayHelp _ => "DisplayHelp"
  | .displayVersion _ => "DisplayVersion"

/-- A rejection in words. -/
def Rejection.words : Rejection → String
  | .unknownArgument => "unexpected argument"
  | .invalidSubcommand => "unrecognized subcommand"
  | .missingRequiredArgument => "a required argument was not provided"
  | .invalidValue => "a value is required for an option but none was supplied"
  | .valueValidation => "invalid value for an option"
  | .argumentConflict => "an option cannot be used multiple times"
  | .tooManyValues => "unexpected value for an option"
  | .displayHelp text => text
  | .displayVersion text => text

/-- What was given to a command: flags and values by the long names of their options, the last one
first, and the positional words in order. -/
structure Given where
  flags : List String
  values : List (String × String)
  words : List String
  deriving Repr, DecidableEq

namespace Given

/-- Nothing. -/
def nothing : Given :=
  ⟨[], [], []⟩

/-- The value of an option. -/
def value? (g : Given) (long : String) : Option String :=
  (g.values.find? fun v => v.1 == long).map Prod.snd

/-- Whether a flag was given. -/
def hasFlag (g : Given) (long : String) : Bool :=
  g.flags.contains long

end Given

/-- A number of 64 bits in decimal digits, perhaps after a plus sign. -/
def readCount? (s : String) : Option UInt64 :=
  let digits := (dropLead? ['+'] s.toList).getD s.toList
  if !digits.isEmpty && digits.all Numeric.isDecimalDigit &&
    Numeric.ofDigits digits < UInt64.size then
    some (UInt64.ofNat (Numeric.ofDigits digits))
  else none

/-- An argument by its form. -/
inductive Token where
  | escape
  | long (name : String) (value : Option String)
  | letters (cs : List Char)
  | word (s : String)
  deriving Repr, DecidableEq

/-- The form of an argument. -/
def Token.read (argument : String) : Token :=
  match argument.toList with
  | '-' :: '-' :: rest =>
    if rest.isEmpty then .escape
    else
      match splitFirst? '=' (String.ofList rest) with
      | some (name, value) => .long name (some value)
      | none => .long (String.ofList rest) none
  | '-' :: c :: rest => .letters (c :: rest)
  | _ => .word argument

/-- An option whose value is still to come or still to be settled. -/
structure Pending where
  option : OptionSpec
  value : Option String
  deriving Repr, DecidableEq

/-- How far the arguments of a command have been read. -/
structure Progress where
  given : Given
  pending : Option Pending
  /-- Whether all further arguments are positional. -/
  trailing : Bool
  deriving Repr, DecidableEq

namespace Progress

/-- Nothing read yet. -/
def start : Progress :=
  ⟨.nothing, none, false⟩

/-- Whether the next argument can be the value of an option. -/
def awaitsValue (p : Progress) : Bool :=
  p.pending.any fun q => q.value.isNone

/-- Binds the value of an option. -/
def bindValue (p : Progress) (o : OptionSpec) (value : String) : Except Rejection Progress :=
  -- a repeated option is refused before its value is looked at
  if (p.given.value? o.long).isSome then .error .argumentConflict
  else if o.kind = .count ∧ (readCount? value).isNone then .error .valueValidation
  else .ok { p with given := { p.given with values := (o.long, value) :: p.given.values } }

/-- Settles the option whose value is to come. -/
def settle (p : Progress) : Except Rejection Progress :=
  match p.pending with
  | none => .ok p
  | some ⟨_, none⟩ => .error .invalidValue
  | some ⟨o, some value⟩ => { p with pending := none }.bindValue o value

/-- Takes an option without a value of its own. -/
def takeFlag (p : Progress) (c : CommandSpec) (path : List String) (o : OptionSpec) :
    Except Rejection Progress :=
  match p.settle with
  | .error e => .error e
  | .ok p =>
    if o.kind = .help then .error (.displayHelp (c.helpText path))
    else if o.kind = .version then
      .error (.displayVersion (c.name ++ " " ++ c.version.getD "" ++ "\n"))
    else if p.given.hasFlag o.long then .error .argumentConflict
    else .ok { p with given := { p.given with flags := o.long :: p.given.flags } }

/-- Takes an option together with its value. -/
def takeBound (p : Progress) (o : OptionSpec) (value : String) : Except Rejection Progress :=
  match p.settle with
  | .error e => .error e
  | .ok p => p.bindValue o value

/-- Takes an option whose value is to come. -/
def takeOpen (p : Progress) (o : OptionSpec) : Except Rejection Progress :=
  p.settle.map fun p => { p with pending := some ⟨o, none⟩ }

/-- Takes an option by its long name. -/
def takeLong (p : Progress) (c : CommandSpec) (path : List String) (name : String)
    (value : Option String) : Except Rejection Progress :=
  match c.optionNamed? name with
  | none => .error .unknownArgument
  | some o =>
    if o.kind.takesValue then
      match value with
      | some v => p.takeBound o v
      | none => p.takeOpen o
    else if value.isSome then .error .tooManyValues
    else p.takeFlag c path o

/-- Takes options by their letters; the first one that takes a value takes the rest of the
letters. -/
def takeLetters (p : Progress) (c : CommandSpec) (path : List String) :
    List Char → Except Rejection Progress
  | [] => .ok p
  | letter :: rest =>
    match c.optionLettered? letter with
    | none => .error .unknownArgument
    | some o =>
      if o.kind.takesValue then
        match rest with
        | [] => p.takeOpen o
        | '=' :: value => p.takeBound o (String.ofList value)
        | value => p.takeBound o (String.ofList value)
      else
        match p.takeFlag c path o with
        | .error e => .error e
        | .ok p => takeLetters p c path rest

/-- Why a word that has no place is refused. -/
def refuseWord (p : Progress) (c : CommandSpec) (word : String) : Rejection :=
  if p.trailing && (c.subcommand? word).isSome then .unknownArgument
  else if !c.subcommands.isEmpty && c.positionals.isEmpty then .invalidSubcommand
  else .unknownArgument

/-- Takes a positional word. -/
def takeWord (p : Progress) (c : CommandSpec) (word : String) : Except Rejection Progress :=
  if c.hasPlace p.given.words.length then
    p.settle.map fun p => { p with given := { p.given with words := p.given.words ++ [word] } }
  else .error (p.refuseWord c word)

/-- Takes an argument that names no sub-command. -/
def take (p : Progress) (c : CommandSpec) (path : List String) (argument : String) :
    Except Rejection Progress :=
  if p.trailing then p.takeWord c argument
  else
    match Token.read argument with
    | .escape => .ok { p with trailing := true }
    | .long name value => p.takeLong c path name value
    | .letters cs => p.takeLetters c path cs
    | .word w =>
      -- only a word can be the value of the option before it
      match p.pending with
      | some ⟨o, none⟩ => .ok { p with pending := some ⟨o, some w⟩ }
      | _ => p.takeWord c w

/-- What was given, once the arguments are used up. -/
def finish (p : Progress) (c : CommandSpec) : Except Rejection Given :=
  match p.settle with
  | .error e => .error e
  | .ok p =>
    if p.given.words.length < c.wordsNeeded then .error .missingRequiredArgument else .ok p.given

end Progress

/-- A selected command, by its name after those above it, and what was given to it. -/
structure Choice where
  path : List String
  given : Given
  deriving Repr, DecidableEq

/-- Shows the help of the sub-command that the words lead to. -/
def helpFor (c : CommandSpec) (path : List String) : List String → Rejection
  | [] => .displayHelp (c.helpText path)
  | name :: more =>
    match c.subcommand? name with
    | none => .invalidSubcommand
    | some sub => helpFor sub (path ++ [sub.name]) more

/-- Reads the arguments of a command. -/
def readFrom (c : CommandSpec) (path : List String) (p : Progress) :
    List String → Except Rejection Choice
  | [] => (p.finish c).map (Choice.mk path)
  | argument :: more =>
    match if p.trailing || p.awaitsValue then none else c.subcommand? argument with
    | some sub =>
      if sub.name = CommandSpec.showHelp.name then .error (helpFor c path more)
      else readFrom sub (path ++ [sub.name]) .start more
    | none =>
      match p.take c path argument with
      | .error e => .error e
      | .ok p => readFrom c path p more

/-- Reads the arguments of a program. -/
def read (program : CommandSpec) (arguments : List String) : Except Rejection Choice :=
  readFrom program [program.name] .start arguments

end Haulage.CommandLine
