import Haulage.Json.Value
import Haulage.Outcome
import Haulage.Settings.Basic

/-!
# The log

A filter lets a message through by its level and by the part of the program that it comes from: of
the rules for that part the one with the longest name counts. Messages that pass are written as
lines for people, with or without a timestamp, or as JSON objects.
-/

set_option autoImplicit false

namespace Haulage

open Haulage.Text Haulage.Json

namespace LogLevel

/-- How much a filter lets through that stops at a level. -/
def rank : LogLevel → Nat
  | .error => 1
  | .warn => 2
  | .info => 3
  | .debug => 4
  | .trace => 5

/-- The name of a level. -/
def name : LogLevel → String
  | .error => "ERROR"
  | .warn => "WARN"
  | .info => "INFO"
  | .debug => "DEBUG"
  | .trace => "TRACE"

end LogLevel

/-- The messages that a filter lets through from some part of the program, up to a rank. -/
structure LogRule where
  origin : String
  rank : Nat
  deriving Repr, DecidableEq

/-- The rules of a filter. -/
abbrev LogFilter := List LogRule

namespace LogFilter

/-- The words for the ranks from zero on. -/
def rankWords : List String :=
  ["off", "error", "warn", "info", "debug", "trace"]

/-- The rank that a word or a digit stands for. -/
def rankNamed? (word : String) : Option Nat :=
  match rankWords.findIdx? (sameIgnoringCase · word) with
  | some rank => some rank
  | none => (List.range rankWords.length).find? fun rank => Numeric.decimal rank == word

/-- Whether a text can name a part of the program. -/
def isOrigin (s : String) : Bool :=
  !s.isEmpty && s.toList.all fun c => c.isAlphanum || c == '_' || c == ':' || c == '-'

/-- Reads a rule: a rank, a part of the program, or a part with a rank. -/
def readRule? (s : String) : Option LogRule :=
  match rankNamed? s with
  | some rank => some ⟨"", rank⟩
  | none =>
    match splitFirst? '=' s with
    | none => if isOrigin s then some ⟨s, LogLevel.trace.rank⟩ else none
    | some (origin, word) =>
      if isOrigin origin then (rankNamed? word).map fun rank => ⟨origin, rank⟩ else none

/-- The filter that a text describes; without any rule only errors pass. -/
def read? (s : String) : Option LogFilter :=
  let parts := (split ',' s).filter (!·.isEmpty)
  if parts.isEmpty then some [⟨"", LogLevel.error.rank⟩] else parts.mapM readRule?

/-- The filter that a debug level asks for. -/
def ofLevel (level : DebugLevel) : LogFilter :=
  [⟨"", LogLevel.warn.rank⟩, ⟨"ferry", (rankNamed? level.filter).getD 0⟩]

/-- The filter of a process: the described one, if it can be read, else the one for a debug
level. -/
def choose (described : Option String) (level : DebugLevel) : LogFilter :=
  (described.bind read?).getD (ofLevel level)

/-- The rule for a part of the program: the one with the longest name, of several the last. -/
def ruleFor? (filter : LogFilter) (origin : String) : Option LogRule :=
  filter.foldl
    (fun best rule =>
      if (dropLeadText? rule.origin origin).isNone then best
      else
        match best with
        | none => some rule
        | some b => if b.origin.length ≤ rule.origin.length then some rule else some b)
    none

/-- Whether a message passes. -/
def passes (filter : LogFilter) (m : LogMessage) : Bool :=
  (filter.ruleFor? m.origin).any fun rule => m.level.rank ≤ rule.rank

end LogFilter

/-- How log lines look. -/
structure LogStyle where
  format : LogFormat
  /-- The time at the start of a line, if lines show it. -/
  timestamp : Option String

namespace LogStyle

/-- The style that settings ask for, given the time. -/
def ofSettings (s : Settings) (timestamp : String) : LogStyle :=
  let timed := s.logFormat != .console || s.debug == .lowDebug
  ⟨s.logFormat, if timed then some timestamp else none⟩

/-- The message as a line for people. -/
def plainLine (timestamp : Option String) (m : LogMessage) : String :=
  let level := m.level.name
  let shown (flag : String × Bool) : String := " " ++ flag.1 ++ "=" ++ (Value.bool flag.2).compact
  (match timestamp with
    | some t => t ++ " "
    | none => "") ++
    String.ofList (List.replicate (5 - level.length) ' ') ++ level ++ " " ++ m.text ++
    String.join (m.flags.map shown) ++ "\n"

/-- The message as a JSON object. -/
def jsonLine (timestamp : Option String) (m : LogMessage) : String :=
  (Value.object
    ([("timestamp", .ofOption timestamp), ("level", .string m.level.name),
      ("message", .string m.text)] ++ m.flags.map (fun (k, b) => (k, .bool b)) ++
      [("target", .string m.origin)])).compact ++ "\n"

/-- The message as it is written: JSON objects on standard output, lines on standard error. -/
def write (style : LogStyle) (m : LogMessage) : Output :=
  match style.format with
  | .json => .stdout (jsonLine style.timestamp m)
  | _ => .stderr (plainLine style.timestamp m)

end LogStyle

/-- What is said, with the log messages that pass written out. -/
def Output.written (filter : LogFilter) (style : LogStyle) (outputs : List Output) : List Output :=
  outputs.filterMap fun
    | .log m => if filter.passes m then some (style.write m) else none
    | o => some o

end Haulage
