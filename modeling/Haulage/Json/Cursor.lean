import Haulage.Numeric.Binary64

/-!
# Places in a JSON text

A cursor is what is left of a text together with the place reached: the line, counted from one, and
the number of bytes read on that line. A flaw carries its cause and a place, which is either where
the cursor stands or one byte further, when the flaw is the byte ahead.
-/

set_option autoImplicit false

namespace Haulage.Json

/-- A line and a number of bytes on it. -/
structure Position where
  line : Nat
  column : Nat
  deriving Repr, DecidableEq

/-- The place after a character. -/
def Position.after (p : Position) (c : Char) : Position :=
  if c = '\n' then ⟨p.line + 1, 0⟩ else ⟨p.line, p.column + c.utf8Size⟩

/-- The place some bytes further, when there are so many. -/
def Position.afterBytes? (p : Position) : Nat → List Char → Option Position
  | 0, _ => some p
  | _ + 1, [] => none
  | n + 1, c :: rest =>
    if c = '\n' then afterBytes? ⟨p.line + 1, 0⟩ n rest
    else if c.utf8Size ≤ n + 1 then
      afterBytes? ⟨p.line, p.column + c.utf8Size⟩ (n + 1 - c.utf8Size) rest
    else some ⟨p.line, p.column + (n + 1)⟩
termination_by n => n
decreasing_by
  · omega
  · have := c.utf8Size_pos
    omega

/-- What is left of a text, and the place reached. -/
structure Cursor where
  rest : List Char
  place : Position
  deriving Repr

namespace Cursor

/-- The start of a text. -/
def start (s : String) : Cursor :=
  ⟨s.toList, ⟨1, 0⟩⟩

/-- The cursor after its first character, whose remainder is given. -/
def advance (cur : Cursor) (c : Char) (rest : List Char) : Cursor :=
  ⟨rest, cur.place.after c⟩

/-- The place one byte further, or the cursor's own at the end. -/
def ahead (cur : Cursor) : Position :=
  (cur.place.afterBytes? 1 cur.rest).getD cur.place

/-- The place at the end of the text. -/
def last (cur : Cursor) : Position :=
  cur.rest.foldl Position.after cur.place

/-- Whether a character may stand between tokens. -/
def isGap (c : Char) : Bool :=
  c == ' ' || c == '\n' || c == '\t' || c == '\r'

/-- The cursor after the blanks ahead. -/
def skipGap : Cursor → Cursor
  | ⟨[], p⟩ => ⟨[], p⟩
  | ⟨c :: rest, p⟩ => if isGap c then skipGap ⟨rest, p.after c⟩ else ⟨c :: rest, p⟩
termination_by cur => cur.rest.length

end Cursor

/-- What a value of the wrong type turned out to be. -/
inductive Found where
  | null
  | bool (b : Bool)
  | integer (i : Int)
  | real (text : String)
  | string (shown : String)
  | sequence
  | map
  deriving Repr, DecidableEq

/-- The wording of what was found. -/
def Found.message : Found → String
  | .null => "null"
  | .bool true => "boolean `true`"
  | .bool false => "boolean `false`"
  | .integer i => "integer `" ++ Numeric.decimalInt i ++ "`"
  | .real text => "floating point `" ++ text ++ "`"
  | .string shown => "string " ++ shown
  | .sequence => "sequence"
  | .map => "map"

/-- Why a text is not the JSON that was asked for. -/
inductive Defect where
  | endInList
  | endInObject
  | endInString
  | endInValue
  | expectedColon
  | expectedListCommaOrEnd
  | expectedObjectCommaOrEnd
  | expectedIdent
  | expectedValue
  | invalidEscape
  | invalidNumber
  | numberOutOfRange
  | controlCharacter
  | keyMustBeString
  | loneSurrogate
  | trailingComma
  | trailingCharacters
  | unexpectedEndOfHexEscape
  | tooDeep
  | wrongType (found : Found) (expected : String)
  | duplicateField (name : String)
  deriving Repr, DecidableEq

/-- The wording of a cause. -/
def Defect.message : Defect → String
  | .endInList => "EOF while parsing a list"
  | .endInObject => "EOF while parsing an object"
  | .endInString => "EOF while parsing a string"
  | .endInValue => "EOF while parsing a value"
  | .expectedColon => "expected `:`"
  | .expectedListCommaOrEnd => "expected `,` or `]`"
  | .expectedObjectCommaOrEnd => "expected `,` or `\x7d`"
  | .expectedIdent => "expected ident"
  | .expectedValue => "expected value"
  | .invalidEscape => "invalid escape"
  | .invalidNumber => "invalid number"
  | .numberOutOfRange => "number out of range"
  | .controlCharacter => "control character (\\u0000-\\u001F) found while parsing a string"
  | .keyMustBeString => "key must be a string"
  | .loneSurrogate => "lone leading surrogate in hex escape"
  | .trailingComma => "trailing comma"
  | .trailingCharacters => "trailing characters"
  | .unexpectedEndOfHexEscape => "unexpected end of hex escape"
  | .tooDeep => "recursion limit exceeded"
  | .wrongType found expected => "invalid type: " ++ found.message ++ ", expected " ++ expected
  | .duplicateField name => "duplicate field `" ++ name ++ "`"

/-- A cause and the place where it was noticed. -/
structure Flaw where
  cause : Defect
  place : Position
  deriving Repr, DecidableEq

/-- The wording of a flaw. -/
def Flaw.message (f : Flaw) : String :=
  f.cause.message ++ " at line " ++ Numeric.decimal f.place.line ++ " column " ++
    Numeric.decimal f.place.column

/-- The outcome of a reading step: what was read and the cursor after it. -/
abbrev Reading (α : Type) := Except Flaw (α × Cursor)

/-- Fails where the cursor stands. -/
def Cursor.fail {α : Type} (cur : Cursor) (cause : Defect) : Except Flaw α :=
  .error ⟨cause, cur.place⟩

/-- Fails at the byte ahead of the cursor. -/
def Cursor.failAhead {α : Type} (cur : Cursor) (cause : Defect) : Except Flaw α :=
  .error ⟨cause, cur.ahead⟩

end Haulage.Json
