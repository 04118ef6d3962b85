import Haulage.Connections.Location
import Haulage.Json.Value
import Haulage.SortedMap

/-!
# Named connections

A registry maps names to properties, among them the `url` of the connection. It is kept as a JSON
file in the home directory. A connection is asked for by its name, or by anything that looks like
a URL or path.

An argument `key=value` binds the key, in lower case, to the value; blanks around either do not
count, and the value may hold further equal signs. Of several arguments for a key the last one
counts, and the first argument that is not of this form is refused.

The table of connections has one line per connection in name order, below a header: name, connector
type and family. A column is as wide as its longest entry is long in bytes, and entries are padded
to that number of characters.
-/

set_option autoImplicit false

namespace Haulage

open Haulage.Text Haulage.Json

/-- The properties of a connection. -/
abbrev Properties := SortedMap String

/-- The named connections. -/
structure Registry where
  connections : SortedMap Properties

namespace Registry

/-- The registry without connections. -/
def empty : Registry :=
  ⟨.empty⟩

/-- The path of the registry's file in a home directory. -/
def path (home : Path) : Path :=
  home.join ⟨"env.json"⟩

/-- The properties of a connection as JSON. -/
def propertiesValue (props : Properties) : Value :=
  .object (props.toList.map fun (k, v) => (k, .string v))

/-- The registry as JSON. -/
def toValue (r : Registry) : Value :=
  .object
    [("connections",
      .object (r.connections.toList.map fun (k, props) => (k, propertiesValue props)))]

/-- The location of a named connection. -/
def lookup (r : Registry) (name : String) : Attempt Location :=
  match r.connections.get? name with
  | none => failWith (.connectionNotFound name)
  | some props =>
    match props.get? "url" with
    | none => failWith (.noUrl name)
    | some url => .ok (.read url)

/-- The location that a text asks for. -/
def resolve (r : Registry) (asked : String) : Attempt Location :=
  if r.connections.contains asked then r.lookup asked
  else if contains asked "://" || contains asked "/" || contains asked "." then .ok (.read asked)
  else failWith (.connectionNotFound asked)

/-- The location of a connection and a stream, of which at least one is given. -/
def endpoint (r : Registry) (fs : FileSystem) (connection stream : Option String) :
    Attempt Location :=
  match connection, stream with
  | some c, some s => (r.resolve c).map (·.withStream fs s)
  | some c, none => r.resolve c
  | none, some s => .ok (.read s)
  | none, none => failWith .noEndpoint

end Registry

end Haulage

namespace Haulage.Properties

open Haulage.Text

/-! ## Property arguments -/

/-- The key and value of an argument. -/
def readOne (argument : String) : Attempt (String × String) :=
  match splitFirst? '=' argument with
  | none => failWith (.noEquals argument)
  | some (key, value) =>
    if isBlankText key then failWith (.emptyKey argument)
    else .ok (lowerAscii (trim key), trim value)

/-- Binds the arguments one after the other. -/
def readFrom (soFar : Properties) : List String → Attempt Properties
  | [] => .ok soFar
  | argument :: more =>
    match readOne argument with
    | .error f => .error f
    | .ok (key, value) => readFrom (soFar.insert key value) more

/-- The properties of a list of arguments. -/
def read (arguments : List String) : Attempt Properties :=
  readFrom .empty arguments

end Haulage.Properties

namespace Haulage.Registry

/-! ## The table of connections -/

/-- The text followed by spaces up to a number of characters. -/
def padded (width : Nat) (s : String) : String :=
  s ++ String.ofList (List.replicate (width - s.length) ' ')

/-- Name, connector type and family of each connection. -/
def rows (r : Registry) : List (String × String × String) :=
  r.connections.toList.map fun (name, props) =>
    let location := Location.read ((props.get? "url").getD "")
    (name, location.connectorType, location.family.label)

/-- The width of a column with a title. -/
def columnWidth (title : String) (entries : List String) : Nat :=
  entries.foldl (fun width e => max width e.utf8ByteSize) title.utf8ByteSize

/-- The title of the name column. -/
def nameTitle : String :=
  "CONN NAME"

/-- The title of the type column. -/
def typeTitle : String :=
  "CONN TYPE"

/-- A line of the table. -/
def tableLine (nameWidth typeWidth : Nat) (name kind family : String) : String :=
  padded nameWidth name ++ "  " ++ padded typeWidth kind ++ "  " ++ family ++ "\n"

/-- The table of the connections. -/
def table (r : Registry) : String :=
  let rows := r.rows
  let nameWidth := columnWidth nameTitle (rows.map (·.1))
  let typeWidth := columnWidth typeTitle (rows.map (·.2.1))
  String.join
    (tableLine nameWidth typeWidth nameTitle typeTitle "SOURCE" ::
      rows.map fun (name, kind, family) => tableLine nameWidth typeWidth name kind family)

end Haulage.Registry
