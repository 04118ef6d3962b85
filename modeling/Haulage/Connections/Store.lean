import Haulage.Connections.Registry
import Haulage.Json.Reader

/-!
# The connections file

The file holds an object whose member `connections` maps names to objects of texts; other members
are passed over. An array of at most one item is accepted in place of the object, the item standing
for the connections. The first flaw is reported, whether it is one of syntax or of type. A file that
is missing holds no connections.
-/

set_option autoImplicit false

namespace Haulage.Registry

open Haulage.Json Haulage.Text

/-- Fails at a value that starts with a character and is not of the expected type. A scalar is read
first, so that its own flaws come first and the place is the one after it. -/
def failType {α : Type} (expected : String) (cur : Cursor) (c : Char) (rest : List Char) :
    Except Flaw α :=
  let next := cur.advance c rest
  let wrong (found : Found) (cur : Cursor) : Except Flaw α := cur.fail (.wrongType found expected)
  let word (letters : List Char) (found : Found) : Except Flaw α :=
    match readWord letters next with
    | .error e => .error e
    | .ok cur => wrong found cur
  let number (r : Reading Number) : Except Flaw α :=
    match r with
    | .error e => .error e
    | .ok (.integer i, cur) => wrong (.integer i) cur
    | .ok (.real x, cur) => wrong (.real (String.ofList (Number.real x).chars)) cur
  if c = 'n' then word ['u', 'l', 'l'] .null
  else if c = 't' then word ['r', 'u', 'e'] (.bool true)
  else if c = 'f' then word ['a', 'l', 's', 'e'] (.bool false)
  else if c = '-' then number (readNumber true next)
  else if Numeric.isDecimalDigit c then number (readNumber false cur)
  else if c = '"' then
    match readStringBody [] next with
    | .error e => .error e
    | .ok (s, cur) => wrong (.string (quoted s)) cur
  else if c = '[' then wrong .sequence cur
  else if c = '\x7b' then wrong .map cur
  else cur.failAhead .expectedValue

/-- Reads a text. -/
def readText (cur : Cursor) : Reading String :=
  let cur := cur.skipGap
  match cur.rest with
  | [] => cur.failAhead .endInValue
  | c :: rest =>
    if c = '"' then readStringBody [] (cur.advance c rest) else failType "a string" cur c rest

/-- Reads the further members of a map with values of one type. -/
def readEntries {α : Type} (readOne : Cursor → Reading α) :
    Nat → Bool → SortedMap α → Cursor → Reading (SortedMap α)
  | 0, _, _, cur => cur.fail .endInObject
  | fuel + 1, first, soFar, cur =>
    match nextKey first cur with
    | .error e => .error e
    | .ok (.done cur) => .ok (soFar, cur)
    | .ok (.key cur) =>
      match readStringBody [] cur with
      | .error e => .error e
      | .ok (key, cur) =>
        match readColon cur with
        | .error e => .error e
        | .ok cur =>
          match readOne cur with
          | .error e => .error e
          | .ok (v, cur) => readEntries readOne fuel false (soFar.insert key v) cur

/-- Reads a map with values of one type. -/
def readMap {α : Type} (readOne : Cursor → Reading α) (cur : Cursor) : Reading (SortedMap α) :=
  let cur := cur.skipGap
  match cur.rest with
  | [] => cur.failAhead .endInValue
  | c :: rest =>
    if c = '\x7b' then readEntries readOne cur.fuel true .empty (cur.advance c rest)
    else failType "a map" cur c rest

/-- Reads the connections. -/
def readConnections (cur : Cursor) : Reading (SortedMap Properties) :=
  readMap (readMap readText) cur

/-- The place of a repeated member: after its key, blanks, and the end of the object if it
follows. -/
def repeatedPlace (cur : Cursor) : Position :=
  let cur := cur.skipGap
  match cur.rest with
  | c :: rest => if c = '\x7d' then (cur.advance c rest).place else cur.place
  | [] => cur.place

/-- Reads the further members of the registry object. -/
def readFields : Nat → Bool → Option (SortedMap Properties) → Cursor →
    Reading (Option (SortedMap Properties))
  | 0, _, _, cur => cur.fail .endInObject
  | fuel + 1, first, soFar, cur =>
    match nextKey first cur with
    | .error e => .error e
    | .ok (.done cur) => .ok (soFar, cur)
    | .ok (.key cur) =>
      match readStringBody [] cur with
      | .error e => .error e
      | .ok (key, cur) =>
        if key = "connections" then
          if soFar.isSome then .error ⟨.duplicateField key, repeatedPlace cur⟩
          else
            match readColon cur with
            | .error e => .error e
            | .ok cur =>
              match readConnections cur with
              | .error e => .error e
              | .ok (m, cur) => readFields fuel false (some m) cur
        else
          match readColon cur with
          | .error e => .error e
          | .ok cur =>
            match skipValue cur.fuel [] cur with
            | .error e => .error e
            | .ok cur => readFields fuel false soFar cur

/-- Requires the end of an array that stands for the registry. -/
def readArrayEnd (cur : Cursor) : Except Flaw Cursor :=
  let cur := cur.skipGap
  match cur.rest with
  | [] => cur.failAhead .endInList
  | c :: rest =>
    if c = ']' then .ok (cur.advance c rest)
    else if c = ',' then
      let cur := (cur.advance c rest).skipGap
      match cur.rest with
      | d :: _ => cur.failAhead (if d = ']' then .trailingComma else .trailingCharacters)
      | [] => cur.failAhead .trailingCharacters
    else cur.failAhead .trailingCharacters

/-- Reads a registry value. -/
def readRegistry (cur : Cursor) : Reading Registry :=
  let cur := cur.skipGap
  match cur.rest with
  | [] => cur.failAhead .endInValue
  | c :: rest =>
    let next := cur.advance c rest
    if c = '\x7b' then
      (readFields cur.fuel true none next).map fun (m, cur) => (⟨m.getD .empty⟩, cur)
    else if c = '[' then
      match nextItem true next with
      | .error e => .error e
      | .ok (.done cur) => .ok (.empty, cur)
      | .ok (.item cur) =>
        match readConnections cur with
        | .error e => .error e
        | .ok (m, cur) => (readArrayEnd cur).map fun cur => (⟨m⟩, cur)
    else failType "struct EnvFile" cur c rest

/-- The registry that a text holds, or its first flaw. -/
def read (s : String) : Except Flaw Registry :=
  match readRegistry (Cursor.start s) with
  | .error e => .error e
  | .ok (r, cur) => (readEnd cur).map fun _ => r

/-! ## The file -/

/-- The registry that the content of a file holds. -/
def ofContent (path : Path) (content : Bytes) : Attempt Registry :=
  match Utf8.decode content with
  | .error _ => (failWith .notText).during (.readEnv path)
  | .ok s =>
    match read s with
    | .error flaw => (failWith (.json flaw)).during (.parseEnv path)
    | .ok r => .ok r

/-- Loads the registry. -/
def load (fs : FileSystem) (path : Path) : Attempt Registry :=
  if fs.hasEntry path then
    match fs.readFile path with
    | .error e => (failWith (.system e)).during (.readEnv path)
    | .ok content => ofContent path content
  else .ok empty

/-- The content of the file that holds a registry. -/
def content (r : Registry) : Bytes :=
  Utf8.encode r.toValue.pretty

/-- Saves the registry, creating the directories above its file. Gives the file system as it is
left, also on failure. -/
def save (r : Registry) (fs : FileSystem) (path : Path) : FileSystem × Attempt Unit :=
  let above := path.parent?.getD ⟨""⟩
  match fs.makeDirectories above with
  | (fs, .error e) => (fs, (failWith (.system e)).during (.create above))
  | (fs, .ok ()) =>
    match fs.writeFile path r.content with
    | .error e => (fs, (failWith (.system e)).during (.writeEnv path))
    | .ok fs => (fs, .ok ())

end Haulage.Registry
