import Haulage.Numeric.Decimal
import Haulage.Text.Basic
import Haulage.Text.Utf8

/-!
# File systems

A path is the text by which a file is asked for. It is shown as it was given; only joining and
taking the parent look at its components, where repeated slashes and lone dots do not count.

A file system is a set of places, each holding a file, a directory or a symbolic link. A place is
the list of names from the root; the root itself is a directory without an entry. Looking up a path
walks its names from the working directory or the root, follows links, and gives up after forty of
them. The outcome is either what stands at the path or the free name in an existing directory.
Instead of doing what was asked, the file system and the network can answer with an error.
-/

set_option autoImplicit false

namespace Haulage

/-! ## Errors -/

/-- An error of the operating system. -/
inductive OsError where
  | noSuchFile
  | fileExists
  | notADirectory
  | isADirectory
  | nameTooLong
  | tooManyLinks
  | networkUnreachable
  | connectionRefused
  | addressNotAvailable
  /-- A path holds the character that ends texts for the system. -/
  | nulInPath
  /-- No ancestor of a directory can be created. -/
  | noRootToCreate
  /-- The name service does not answer. -/
  | noNameService
  /-- A text cannot be the name of a host. -/
  | unknownName
  deriving Repr, DecidableEq

namespace OsError

/-- The system's text and number, where it has them. -/
def message : OsError → String
  | .noSuchFile => "No such file or directory (os error 2)"
  | .fileExists => "File exists (os error 17)"
  | .notADirectory => "Not a directory (os error 20)"
  | .isADirectory => "Is a directory (os error 21)"
  | .nameTooLong => "File name too long (os error 36)"
  | .tooManyLinks => "Too many levels of symbolic links (os error 40)"
  | .networkUnreachable => "Network is unreachable (os error 101)"
  | .connectionRefused => "Connection refused (os error 111)"
  | .nulInPath => "file name contained an unexpected NUL byte"
  | .noRootToCreate => "failed to create whole tree"
  | .addressNotAvailable => "Cannot assign requested address (os error 99)"
  | .noNameService =>
    "failed to lookup address information: Temporary failure in name resolution"
  | .unknownName => "failed to lookup address information: Name or service not known"

end OsError

/-! ## Paths -/

/-- The text of a path. -/
structure Path where
  text : String
  deriving Repr, DecidableEq, Inhabited

namespace Path

/-- Whether the path starts at the root. -/
def isAbsolute (p : Path) : Bool :=
  p.text.toList.head? == some '/'

/-- The components as they stand between the slashes. -/
def segments (p : Path) : List String :=
  Text.split '/' p.text

/-- The path of a file below this one; an absolute path stays as it is. -/
def join (base sub : Path) : Path :=
  if sub.isAbsolute then sub
  else if base.text.isEmpty ∨ base.text.toList.getLast? = some '/' then ⟨base.text ++ sub.text⟩
  else ⟨base.text ++ "/" ++ sub.text⟩

/-- Whether a component does not count. -/
def isIdle (component : List Char) : Bool :=
  component == [] || component == ['.']

/-- Drops the idle components at the end of a reversed path. -/
def dropIdle (reversed : List Char) : List Char :=
  match _h : reversed.dropWhile (· != '/') with
  | [] => if isIdle reversed then [] else reversed
  | _ :: before => if isIdle (reversed.takeWhile (· != '/')) then dropIdle before else reversed
termination_by reversed.length
decreasing_by
  have hle := (List.dropWhile_sublist (l := reversed) (· != '/')).length_le
  rw [_h] at hle
  simp only [List.length_cons] at hle
  omega

/-- Drops the last component of a reversed path and its slash. -/
def dropComponent (reversed : List Char) : List Char :=
  (reversed.dropWhile (· != '/')).tail

/-- The path without its last component; the root and the empty path have no parent. -/
def parent? (p : Path) : Option Path :=
  let cs := p.text.toList
  -- a lone dot counts only at the very start of a path
  let rooted := cs.head? = some '/'
  let dotted := cs = ['.'] ∨ cs.take 2 = ['.', '/']
  let lead := if rooted ∨ dotted then cs.take 1 else []
  let body := dropIdle (cs.drop lead.length).reverse
  if body.isEmpty then
    if dotted then some ⟨""⟩ else none
  else
    some ⟨String.ofList (lead ++ (dropIdle (dropComponent body)).reverse)⟩

/-- The path followed by its parents, up to a number of them. -/
def ancestry : Nat → Path → List Path
  | 0, p => [p]
  | fuel + 1, p =>
    match p.parent? with
    | none => [p]
    | some up => p :: ancestry fuel up

end Path

/-! ## Places -/

/-- The names from the root to an entry. -/
abbrev Place := List String

/-- What stands at a place. -/
inductive Node where
  | file (content : Bytes)
  | directory
  | link (target : String)
  deriving Repr, DecidableEq

/-- The entries below the root and the working directory. -/
structure FileSystem where
  entries : List (Place × Node)
  here : Place
  deriving Repr

namespace FileSystem

/-- What stands at a place. -/
def node? (fs : FileSystem) (place : Place) : Option Node :=
  if place = [] then some .directory
  else (fs.entries.find? (fun e => e.1 == place)).map Prod.snd

/-- Puts a node at a place, over what was there. -/
def putEntry (place : Place) (node : Node) : List (Place × Node) → List (Place × Node)
  | [] => [(place, node)]
  | (p, n) :: rest =>
    if p = place then (place, node) :: rest else (p, n) :: putEntry place node rest

/-- The file system with a node at a place. -/
def put (fs : FileSystem) (place : Place) (node : Node) : FileSystem :=
  { fs with entries := putEntry place node fs.entries }

theorem find?_putEntry (place : Place) (node : Node) (entries : List (Place × Node)) (q : Place) :
    ((putEntry place node entries).find? (fun e => e.1 == q)).map Prod.snd =
      if place = q then some node else (entries.find? (fun e => e.1 == q)).map Prod.snd := by
  induction entries with
  | nil => by_cases h : place = q <;> simp [putEntry, h]
  | cons e rest ih =>
    obtain ⟨p, n⟩ := e
    unfold putEntry
    by_cases hp : p = place
    · subst hp
      by_cases hq : p = q <;> simp [hq]
    · by_cases hq : p = q
      · subst hq
        have : place ≠ p := fun h => hp h.symm
        simp [hp, this]
      · simp [hp, hq, ih]

/-- A node that is put is found at its place, and every other place keeps its node. -/
theorem node?_put (fs : FileSystem) {place : Place} (node : Node) (hne : place ≠ []) (q : Place) :
    (fs.put place node).node? q = if place = q then some node else fs.node? q := by
  unfold node? put
  by_cases hq : q = []
  · subst hq; simp [hne]
  · simp only [hq, if_false]
    exact find?_putEntry place node fs.entries q

/-! ## Walking a path -/

/-- Where a path leads. -/
inductive Spot where
  /-- To an existing entry. -/
  | entry (place : Place) (node : Node)
  /-- To a free name in an existing directory; the path may end in a slash. -/
  | free (directory : Place) (name : String) (slash : Bool)
  deriving Repr

/-- The longest name of an entry, in bytes. -/
def longestName : Nat :=
  255

/-- The size in bytes from which on a path is refused. -/
def longestPath : Nat :=
  4096

/-- Number of links that one walk follows. -/
def linkBudget : Nat :=
  40

/-- Walks names from a directory. A link in last position is followed only if asked for. -/
def walk (fs : FileSystem) (follow : Bool) (links : Nat) (dir : Place) (names : List String) :
    Except OsError Spot :=
  match names with
  | [] => .ok (.entry dir .directory)
  | name :: rest =>
    if name = "" ∨ name = "." then walk fs follow links dir rest
    else if name = ".." then walk fs follow links dir.dropLast rest
    else if longestName < name.utf8ByteSize then .error .nameTooLong
    else
      match fs.node? (dir ++ [name]) with
      | none =>
        -- only slashes may follow the name that is still free
        if rest.all (· = "") then .ok (.free dir name (!rest.isEmpty)) else .error .noSuchFile
      | some .directory => walk fs follow links (dir ++ [name]) rest
      | some (.file content) =>
        if rest.isEmpty then .ok (.entry (dir ++ [name]) (.file content)) else .error .notADirectory
      | some (.link target) =>
        if rest.isEmpty && !follow then .ok (.entry (dir ++ [name]) (.link target))
        else
          match links with
          | 0 => .error .tooManyLinks
          | links + 1 =>
            -- a relative target is looked up where the link stands
            let target : Path := ⟨target⟩
            walk fs follow links (if target.isAbsolute then [] else dir) (target.segments ++ rest)
termination_by (links, names.length)

/-- Where a path leads from the working directory. -/
def locate (fs : FileSystem) (follow : Bool) (p : Path) : Except OsError Spot :=
  if p.text.toList.contains '\x00' then .error .nulInPath
  else if p.text.isEmpty then .error .noSuchFile
  else if longestPath ≤ p.text.utf8ByteSize then .error .nameTooLong
  else fs.walk follow linkBudget (if p.isAbsolute then [] else fs.here) p.segments

/-- The existing entry that a path leads to, links followed. -/
def find (fs : FileSystem) (p : Path) : Except OsError (Place × Node) :=
  match fs.locate true p with
  | .error e => .error e
  | .ok (.entry place node) => .ok (place, node)
  | .ok (.free _ _ _) => .error .noSuchFile

/-! ## Questions -/

/-- Whether a path leads to an entry. -/
def hasEntry (fs : FileSystem) (p : Path) : Bool :=
  match fs.find p with
  | .ok _ => true
  | .error _ => false

/-- Whether a path leads to a directory. -/
def hasDirectory (fs : FileSystem) (p : Path) : Bool :=
  match fs.find p with
  | .ok (_, .directory) => true
  | _ => false

/-- Whether a path leads to a file. -/
def hasFile (fs : FileSystem) (p : Path) : Bool :=
  match fs.find p with
  | .ok (_, .file _) => true
  | _ => false

/-- The absolute path of a place. -/
def pathOf (place : Place) : Path :=
  ⟨if place.isEmpty then "/" else String.join (place.map ("/" ++ ·))⟩

/-- The absolute path without links that a path leads to. -/
def canonical (fs : FileSystem) (p : Path) : Except OsError Path :=
  (fs.find p).map fun (place, _) => pathOf place

/-! ## Reading -/

/-- An entry opened for reading: a directory opens too, and fails at the first read. -/
inductive Opened where
  | content (bytes : Bytes)
  | unreadable (e : OsError)
  deriving Repr

/-- Opens a path for reading. -/
def openToRead (fs : FileSystem) (p : Path) : Except OsError Opened :=
  match fs.find p with
  | .error e => .error e
  | .ok (_, .file content) => .ok (.content content)
  | .ok _ => .ok (.unreadable .isADirectory)

/-- The content of a file. -/
def readFile (fs : FileSystem) (p : Path) : Except OsError Bytes :=
  match fs.openToRead p with
  | .error e => .error e
  | .ok (.content bytes) => .ok bytes
  | .ok (.unreadable e) => .error e

/-! ## Writing -/

/-- Where a file that is opened for writing stands, and its content so far. -/
structure Destination where
  place : Place
  content : Bytes
  deriving Repr

/-- Finds where a file to be written stands or will stand. A path that ends in a slash names a
directory. -/
def destination (fs : FileSystem) (p : Path) : Except OsError Destination :=
  let slashed := p.text.toList.getLast? = some '/'
  let bare : Path :=
    if slashed then ⟨String.ofList (p.text.toList.reverse.dropWhile (· == '/')).reverse⟩ else p
  if slashed ∧ bare.text.isEmpty then .error .isADirectory
  else
    match fs.locate true bare with
    | .error e => .error e
    | .ok spot =>
      if slashed then .error .isADirectory
      else
        match spot with
        | .entry place (.file content) => .ok ⟨place, content⟩
        | .entry _ _ => .error .isADirectory
        | .free dir name slash => if slash then .error .isADirectory else .ok ⟨dir ++ [name], []⟩

/-- Replaces the content of a file, which is created if need be. -/
def writeFile (fs : FileSystem) (p : Path) (content : Bytes) : Except OsError FileSystem :=
  (fs.destination p).map fun d => fs.put d.place (.file content)

/-- Creates a directory in an existing one. -/
def makeDirectory (fs : FileSystem) (p : Path) : Except OsError FileSystem :=
  match fs.locate false p with
  | .error e => .error e
  | .ok (.entry _ _) => .error .fileExists
  | .ok (.free dir name _) => .ok (fs.put (dir ++ [name]) .directory)

/-- Creates the directory at the head of a list of ancestors, and the missing ones after it first.
Gives the file system as it is left, also on failure. -/
def makeAncestry (fs : FileSystem) : List Path → FileSystem × Except OsError Unit
  | [] => (fs, .error .noRootToCreate)
  | p :: up =>
    if p.text.isEmpty then (fs, .ok ())
    else
      match fs.makeDirectory p with
      | .ok fs => (fs, .ok ())
      | .error .noSuchFile =>
        -- the ancestors that were created stay, even if this directory then fails
        match makeAncestry fs up with
        | (fs, .error e) => (fs, .error e)
        | (fs, .ok ()) =>
          match fs.makeDirectory p with
          | .ok fs => (fs, .ok ())
          | .error e => if fs.hasDirectory p then (fs, .ok ()) else (fs, .error e)
      | .error e => if fs.hasDirectory p then (fs, .ok ()) else (fs, .error e)

/-- Creates a directory and its missing ancestors. -/
def makeDirectories (fs : FileSystem) (p : Path) : FileSystem × Except OsError Unit :=
  fs.makeAncestry (p.ancestry p.text.length)

/-- Creates a symbolic link. -/
def makeLink (fs : FileSystem) (p : Path) (target : String) : Except OsError FileSystem :=
  match fs.locate false p with
  | .error e => .error e
  | .ok (.entry _ _) => .error .fileExists
  | .ok (.free dir name slash) =>
    if slash then .error .noSuchFile else .ok (fs.put (dir ++ [name]) (.link target))

/-! ## Listing -/

/-- The entries below a place, each with its names from there. -/
def below (fs : FileSystem) (place : Place) : List (Place × Node) :=
  fs.entries.filterMap fun (p, n) =>
    if place.length < p.length ∧ p.take place.length = place then some (p.drop place.length, n)
    else none

end FileSystem

end Haulage
