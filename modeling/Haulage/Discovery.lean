import Haulage.Copy.Columns
import Haulage.Glob

/-!
# Discovery

The streams of a local connection are the files below its directory: the entries that are files, or
links to files, and whose names from the directory match a pattern. Links to directories are not
followed, the root itself aside. A search stays at the first level unless it is recursive or its
pattern has a slash, and fails if a directory on its way cannot be opened. The streams are listed in
the order of their names, component by component.
-/

set_option autoImplicit false

namespace Haulage

open Haulage.Text

namespace Discovery

/-- Whether the names of an entry come before those of another or are the same. -/
def comesBefore : Place → Place → Bool
  | [], _ => true
  | _ :: _, [] => false
  | a :: as, b :: bs => a < b || (a == b && comesBefore as bs)

/-- Whether a search goes beyond the first level. -/
def goesDeep (pattern : Option String) (recursive : Bool) : Bool :=
  recursive || pattern.any fun p => contains p "/"

/-- The pattern that entries have to match, if there is one. -/
def readPattern (pattern : Option String) : Attempt (Option (List Glob.Token)) :=
  match pattern with
  | none => .ok none
  | some p =>
    match Glob.read p with
    | .ok tokens => .ok (some tokens)
    | .error flaw => (failWith (.pattern flaw)).during .readPattern

/-- Whether the names of an entry match a pattern. -/
def isMatched (pattern : Option (List Glob.Token)) (names : Place) : Bool :=
  pattern.all fun tokens => Glob.matchesPath tokens ("/".intercalate names)

/-- The path of an entry with the given names below a path. -/
def pathBelow (root : Path) (names : Place) : Path :=
  names.foldl (fun p name => p.join ⟨name⟩) root

/-- Whether an entry below a root is a file, or a link that leads to one. -/
def isStream (fs : FileSystem) (root : Path) (names : Place) : Node → Bool
  | .file _ => true
  | .link _ => fs.hasFile (pathBelow root names)
  | .directory => false

/-- Whether an entry below a root is a stream that a search looks for. -/
def isFound (fs : FileSystem) (root : Path) (pattern : Option (List Glob.Token)) (deep : Bool)
    (entry : Place × Node) : Bool :=
  (deep || entry.1.length == 1) && isStream fs root entry.1 entry.2 && isMatched pattern entry.1

/-- The names of the streams below a root that leads to a place, in order. -/
def namesBelow (fs : FileSystem) (root : Path) (place : Place) (pattern : Option (List Glob.Token))
    (deep : Bool) : List Place :=
  (((fs.below place).filter (isFound fs root pattern deep)).map Prod.fst).mergeSort comesBefore

/-- A directory below a root that cannot be opened, and why. -/
def unopened? (fs : FileSystem) (root : Path) (place : Place) : Option (Path × OsError) :=
  (fs.below place).findSome? fun (names, node) =>
    match node, fs.find (pathBelow root names) with
    | .directory, .error e => some (pathBelow root names, e)
    | _, _ => none

/-- The failure of a search that cannot open a directory. -/
def unvisited (root directory : Path) (e : OsError) : Failure :=
  ((Failure.of (.system e)).during (.visit directory e)).during (.list root)

/-- The streams below a root. -/
def search (fs : FileSystem) (root : Path) (pattern : Option String) (recursive cancelled : Bool) :
    Attempt (List Path) :=
  match readPattern pattern with
  | .error f => .error f
  | .ok tokens =>
    if cancelled then failWith .cancelled
    else
      match fs.find root with
      | .error e => .error (unvisited root root e)
      | .ok (place, .directory) =>
        let deep := goesDeep pattern recursive
        -- a search of the first level opens no directory but the root
        match if deep then unopened? fs root place else none with
        | some (directory, e) => .error (unvisited root directory e)
        | none => .ok ((namesBelow fs root place tokens deep).map (pathBelow root))
      | .ok _ => .ok []

/-! ## Columns of a stream -/

/-- The first line of a content, with its newline. -/
def firstLine (bytes : Bytes) : Bytes :=
  match bytes.dropWhile (· ≠ 0x0A) with
  | [] => bytes
  | newline :: _ => bytes.takeWhile (· ≠ 0x0A) ++ [newline]

/-- The names of the columns that a first line holds, blank ones aside. -/
def columnsOfLine (line : Bytes) : List String :=
  (trimmedFields (trimEnd (Utf8.decodeLossy line))).filter (!·.isEmpty)

/-- The names of the columns of a stream; one that cannot be read has none. -/
def columns (fs : FileSystem) (path : Path) : List String :=
  match fs.readFile path with
  | .error _ => []
  | .ok bytes => columnsOfLine (firstLine bytes)

end Discovery

end Haulage
