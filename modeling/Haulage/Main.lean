import Haulage.Program

/-!
# Entry point

Reads the arguments, the environment and those files that the command can touch, runs the program on
them, writes the changed files back and says what is to be said. Connections are not attempted and
events are not sent from here.
-/

set_option autoImplicit false

namespace Haulage.Terminal

/-- The place that an absolute path without links names. -/
def placeOf (path : String) : Place :=
  (Path.segments ⟨path⟩).filter fun name => !name.isEmpty

/-- The result of an action, or nothing if it fails. -/
def attempt? {α : Type} (action : IO α) : IO (Option α) := do
  try
    return some (← action)
  catch _ =>
    return none

/-- Takes in the directories that lead to a place. -/
def takeAncestors (fs : FileSystem) (place : Place) : FileSystem :=
  ((List.range place.length).map fun n => place.take n).foldl
    (fun fs up => if up.isEmpty then fs else fs.put up .directory) fs

/-- Takes in an entry of a directory, given the directory's place. Gives the place that
it leads to. -/
def takeEntry (fs : FileSystem) (dir : Place) (name : String) : IO (FileSystem × Option Place) := do
  let place := dir ++ [name]
  let some real ← attempt? (IO.FS.realPath (FileSystem.pathOf place).text)
    | return (fs, none)
  let target := placeOf real.toString
  let fs := takeAncestors fs target
  let fs :=
    if target == place then fs else fs.put place (.link (FileSystem.pathOf target).text)
  if ← real.isDir then
    return (if target.isEmpty then fs else fs.put target .directory, some target)
  else
    match ← attempt? (IO.FS.readBinFile real) with
    | some content => return (fs.put target (.file content.toList), some target)
    | none => return (fs, none)

/-- Takes in the entries that names lead to from a directory. -/
def takeNames (fs : FileSystem) (dir : Place) : List String → IO FileSystem
  | [] => return fs
  | name :: more => do
    if name.isEmpty || name == "." then takeNames fs dir more
    else if name == ".." then takeNames fs dir.dropLast more
    else
      match ← takeEntry fs dir name with
      | (fs, some place) => takeNames fs place more
      | (fs, none) => return fs

/-- Takes in what a path leads to. -/
def takePath (fs : FileSystem) (path : Path) : IO FileSystem :=
  takeNames fs (if path.isAbsolute then [] else fs.here) path.segments

/-- Takes in all entries below a directory, links to directories not followed. -/
partial def takeTree (fs : FileSystem) (dir : Place) : IO FileSystem := do
  let some real ← attempt? (IO.FS.realPath (FileSystem.pathOf dir).text)
    | return fs
  let some entries ← attempt? real.readDir
    | return fs
  let mut fs := fs
  for entry in entries do
    let (next, target) ← takeEntry fs dir entry.fileName
    fs := next
    if target == some (dir ++ [entry.fileName]) &&
      fs.node? (dir ++ [entry.fileName]) == some .directory
    then fs ← takeTree fs (dir ++ [entry.fileName])
  return fs

/-- Takes in what a location leads to. -/
def takeLocation (fs : FileSystem) (l : Attempt Location) : IO FileSystem :=
  match l with
  | .ok (.file path) => takePath fs path
  | _ => return fs

/-- Takes in what a connection and a stream lead to. -/
def takeEnd (fs : FileSystem) (r : Registry) (connection stream : Option String) :
    IO FileSystem := do
  let fs ←
    match connection with
    | some c => takeLocation fs (r.resolve c)
    | none => pure fs
  takeLocation fs (r.endpoint fs connection stream)

/-- Takes in what a command can touch. -/
def takeCommand (fs : FileSystem) (home : Path) (c : Command) : IO FileSystem := do
  let fs ← takePath fs (Registry.path home)
  let .ok r := Registry.load fs (Registry.path home)
    | return fs
  match c with
  | .run o =>
    let fs ← takeEnd fs r o.sourceConnection o.sourceStream
    takeEnd fs r o.targetConnection o.targetObject
  | .connections (.test name) => takeLocation fs (r.lookup name)
  | .connections (.discover name _ _ _) =>
    let fs ← takeLocation fs (r.lookup name)
    match r.lookup name with
    | .ok (.file root) =>
      match fs.find root with
      | .ok (place, .directory) => takeTree fs place
      | _ => return fs
    | _ => return fs
  | _ => return fs

/-- Writes what has changed. -/
def writeChanges (before after : FileSystem) : IO Unit := do
  for (place, node) in after.entries do
    if before.node? place != some node then
      let path := (FileSystem.pathOf place).text
      match node with
      | .file content => IO.FS.writeBinFile path ⟨content.toArray⟩
      | .directory => IO.FS.createDirAll path
      | .link _ => pure ()

/-- Says what is to be said. -/
def say (outputs : List Output) : IO Unit := do
  for output in outputs do
    match output with
    | .stdout text => IO.print text
    | .stderr text => IO.eprint text
    | .log _ => pure ()

/-- The id of the machine, from the first of the files for it that can be read. -/
def readHardwareId : IO (Option String) := do
  let first ← attempt? (IO.FS.readFile "/etc/machine-id")
  let read ←
    match first with
    | some text => pure (some text)
    | none => attempt? (IO.FS.readFile "/var/lib/dbus/machine-id")
  return (read.map Text.trim).filter (!·.isEmpty)

/-- The variables of the environment that the program looks at. -/
def readVariables : IO (List (String × String)) :=
  Machine.variableNames.filterMapM fun name => do
    return (← IO.getEnv name).map fun value => (name, value)

end Haulage.Terminal

open Haulage in
/-- Runs the program. -/
def main (arguments : List String) : IO UInt32 := do
  let started ← IO.monoNanosNow
  let known ← Terminal.readVariables
  let here := Terminal.placeOf (← IO.currentDir).toString
  let empty := (Terminal.takeAncestors ⟨[], here⟩ here).put here .directory
  let machine : Machine :=
    { lookup := fun name => (known.find? fun v => v.1 == name).map Prod.snd
      userHome := (← IO.getEnv "HOME").map fun text => ⟨text⟩
      hardwareId := ← Terminal.readHardwareId
      network := .isolated
      files := empty
      devBuild := false
      emitTime := 0
      timestamp := "now"
      elapsed := ⟨0⟩ }
  let files ←
    match CommandLine.command arguments with
    | .ok c => Terminal.takeCommand empty ((Program.settings machine c).home machine.userHome) c
    | .error _ => pure empty
  let elapsed : Duration := ⟨(← IO.monoNanosNow) - started⟩
  let result := Program.run { machine with files, elapsed } arguments
  Terminal.writeChanges files result.files
  Terminal.say result.outputs
  return UInt32.ofNat result.code
