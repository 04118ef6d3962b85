import Haulage.Connections.Store
import Haulage.Proofs.Files.Directories
import Haulage.Proofs.Json.Tokens
import Haulage.Text.Utf8.RoundTrip

/-!
# Registries read back

The file of a registry holds nothing but the registry: it is read back with the same connections and
the same properties, whatever characters stand in their names and values. A registry that has been
saved is the one that is loaded from then on. Whether it can be saved depends on the file system
alone, not on the connections, and a file system that has accepted one registry accepts every
further one.

- `takes_readMap`: a map is read back when the values in it are.
- `read_pretty_toValue`: so is a registry.
- `ofContent_content`: so is its file.
- `result_save_eq_ok_iff`: a registry is saved exactly where its file can be written.
- `load_save`: it is loaded as it was saved.
- `Writable.files_save`: its file can be written again.
- `read_back_after_save`: the connections, and what names stand for, are the same as before.
-/

set_option autoImplicit false

namespace Haulage.Registry

open Haulage.Json Value

/-! ## Maps -/

section Map

variable {α : Type} {readOne : Cursor → Reading α} {form : α → Value} {level : Nat}

/-- The members that stand for the entries of a map, given the form of a value. -/
def membersFor (form : α → Value) (entries : List (String × α)) : Members :=
  entries.map fun e => (e.1, form e.2)

theorem length_le_prettyMembers (level : Nat) (ms : Members) :
    ms.length ≤ (prettyMembers level ms).length := by
  induction ms with
  | nil => exact Nat.zero_le _
  | cons m more ih =>
      simp only [prettyMembers, List.length_append, List.length_cons]
      omega

/-- A member is bound, and reading goes on behind it. -/
theorem exists_readEntries_member (first : Bool) {gap : List Char} (hgap : IsGap gap) (key : String)
    {chars : List Char} {v : α} (hv : Takes readOne chars v) (soFar : SortedMap α) (fuel : Nat)
    (rest : List Char) (place : Position) :
    ∃ after, readEntries readOne (fuel + 1) first soFar
        ⟨memberHead first gap key ++ (chars ++ rest), place⟩ =
      readEntries readOne fuel false (soFar.insert key v) ⟨rest, after⟩ := by
  obtain ⟨opened, closed, behind, hkey, hbody, hcolon⟩ :=
    exists_memberHead first hgap key (chars ++ rest) place
  obtain ⟨after, hread⟩ := hv rest behind
  refine ⟨after, ?_⟩
  rw [readEntries]
  simp only [hkey, hbody, hcolon, hread]

/-- The end of a map is found behind blanks. -/
theorem exists_readEntries_done (first : Bool) {gap : List Char} (hgap : IsGap gap)
    (soFar : SortedMap α) (fuel : Nat) (rest : List Char) (place : Position) :
    ∃ after, readEntries readOne (fuel + 1) first soFar ⟨gap ++ '\x7d' :: rest, place⟩ =
      .ok (soFar, ⟨rest, after⟩) := by
  obtain ⟨after, hdone⟩ := exists_nextKey_done first hgap rest place
  refine ⟨after, ?_⟩
  rw [readEntries]
  simp only [hdone]

/-- The further members of a map are bound in turn. -/
theorem exists_readEntries (hone : ∀ v, Takes readOne (' ' :: prettyChars (level + 1) (form v)) v)
    (entries : List (String × α)) (soFar : SortedMap α) {fuel : Nat} (hfuel : entries.length < fuel)
    (rest : List Char) (place : Position) :
    ∃ after, readEntries readOne fuel false soFar
        ⟨prettyMembers level (membersFor form entries) ++ rest, place⟩ =
      .ok (entries.foldl (fun m e => m.insert e.1 e.2) soFar, ⟨rest, after⟩) := by
  -- each member costs one unit of fuel and goes into the map that the others are read into
  induction entries generalizing soFar fuel place with
  | nil =>
      obtain ⟨fuel, rfl⟩ := Nat.exists_eq_succ_of_ne_zero (Nat.ne_of_gt hfuel)
      simp only [membersFor, List.map_nil, prettyMembers, List.append_assoc]
      exact exists_readEntries_done false (isGap_newline level) soFar fuel rest place
  | cons e more ih =>
      obtain ⟨fuel, rfl⟩ := Nat.exists_eq_succ_of_ne_zero (Nat.ne_zero_of_lt hfuel)
      obtain ⟨behind, hmember⟩ := exists_readEntries_member false (isGap_newline (level + 1)) e.1
        (hone e.2) soFar fuel (prettyMembers level (membersFor form more) ++ rest) place
      obtain ⟨after, hmore⟩ := ih (soFar.insert e.1 e.2) (Nat.lt_of_succ_lt_succ hfuel) behind
      refine ⟨after, ?_⟩
      rw [List.foldl_cons, ← hmore, ← hmember]
      simp [membersFor, prettyMembers, memberHead, memberLead]

theorem exists_readMap_open {gap : List Char} (hgap : IsGap gap) (rest : List Char)
    (place : Position) :
    ∃ after, readMap readOne ⟨gap ++ '\x7b' :: rest, place⟩ =
      readEntries readOne (2 * (rest.length + 1) + 2) true .empty ⟨rest, after⟩ := by
  obtain ⟨brace, hskip⟩ := exists_skipGap hgap (c := '\x7b') rfl rest place
  refine ⟨brace.after '\x7b', ?_⟩
  simp only [readMap, hskip]
  rfl

/-- A map is read back when the values in it are. -/
theorem takes_readMap (hone : ∀ v, Takes readOne (' ' :: prettyChars (level + 1) (form v)) v)
    (m : SortedMap α) :
    Takes (readMap readOne) (' ' :: prettyChars level (.object (membersFor form m.toList))) m := by
  intro rest place
  have hm : m.toList.foldl (fun m e => m.insert e.1 e.2) .empty = m := m.ofList_toList
  cases hentries : m.toList with
  | nil =>
      rw [hentries, List.foldl_nil] at hm
      obtain ⟨brace, hopen⟩ := exists_readMap_open isGap_space ('\x7d' :: rest) place
      obtain ⟨after, hdone⟩ := exists_readEntries_done true isGap_nil .empty
        (2 * (rest.length + 2) + 1) rest brace
      rw [hm] at hopen hdone
      exact ⟨after, hopen.trans hdone⟩
  | cons e more =>
      rw [hentries, List.foldl_cons] at hm
      -- the first member needs no comma; the others follow it
      generalize hothers : prettyMembers level (membersFor form more) ++ rest = others
      obtain ⟨brace, hopen⟩ := exists_readMap_open isGap_space
        (memberHead true (newline (level + 1)) e.1 ++
          (' ' :: prettyChars (level + 1) (form e.2) ++ others)) place
      generalize hfuel : 2 * (_ + 1) + 2 = fuel at hopen
      obtain ⟨fuel, rfl⟩ : ∃ n, fuel = n + 1 := ⟨fuel - 1, by omega⟩
      obtain ⟨behind, hmember⟩ := exists_readEntries_member true (isGap_newline (level + 1)) e.1
        (hone e.2) .empty fuel others brace
      have henough : more.length < fuel := by
        have hothersLength := congrArg List.length hothers
        have hmembers := length_le_prettyMembers level (membersFor form more)
        simp only [membersFor, List.length_map, List.length_append] at hothersLength hmembers hfuel
        omega
      obtain ⟨after, hmore⟩ := exists_readEntries hone more (SortedMap.empty.insert e.1 e.2) henough
        rest behind
      rw [hothers, hm] at hmore
      refine ⟨after, ?_⟩
      rw [← hmore, ← hmember, ← hopen, ← hothers]
      simp [membersFor, prettyChars, memberHead, memberLead]

end Map

/-! ## Registries -/

theorem takes_readText (level : Nat) (s : String) :
    Takes readText (' ' :: prettyChars level (.string s)) s := by
  intro rest place
  obtain ⟨quote, hskip⟩ := exists_skipGap isGap_space (c := '"') rfl
    ((s.toList.flatMap Json.escapedChar ++ ['"']) ++ rest) place
  obtain ⟨after, hbody⟩ := takes_readStringBody s rest (quote.after '"')
  refine ⟨after, ?_⟩
  have hchars : ' ' :: prettyChars level (.string s) ++ rest =
      [' '] ++ '"' :: ((s.toList.flatMap Json.escapedChar ++ ['"']) ++ rest) := rfl
  rw [readText, hchars, hskip]
  exact hbody

/-- The properties of a connection are read back. -/
theorem takes_readProperties (level : Nat) (props : Properties) :
    Takes (readMap readText) (' ' :: prettyChars level (propertiesValue props)) props :=
  takes_readMap (takes_readText (level + 1)) props

/-- All connections are read back. -/
theorem takes_readConnections (level : Nat) (connections : SortedMap Properties) :
    Takes readConnections
      (' ' :: prettyChars level (.object (membersFor propertiesValue connections.toList)))
      connections :=
  takes_readMap (takes_readProperties (level + 1)) connections

/-- The characters of a registry behind its opening brace. -/
def bodyChars (r : Registry) : List Char :=
  memberHead true (newline 1) "connections" ++
    (' ' :: prettyChars 1 (.object (membersFor propertiesValue r.connections.toList)) ++
      (newline 0 ++ ['\x7d']))

theorem toList_pretty_toValue (r : Registry) : r.toValue.pretty.toList = '\x7b' :: bodyChars r := by
  simp [pretty, toValue, prettyChars, prettyMembers, bodyChars, memberHead, memberLead, membersFor]

/-- The one member of a registry is read back. -/
theorem exists_readFields (r : Registry) (fuel : Nat) (place : Position) :
    ∃ after, readFields (fuel + 2) true none ⟨bodyChars r, place⟩ =
      .ok (some r.connections, ⟨[], after⟩) := by
  obtain ⟨opened, closed, behind, hkey, hbody, hcolon⟩ :=
    exists_memberHead true (isGap_newline 1) "connections"
      (' ' :: prettyChars 1 (.object (membersFor propertiesValue r.connections.toList)) ++
        (newline 0 ++ ['\x7d'])) place
  obtain ⟨last, hconnections⟩ :=
    takes_readConnections 1 r.connections (newline 0 ++ ['\x7d']) behind
  obtain ⟨after, hdone⟩ := exists_nextKey_done false (isGap_newline 0) [] last
  refine ⟨after, ?_⟩
  rw [readFields, bodyChars]
  simp only [hkey, hbody, if_true, Option.isSome_none, Bool.false_eq_true, if_false, hcolon,
    hconnections]
  rw [readFields]
  simp only [hdone]

/-- A registry is read back from its text. -/
theorem read_pretty_toValue (r : Registry) : read r.toValue.pretty = .ok r := by
  have hopen := skipGap_cons (c := '\x7b') rfl (bodyChars r) ⟨1, 0⟩
  obtain ⟨after, hfields⟩ :=
    exists_readFields r (2 * (bodyChars r).length + 2) (Position.after ⟨1, 0⟩ '\x7b')
  have hregistry : readRegistry ⟨'\x7b' :: bodyChars r, ⟨1, 0⟩⟩ = .ok (r, ⟨[], after⟩) := by
    simp only [readRegistry, hopen, if_true]
    rw [Cursor.fuel]
    exact congrArg (Except.map _) hfields
  rw [read, Cursor.start, toList_pretty_toValue, hregistry]
  simp only [readEnd_nil]
  rfl

/-- A registry is read back from its file. -/
theorem ofContent_content (r : Registry) (path : Path) : ofContent path r.content = .ok r := by
  rw [ofContent, content, Utf8.decode_encode]
  simp only [read_pretty_toValue]

/-! ## The file -/

/-- A file system that accepts a file at a path: the directories above it are there or can be
created, and then the file can be written. -/
def Writable (fs : FileSystem) (path : Path) : Prop :=
  ∃ fs' d, fs.makeDirectories (path.parent?.getD ⟨""⟩) = (fs', .ok ()) ∧
    fs'.destination path = .ok d

section Save

variable {fs fs' : FileSystem} {path : Path} {d : FileSystem.Destination}

/-- A registry is saved as the file at its path, below the directories that have been created. -/
theorem save_of_destination (r : Registry)
    (hdirectories : fs.makeDirectories (path.parent?.getD ⟨""⟩) = (fs', .ok ()))
    (hfile : fs'.destination path = .ok d) :
    r.save fs path = (fs'.put d.place (.file r.content), .ok ()) := by
  rw [save]
  simp only [hdirectories, FileSystem.writeFile, hfile]
  rfl

/-- A registry is saved exactly where its file can be written. -/
theorem result_save_eq_ok_iff (r : Registry) : (r.save fs path).2 = .ok () ↔ Writable fs path := by
  constructor
  · intro h
    rw [save] at h
    split at h
    · cases h
    · rename_i fs' hdirectories
      split at h
      · cases h
      · rename_i fs'' hwritten
        cases hd : fs'.destination path with
        | error e =>
            rw [FileSystem.writeFile, hd] at hwritten
            cases hwritten
        | ok d => exact ⟨fs', d, hdirectories, hd⟩
  · rintro ⟨fs', d, hdirectories, hfile⟩
    rw [save_of_destination r hdirectories hfile]

/-- A registry is loaded from the file that holds it. -/
theorem load_of_find_content {r : Registry} {place : Place}
    (hfind : fs.find path = .ok (place, .file r.content)) : load fs path = .ok r := by
  rw [load, FileSystem.hasEntry, FileSystem.readFile, FileSystem.openToRead_of_find_file hfind,
    hfind]
  exact ofContent_content r path

/-- A registry is loaded as it was saved. -/
theorem load_save (r : Registry) (hwritable : Writable fs path) :
    load (r.save fs path).1 path = .ok r := by
  obtain ⟨fs', d, hdirectories, hfile⟩ := hwritable
  rw [save_of_destination r hdirectories hfile]
  exact load_of_find_content (FileSystem.find_put_destination hfile r.content)

/-- Where a registry has been saved, its file can be written again. -/
theorem Writable.files_save (hwritable : Writable fs path) (r : Registry) :
    Writable (r.save fs path).1 path := by
  obtain ⟨fs', d, hdirectories, hfile⟩ := hwritable
  rw [save_of_destination r hdirectories hfile]
  -- the directories have come up by now, and the file that was put leaves the way to them as it was
  have hroads := FileSystem.roadsKept_put_destination hfile r.content
  exact ⟨_, _, FileSystem.makeDirectories_of_roadsKept hdirectories hroads,
    FileSystem.destination_put_destination hfile r.content⟩

/-- A bare name that is no directory or link can be written. -/
theorem writable_of_isPlain {name : String} (hname : FileSystem.IsPlain name)
    (hparent : Path.parent? ⟨name⟩ = some ⟨""⟩) {content : Option Bytes}
    (hnode : fs.node? (fs.here ++ [name]) = content.map .file) : Writable fs ⟨name⟩ := by
  refine ⟨fs, _, ?_, FileSystem.destination_of_isPlain hname hnode⟩
  rw [hparent]
  exact FileSystem.makeDirectories_of_isEmpty fs rfl

end Save

/-- A registry that is saved where its file can be written is read back with the same connections,
so every name stands for what it stood for. -/
theorem read_back_after_save (r : Registry) {fs : FileSystem} {path : Path}
    (hwritable : Writable fs path) :
    ∃ fs' r', r.save fs path = (fs', .ok ()) ∧ load fs' path = .ok r' ∧
      r'.connections = r.connections ∧
      ∀ name, r'.lookup name = r.lookup name ∧ r'.resolve name = r.resolve name := by
  have hsaved : (r.save fs path).2 = .ok () := (result_save_eq_ok_iff r).mpr hwritable
  refine ⟨(r.save fs path).1, r, ?_, load_save r hwritable, rfl, ?_⟩
  · rw [← hsaved]
  · intro name
    exact ⟨rfl, rfl⟩

/-- Names and values of all kinds: empty ones, quotes, backslashes, control characters, line ends
and characters outside the basic plane. -/
def oddlyNamed : Registry :=
  ⟨.ofList
    [("", .empty), ("\"\\/", .ofList [("", ""), ("url", "file://\"a\\b\"\n\t\x7f")]),
      ("\x00\x1f\u2028", .ofList [("naïve 😀", "\x08\x0c\r\x7b\"connections\":null\x7d")])]⟩

/-- They are read back from a file that was missing. -/
theorem read_back_oddlyNamed :
    Writable (.ofFiles []) ⟨"env.json"⟩ ∧
      ∃ fs' r', oddlyNamed.save (.ofFiles []) ⟨"env.json"⟩ = (fs', .ok ()) ∧
        load fs' ⟨"env.json"⟩ = .ok r' ∧ r'.connections = oddlyNamed.connections ∧
        ∀ name, r'.lookup name = oddlyNamed.lookup name ∧
          r'.resolve name = oddlyNamed.resolve name := by
  have hname : FileSystem.IsPlain "env.json" := by decide +kernel
  have hparent : Path.parent? ⟨"env.json"⟩ = some ⟨""⟩ := by decide +kernel
  have hwritable : Writable (.ofFiles []) ⟨"env.json"⟩ :=
    @writable_of_isPlain (.ofFiles []) "env.json" hname hparent none rfl
  exact ⟨hwritable, read_back_after_save oddlyNamed hwritable⟩

end Haulage.Registry
