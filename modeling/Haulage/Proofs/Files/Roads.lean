import Haulage.Files.FileSystem

/-!
# Roads through a file system

A walk passes directories and links and ends at a spot. A file system that keeps the directories and
links of another one keeps its roads: every walk that ends at an entry of the one ends there in the
other, whatever has become of the files.

- `walk_of_roadsKept`, `find_of_roadsKept`: a walk ends at what has become of its spot.
- `node?_of_walk_file`, `node?_of_walk_free`: what a walk says of its spot is so.
- `node?_of_destination`, `find_of_destination`: where a file to be written stands.
- `walk_of_directory_created`: a directory that comes up is found.
- `find_put_destination`, `destination_put_destination`: a file that is written is found where its
  path leads, and can be written again.
- `put_put`: writing twice.
- `find_of_isPlain`, `destination_of_isPlain`: where a bare name leads.
-/

set_option autoImplicit false

namespace Haulage.FileSystem

/-- A file system in which the directories and links of another one are in place. -/
structure RoadsKept (fs fs' : FileSystem) : Prop where
  here : fs'.here = fs.here
  directory : ∀ place, fs.node? place = some .directory → fs'.node? place = some .directory
  link : ∀ place target,
    fs.node? place = some (.link target) → fs'.node? place = some (.link target)

/-- What a spot has become in a file system: a file may have other content, and a file may stand
where the name was free. -/
inductive Spot.Becomes (fs : FileSystem) : Spot → Spot → Prop where
  | directory (place : Place) : Becomes fs (.entry place .directory) (.entry place .directory)
  | link (place : Place) (target : String) :
      Becomes fs (.entry place (.link target)) (.entry place (.link target))
  | file {place : Place} {content content' : Bytes} :
      fs.node? place = some (.file content') →
      Becomes fs (.entry place (.file content)) (.entry place (.file content'))
  | created {dir : Place} {name : String} {content : Bytes} :
      fs.node? (dir ++ [name]) = some (.file content) →
      Becomes fs (.free dir name false) (.entry (dir ++ [name]) (.file content))

/-! ## Walks -/

section Walk

variable {fs fs' : FileSystem} {follow : Bool} {links : Nat} {dir : Place} {names : List String}

/-- A walk ends at what has become of its spot. -/
theorem walk_of_roadsKept (h : RoadsKept fs fs') {spot spot' : Spot}
    (hw : fs.walk follow links dir names = .ok spot) (hs : spot.Becomes fs' spot') :
    fs'.walk follow links dir names = .ok spot' := by
  fun_induction fs.walk follow links dir names with
  | case1 links dir =>
      cases hw
      cases hs
      rw [walk]
  | case2 links dir name rest hidle ih =>
      rw [walk, if_pos hidle]
      exact ih hw
  | case3 links dir rest hidle ih =>
      rw [walk, if_neg hidle, if_pos rfl]
      exact ih hw
  | case4 => cases hw
  | case5 links dir name rest hidle hup hlong hnode hslash =>
      cases hw
      -- only a spot without a slash after it can have become a file
      generalize hrest : (!rest.isEmpty) = slash at hs
      cases hs with
      | created hfile =>
          have hnil : rest = [] := by simpa using hrest
          subst hnil
          rw [walk, if_neg hidle, if_neg hup, if_neg hlong]
          simp [hfile]
  | case6 => cases hw
  | case7 links dir name rest hidle hup hlong hnode ih =>
      rw [walk, if_neg hidle, if_neg hup, if_neg hlong]
      simp only [h.directory _ hnode]
      exact ih hw
  | case8 links dir name rest hidle hup hlong content hnode hlast =>
      cases hw
      cases hs with
      | file hfile =>
          rw [walk, if_neg hidle, if_neg hup, if_neg hlong]
          simp [hfile, hlast]
  | case9 => cases hw
  | case10 links dir name rest hidle hup hlong target hnode hlast =>
      cases hw
      cases hs
      rw [walk, if_neg hidle, if_neg hup, if_neg hlong]
      simp [h.link _ _ hnode, hlast]
  | case11 => cases hw
  | case12 dir name rest hidle hup hlong target hnode hlast links path ih =>
      rw [walk, if_neg hidle, if_neg hup, if_neg hlong]
      simp only [h.link _ _ hnode, hlast]
      exact ih hw

/-- A file at the end of a walk stands at its place. -/
theorem node?_of_walk_file {place : Place} {content : Bytes}
    (hw : fs.walk follow links dir names = .ok (.entry place (.file content))) :
    fs.node? place = some (.file content) := by
  fun_induction fs.walk follow links dir names with
  | case2 links dir name rest hidle ih => exact ih hw
  | case3 links dir rest hidle ih => exact ih hw
  | case7 links dir name rest hidle hup hlong hnode ih => exact ih hw
  | case8 links dir name rest hidle hup hlong content hnode hlast =>
      cases hw
      exact hnode
  | case12 dir name rest hidle hup hlong target hnode hlast links path ih => exact ih hw
  | _ => cases hw

/-- Nothing stands at the free name at the end of a walk. -/
theorem node?_of_walk_free {place : Place} {name : String} {slash : Bool}
    (hw : fs.walk follow links dir names = .ok (.free place name slash)) :
    fs.node? (place ++ [name]) = none := by
  fun_induction fs.walk follow links dir names with
  | case2 links dir name rest hidle ih => exact ih hw
  | case3 links dir rest hidle ih => exact ih hw
  | case5 links dir name rest hidle hup hlong hnode hslash =>
      cases hw
      exact hnode
  | case7 links dir name rest hidle hup hlong hnode ih => exact ih hw
  | case12 dir name rest hidle hup hlong target hnode hlast links path ih => exact ih hw
  | _ => cases hw

/-- A path that leads to an entry leads to one as well when its last link is not followed, be it
only that link. -/
theorem exists_walk_false_of_walk_true {place : Place} {node : Node}
    (hw : fs.walk true links dir names = .ok (.entry place node)) :
    ∃ place' node', fs.walk false links dir names = .ok (.entry place' node') := by
  generalize hf : true = follow at hw
  fun_induction fs.walk follow links dir names with
  | case1 links dir => exact ⟨dir, .directory, by rw [walk]⟩
  | case2 links dir name rest hidle ih =>
      obtain ⟨place', node', h⟩ := ih hw
      exact ⟨place', node', by rw [walk, if_pos hidle, h]⟩
  | case3 links dir rest hidle ih =>
      obtain ⟨place', node', h⟩ := ih hw
      exact ⟨place', node', by rw [walk, if_neg hidle, if_pos rfl, h]⟩
  | case7 links dir name rest hidle hup hlong hnode ih =>
      obtain ⟨place', node', h⟩ := ih hw
      refine ⟨place', node', ?_⟩
      rw [walk, if_neg hidle, if_neg hup, if_neg hlong]
      simp only [hnode, h]
  | case8 links dir name rest hidle hup hlong content hnode hlast =>
      refine ⟨dir ++ [name], .file content, ?_⟩
      rw [walk, if_neg hidle, if_neg hup, if_neg hlong]
      simp only [hnode, hlast, if_true]
  | case10 links dir name rest hidle hup hlong target hnode hlast =>
      simp [← hf] at hlast
  -- the two walks part only at a link in the last place, which the second one leaves alone
  | case12 dir name rest hidle hup hlong target hnode hlast links path ih =>
      rw [walk, if_neg hidle, if_neg hup, if_neg hlong]
      cases rest with
      | nil => exact ⟨dir ++ [name], .link target, by simp [hnode]⟩
      | cons next more =>
          obtain ⟨place', node', h⟩ := ih hw
          exact ⟨place', node', by simpa [hnode] using h⟩
  | _ => cases hw

/-- Slashes behind a directory lead to the directory. -/
theorem walk_of_all_empty (h : names.all (· = "") = true) :
    fs.walk follow links dir names = .ok (.entry dir .directory) := by
  induction names with
  | nil => rw [walk]
  | cons name rest ih =>
      rw [List.all_cons, Bool.and_eq_true, decide_eq_true_iff] at h
      rw [walk, if_pos (.inl h.1), ih h.2]

/-- A walk that ended at a free name leads to the directory that has come up there, be its last link
followed or not. -/
theorem walk_of_directory_created (h : RoadsKept fs fs') {place : Place} {name : String}
    {slash : Bool} (hw : fs.walk follow links dir names = .ok (.free place name slash))
    (hcreated : fs'.node? (place ++ [name]) = some .directory) :
    fs'.walk true links dir names = .ok (.entry (place ++ [name]) .directory) := by
  fun_induction fs.walk follow links dir names with
  | case2 links dir name' rest hidle ih =>
      rw [walk, if_pos hidle]
      exact ih hw
  | case3 links dir rest hidle ih =>
      rw [walk, if_neg hidle, if_pos rfl]
      exact ih hw
  | case5 links dir name' rest hidle hup hlong hnode hslash =>
      cases hw
      rw [walk, if_neg hidle, if_neg hup, if_neg hlong]
      simp only [hcreated]
      exact walk_of_all_empty hslash
  | case7 links dir name' rest hidle hup hlong hnode ih =>
      rw [walk, if_neg hidle, if_neg hup, if_neg hlong]
      simp only [h.directory _ hnode]
      exact ih hw
  | case12 dir name' rest hidle hup hlong target hnode hlast links path ih =>
      rw [walk, if_neg hidle, if_neg hup, if_neg hlong]
      simp only [h.link _ _ hnode, Bool.not_true, Bool.and_false, Bool.false_eq_true, if_false]
      exact ih hw
  | _ => cases hw

end Walk

/-! ## Looking up a path -/

section Find

variable {fs fs' : FileSystem} {p : Path}

/-- A path that can be looked up at all. -/
structure IsUsable (p : Path) : Prop where
  nul : p.text.toList.contains '\x00' = false
  nonempty : p.text.isEmpty = false
  short : p.text.utf8ByteSize < longestPath

theorem locate_eq_ok_iff {follow : Bool} {spot : Spot} :
    fs.locate follow p = .ok spot ↔
      IsUsable p ∧
        fs.walk follow linkBudget (if p.isAbsolute then [] else fs.here) p.segments = .ok spot := by
  rw [locate]
  constructor
  · intro h
    split at h
    · cases h
    · split at h
      · cases h
      · split at h
        · cases h
        · rename_i hnul hempty hlong
          exact ⟨⟨by simpa using hnul, by simpa using hempty, by omega⟩, h⟩
  · rintro ⟨⟨hnul, hempty, hshort⟩, h⟩
    rw [hnul, hempty, if_neg (by simp), if_neg (by simp), if_neg (by omega)]
    exact h

theorem locate_of_roadsKept (h : RoadsKept fs fs') {follow : Bool} {spot spot' : Spot}
    (hl : fs.locate follow p = .ok spot) (hs : spot.Becomes fs' spot') :
    fs'.locate follow p = .ok spot' := by
  rw [locate_eq_ok_iff] at hl ⊢
  rw [h.here]
  exact ⟨hl.1, walk_of_roadsKept h hl.2 hs⟩

theorem find_eq_ok_iff {place : Place} {node : Node} :
    fs.find p = .ok (place, node) ↔ fs.locate true p = .ok (.entry place node) := by
  rw [find]
  split <;> rename_i heq <;> rw [heq] <;> simp

theorem find_of_locate_free {dir : Place} {name : String} {slash : Bool}
    (hl : fs.locate true p = .ok (.free dir name slash)) : fs.find p = .error .noSuchFile := by
  rw [find, hl]

/-- A path leads to what has become of its entry. -/
theorem find_of_roadsKept (h : RoadsKept fs fs') {place place' : Place} {node node' : Node}
    (hf : fs.find p = .ok (place, node))
    (hs : (Spot.entry place node).Becomes fs' (.entry place' node')) :
    fs'.find p = .ok (place', node') := by
  rw [find_eq_ok_iff] at hf ⊢
  exact locate_of_roadsKept h hf hs

theorem node?_of_find_file {place : Place} {content : Bytes}
    (hf : fs.find p = .ok (place, .file content)) : fs.node? place = some (.file content) :=
  node?_of_walk_file (locate_eq_ok_iff.mp (find_eq_ok_iff.mp hf)).2

theorem openToRead_of_find_file {place : Place} {content : Bytes}
    (hf : fs.find p = .ok (place, .file content)) : fs.openToRead p = .ok (.content content) := by
  rw [openToRead, hf]

end Find

/-! ## Where a file is written -/

section Destination

variable {fs fs' : FileSystem} {p : Path} {d : Destination}

/-- A path that ends in a slash is never written. -/
theorem unslashed_of_destination (hd : fs.destination p = .ok d) :
    p.text.toList.getLast? ≠ some '/' := by
  intro hslash
  rw [destination] at hd
  simp only [hslash, if_true, true_and] at hd
  split at hd
  · cases hd
  · split at hd <;> cases hd

/-- A file is written where its path leads to a file or to a free name. -/
theorem locate_of_destination (hd : fs.destination p = .ok d) :
    fs.locate true p = .ok (.entry d.place (.file d.content)) ∨
      ∃ dir name, fs.locate true p = .ok (.free dir name false) ∧ d = ⟨dir ++ [name], []⟩ := by
  have hunslashed := unslashed_of_destination hd
  rw [destination] at hd
  simp only [hunslashed, if_false, false_and] at hd
  split at hd
  · cases hd
  · rename_i spot hl
    split at hd
    · cases hd
      exact .inl hl
    · cases hd
    · rename_i dir name slash
      cases slash with
      | true => cases hd
      | false =>
          cases hd
          exact .inr ⟨dir, name, hl, rfl⟩

/-- What stands where a file is written: the file with its content so far, or nothing. -/
theorem node?_of_destination (hd : fs.destination p = .ok d) :
    fs.node? d.place = some (.file d.content) ∨ fs.node? d.place = none ∧ d.content = [] := by
  rcases locate_of_destination hd with hl | ⟨dir, name, hl, rfl⟩
  · exact .inl (node?_of_walk_file (locate_eq_ok_iff.mp hl).2)
  · exact .inr ⟨node?_of_walk_free (locate_eq_ok_iff.mp hl).2, rfl⟩

/-- The path of a file to be written leads to the file, if it is there. -/
theorem find_of_destination (hd : fs.destination p = .ok d) :
    fs.find p = .ok (d.place, .file d.content) ∨
      fs.find p = .error .noSuchFile ∧ d.content = [] := by
  rcases locate_of_destination hd with hl | ⟨dir, name, hl, rfl⟩
  · exact .inl (find_eq_ok_iff.mpr hl)
  · exact .inr ⟨find_of_locate_free hl, rfl⟩

theorem place_ne_nil_of_destination (hd : fs.destination p = .ok d) : d.place ≠ [] := by
  intro hnil
  have hroot : fs.node? d.place = some .directory := by simp [hnil, node?]
  rcases node?_of_destination hd with h | ⟨h, -⟩
  · rw [hroot] at h
    cases h
  · rw [hroot] at h
    cases h

end Destination

/-! ## Writing a file -/

section Put

variable {fs : FileSystem} {p : Path} {d : Destination}

/-- Writing a file where one can be written keeps the roads. -/
theorem roadsKept_put_destination (hd : fs.destination p = .ok d) (content : Bytes) :
    RoadsKept fs (fs.put d.place (.file content)) where
  here := rfl
  directory place h := by
    rw [node?_put fs _ (place_ne_nil_of_destination hd)]
    rw [if_neg]
    · exact h
    · rintro rfl
      rcases node?_of_destination hd with h' | ⟨h', -⟩ <;> simp [h] at h'
  link place target h := by
    rw [node?_put fs _ (place_ne_nil_of_destination hd)]
    rw [if_neg]
    · exact h
    · rintro rfl
      rcases node?_of_destination hd with h' | ⟨h', -⟩ <;> simp [h] at h'

/-- Writing a file makes no road either. -/
theorem roadsKept_of_put_destination (hd : fs.destination p = .ok d) (content : Bytes) :
    RoadsKept (fs.put d.place (.file content)) fs where
  here := rfl
  directory place h := by
    rw [node?_put fs _ (place_ne_nil_of_destination hd)] at h
    split at h
    · cases h
    · exact h
  link place target h := by
    rw [node?_put fs _ (place_ne_nil_of_destination hd)] at h
    split at h
    · cases h
    · exact h

/-- A file that is written is found where its path leads. -/
theorem find_put_destination (hd : fs.destination p = .ok d) (content : Bytes) :
    (fs.put d.place (.file content)).find p = .ok (d.place, .file content) := by
  have hroads := roadsKept_put_destination hd content
  have hnode : (fs.put d.place (.file content)).node? d.place = some (.file content) := by
    rw [node?_put fs _ (place_ne_nil_of_destination hd), if_pos rfl]
  rw [find_eq_ok_iff]
  rcases locate_of_destination hd with hl | ⟨dir, name, hl, rfl⟩
  · exact locate_of_roadsKept hroads hl (.file hnode)
  · exact locate_of_roadsKept hroads hl (.created hnode)

/-- A file that is written can be written again, and holds what was written. -/
theorem destination_put_destination (hd : fs.destination p = .ok d) (content : Bytes) :
    (fs.put d.place (.file content)).destination p = .ok ⟨d.place, content⟩ := by
  have hunslashed := unslashed_of_destination hd
  have hl := find_eq_ok_iff.mp (find_put_destination hd content)
  rw [destination]
  simp only [hunslashed, if_false, false_and, hl]

theorem putEntry_putEntry (place : Place) (first second : Node) (entries : List (Place × Node)) :
    putEntry place second (putEntry place first entries) = putEntry place second entries := by
  induction entries with
  | nil => simp [putEntry]
  | cons e rest ih =>
      obtain ⟨q, n⟩ := e
      by_cases hq : q = place
      · simp [putEntry, hq]
      · simp [putEntry, hq, ih]

/-- Of two writings at a place the second one counts. -/
theorem put_put (fs : FileSystem) (place : Place) (first second : Node) :
    (fs.put place first).put place second = fs.put place second := by
  simp [put, putEntry_putEntry]

end Put

/-! ## Bare names -/

section Plain

variable {fs : FileSystem} {name : String}

/-- The file system of some files in the working directory. -/
def ofFiles (files : List (String × Bytes)) : FileSystem :=
  ⟨files.map fun (name, content) => ([name], .file content), []⟩

/-- A name that can stand alone for an entry of the working directory. -/
structure IsPlain (name : String) : Prop where
  usable : IsUsable ⟨name⟩
  relative : Path.isAbsolute ⟨name⟩ = false
  unslashed : name.toList.getLast? ≠ some '/'
  segments : Path.segments ⟨name⟩ = [name]
  idle : ¬(name = "" ∨ name = ".")
  up : name ≠ ".."
  short : name.utf8ByteSize ≤ longestName

instance : DecidablePred IsPlain := fun name =>
  decidable_of_iff
    ((name.toList.contains '\x00' = false ∧ name.isEmpty = false ∧
      name.utf8ByteSize < longestPath) ∧
      Path.isAbsolute ⟨name⟩ = false ∧ name.toList.getLast? ≠ some '/' ∧
      Path.segments ⟨name⟩ = [name] ∧ ¬(name = "" ∨ name = ".") ∧ name ≠ ".." ∧
      name.utf8ByteSize ≤ longestName)
    ⟨fun ⟨⟨hnul, hempty, hpath⟩, h⟩ => ⟨⟨hnul, hempty, hpath⟩, h.1, h.2.1, h.2.2.1, h.2.2.2.1,
        h.2.2.2.2.1, h.2.2.2.2.2⟩,
      fun h => ⟨⟨h.usable.nul, h.usable.nonempty, h.usable.short⟩, h.relative, h.unslashed,
        h.segments, h.idle, h.up, h.short⟩⟩

/-- A bare name leads to the file of that name, or it is free. -/
theorem locate_of_isPlain (hname : IsPlain name) {content : Option Bytes}
    (hnode : fs.node? (fs.here ++ [name]) = content.map .file) :
    fs.locate true ⟨name⟩ = .ok (match content with
      | some content => .entry (fs.here ++ [name]) (.file content)
      | none => .free fs.here name false) := by
  rw [locate_eq_ok_iff, hname.relative, hname.segments]
  refine ⟨hname.usable, ?_⟩
  rw [if_neg Bool.false_ne_true, walk, if_neg hname.idle, if_neg hname.up,
    if_neg (Nat.not_lt.mpr hname.short)]
  cases content <;> simp [hnode]

theorem find_of_isPlain (hname : IsPlain name) {content : Bytes}
    (hnode : fs.node? (fs.here ++ [name]) = some (.file content)) :
    fs.find ⟨name⟩ = .ok (fs.here ++ [name], .file content) :=
  find_eq_ok_iff.mpr (@locate_of_isPlain fs name hname (some content) hnode)

theorem find_of_isPlain_of_free (hname : IsPlain name)
    (hnode : fs.node? (fs.here ++ [name]) = none) : fs.find ⟨name⟩ = .error .noSuchFile :=
  find_of_locate_free (@locate_of_isPlain fs name hname none hnode)

/-- A bare name that is no directory or link can be written. -/
theorem destination_of_isPlain (hname : IsPlain name) {content : Option Bytes}
    (hnode : fs.node? (fs.here ++ [name]) = content.map .file) :
    fs.destination ⟨name⟩ = .ok ⟨fs.here ++ [name], content.getD []⟩ := by
  rw [destination]
  simp only [hname.unslashed, if_false, false_and, locate_of_isPlain hname hnode]
  cases content <;> rfl

end Plain

end Haulage.FileSystem
