import Haulage.Proofs.Files.Roads
import Mathlib.Data.List.Induction
import Mathlib.Data.List.Nodup

/-!
# Trees of entries

In a tree every entry stands in a directory, under a name of its own. What is listed below a
directory is then what can be reached from it through directories, without passing a link. A walk
that has come to a directory goes on from there to each entry reached in this way.

- `IsTree`: the entries of a file system form a tree.
- `mem_below_iff`: what is listed below a directory.
- `nodup_below`: nothing is listed twice.
- `walk_append`: a walk that passes a directory goes on from there.
- `walk_of_below`: a walk to an entry that is reached through directories.
-/

set_option autoImplicit false

namespace Haulage.FileSystem

/-- A name that an entry can have. -/
structure IsName (name : String) : Prop where
  whole : '/' ∉ name.toList
  nul : '\x00' ∉ name.toList
  idle : ¬(name = "" ∨ name = ".")
  up : name ≠ ".."
  short : name.utf8ByteSize ≤ longestName

instance : DecidablePred IsName := fun name =>
  decidable_of_iff
    ('/' ∉ name.toList ∧ '\x00' ∉ name.toList ∧ ¬(name = "" ∨ name = ".") ∧ name ≠ ".." ∧
      name.utf8ByteSize ≤ longestName)
    ⟨fun ⟨whole, nul, idle, up, short⟩ => ⟨whole, nul, idle, up, short⟩,
      fun h => ⟨h.whole, h.nul, h.idle, h.up, h.short⟩⟩

/-- The entries of a file system form a tree: each stands in a directory, and no two at one
place. -/
structure IsTree (fs : FileSystem) : Prop where
  distinct : (fs.entries.map Prod.fst).Nodup
  inside : ∀ entry ∈ fs.entries, entry.1 ≠ [] ∧ fs.node? entry.1.dropLast = some .directory
  named : ∀ entry ∈ fs.entries, ∀ name ∈ entry.1, IsName name

instance : DecidablePred IsTree := fun fs =>
  decidable_of_iff
    ((fs.entries.map Prod.fst).Nodup ∧
      (∀ entry ∈ fs.entries, entry.1 ≠ [] ∧ fs.node? entry.1.dropLast = some .directory) ∧
      ∀ entry ∈ fs.entries, ∀ name ∈ entry.1, IsName name)
    ⟨fun ⟨distinct, inside, named⟩ => ⟨distinct, inside, named⟩,
      fun h => ⟨h.distinct, h.inside, h.named⟩⟩

variable {fs : FileSystem} {root place names : Place} {node : Node}

/-! ## What stands at a place -/

theorem find?_of_nodup {entries : List (Place × Node)} (h : (entries.map Prod.fst).Nodup)
    (hmem : (place, node) ∈ entries) :
    entries.find? (fun e => e.1 == place) = some (place, node) := by
  induction entries with
  | nil => cases hmem
  | cons first more ih =>
      obtain ⟨hfirst, hmore⟩ := List.nodup_cons.mp h
      rw [List.find?_cons]
      rcases List.mem_cons.mp hmem with rfl | hlater
      · rw [beq_self_eq_true]
      · -- an entry at the same place would come twice
        have hne : (first.1 == place) = false := by
          apply beq_false_of_ne
          intro heq
          rw [heq] at hfirst
          exact hfirst (List.mem_map_of_mem hlater)
        rw [hne]
        exact ih hmore hlater

/-- The entry at a place is what stands there. -/
theorem IsTree.node?_eq_some_iff (h : fs.IsTree) (hne : place ≠ []) :
    fs.node? place = some node ↔ (place, node) ∈ fs.entries := by
  rw [node?, if_neg hne, Option.map_eq_some_iff]
  constructor
  · rintro ⟨entry, hfind, rfl⟩
    have hplace : entry.1 = place := by simpa using List.find?_some hfind
    rw [← hplace]
    exact List.mem_of_find?_eq_some hfind
  · intro hmem
    exact ⟨(place, node), find?_of_nodup h.distinct hmem, rfl⟩

/-! ## What is below a directory -/

/-- What can be reached from a directory through directories, by the names on the way. -/
inductive Below (fs : FileSystem) (root : Place) : Place → Node → Prop
  | child {name : String} {node : Node} (hnode : fs.node? (root ++ [name]) = some node) :
      Below fs root [name] node
  | inside {names : Place} {name : String} {node : Node}
      (hdirectory : Below fs root names .directory)
      (hnode : fs.node? (root ++ names ++ [name]) = some node) :
        Below fs root (names ++ [name]) node

theorem Below.ne_nil (h : Below fs root names node) : names ≠ [] := by
  cases h with
  | child hnode => exact List.cons_ne_nil _ _
  | inside hdirectory hnode => exact List.append_ne_nil_of_right_ne_nil _ (List.cons_ne_nil _ _)

/-- What is reached stands at its place. -/
theorem Below.node?_eq (h : Below fs root names node) : fs.node? (root ++ names) = some node := by
  cases h with
  | child hnode => exact hnode
  | inside hdirectory hnode =>
      rw [← List.append_assoc]
      exact hnode

/-- The names from a directory to a place below it. -/
def namesFrom? (root place : Place) : Option Place :=
  if root.length < place.length ∧ place.take root.length = root then some (place.drop root.length)
  else none

theorem namesFrom?_eq_some_iff :
    namesFrom? root place = some names ↔ names ≠ [] ∧ place = root ++ names := by
  rw [namesFrom?, Option.ite_none_right_eq_some, Option.some.injEq]
  constructor
  · rintro ⟨⟨hlength, hlead⟩, rfl⟩
    constructor
    · intro hnil
      rw [List.drop_eq_nil_iff] at hnil
      omega
    · have hsplit := List.take_append_drop root.length place
      rw [hlead] at hsplit
      exact hsplit.symm
  · rintro ⟨hne, rfl⟩
    have hpos := List.length_pos_iff.mpr hne
    rw [List.length_append, List.take_left, List.drop_left]
    exact ⟨⟨by omega, rfl⟩, rfl⟩

theorem below_eq (fs : FileSystem) (root : Place) : fs.below root =
    fs.entries.filterMap fun entry => (namesFrom? root entry.1).map fun names =>
      (names, entry.2) := by
  rw [below]
  congr 1
  funext ⟨place, node⟩
  dsimp only [namesFrom?]
  split <;> rfl

/-- Each entry with a place below a directory is listed there. -/
theorem mem_below_iff_mem_entries :
    (names, node) ∈ fs.below root ↔ names ≠ [] ∧ (root ++ names, node) ∈ fs.entries := by
  rw [below_eq, List.mem_filterMap]
  constructor
  · rintro ⟨⟨place, node'⟩, hmem, hentry⟩
    obtain ⟨names', hnames, heq⟩ := Option.map_eq_some_iff.mp hentry
    obtain ⟨rfl, rfl⟩ := Prod.mk.inj heq
    obtain ⟨hne, hplace⟩ := namesFrom?_eq_some_iff.mp hnames
    exact ⟨hne, hplace ▸ hmem⟩
  · rintro ⟨hne, hmem⟩
    refine ⟨(root ++ names, node), hmem, ?_⟩
    rw [namesFrom?_eq_some_iff.mpr ⟨hne, rfl⟩]
    rfl

/-- What is listed below a directory is what can be reached from it through directories. -/
theorem IsTree.mem_below_iff (h : fs.IsTree) :
    (names, node) ∈ fs.below root ↔ Below fs root names node := by
  rw [mem_below_iff_mem_entries]
  constructor
  · -- the directories on the way are entries as well
    rintro ⟨hne, hmem⟩
    induction names using List.reverseRecOn generalizing node with
    | nil => exact absurd rfl hne
    | append_singleton front name ih =>
        have hnode : fs.node? (root ++ front ++ [name]) = some node := by
          rw [List.append_assoc, h.node?_eq_some_iff (by simp)]
          exact hmem
        by_cases hfront : front = []
        · subst hfront
          rw [List.append_nil] at hnode
          exact .child hnode
        · have hparent := (h.inside _ hmem).2
          rw [← List.append_assoc, List.dropLast_concat,
            h.node?_eq_some_iff (by simp [hfront])] at hparent
          exact .inside (ih hfront hparent) hnode
  · intro hbelow
    have hne := hbelow.ne_nil
    refine ⟨hne, (h.node?_eq_some_iff (by simp [hne])).mp hbelow.node?_eq⟩

theorem IsTree.isName_of_below (h : fs.IsTree) (hbelow : Below fs root names node) :
    ∀ name ∈ names, IsName name := by
  intro name hname
  have hmem := (mem_below_iff_mem_entries.mp (h.mem_below_iff.mpr hbelow)).2
  exact h.named _ hmem name (List.mem_append_right root hname)

/-- Nothing is listed twice below a directory. -/
theorem IsTree.nodup_below (h : fs.IsTree) (root : Place) :
    ((fs.below root).map Prod.fst).Nodup := by
  have hnames : (fs.below root).map Prod.fst =
      (fs.entries.map Prod.fst).filterMap (namesFrom? root) := by
    rw [below_eq, List.map_filterMap, List.filterMap_map]
    congr 1
    funext entry
    rw [Option.map_map]
    exact Option.map_id'
  rw [hnames]
  apply h.distinct.filterMap
  -- the names from a directory tell the place
  intro place place' names hplace hplace'
  rw [Option.mem_def, namesFrom?_eq_some_iff] at hplace hplace'
  rw [hplace.2, hplace'.2]

/-! ## Walks through directories -/

/-- A walk that comes to a directory, with slashes behind it or not, goes on from there. -/
theorem walk_append {links : Nat} {dir : Place} {slashes : List String}
    (hslashes : slashes.all (· = "") = true)
    (hw : fs.walk true links dir (names ++ slashes) = .ok (.entry place .directory)) :
    ∃ left, ∀ rest, fs.walk true links dir (names ++ rest) = fs.walk true left place rest := by
  generalize hfollow : true = follow at hw
  -- the two walks take the same steps, and `left` are the links that the first one has not used up
  fun_induction fs.walk follow links dir names with
  | case1 links dir =>
      rw [List.nil_append, walk_of_all_empty hslashes] at hw
      cases hw
      exact ⟨links, fun rest => rfl⟩
  | case2 links dir name rest hidle ih =>
      rw [List.cons_append, walk, if_pos hidle] at hw
      obtain ⟨left, hleft⟩ := ih hw
      refine ⟨left, fun more => ?_⟩
      rw [List.cons_append, walk, if_pos hidle, hleft]
  | case3 links dir rest hidle ih =>
      rw [List.cons_append, walk, if_neg hidle, if_pos rfl] at hw
      obtain ⟨left, hleft⟩ := ih hw
      refine ⟨left, fun more => ?_⟩
      rw [List.cons_append, walk, if_neg hidle, if_pos rfl, hleft]
  | case4 links dir name rest hidle hup hlong =>
      rw [List.cons_append, walk, if_neg hidle, if_neg hup, if_pos hlong] at hw
      cases hw
  | case7 links dir name rest hidle hup hlong hnode ih =>
      rw [List.cons_append, walk, if_neg hidle, if_neg hup, if_neg hlong] at hw
      simp only [hnode] at hw
      obtain ⟨left, hleft⟩ := ih hw
      refine ⟨left, fun more => ?_⟩
      rw [List.cons_append, walk, if_neg hidle, if_neg hup, if_neg hlong]
      simp only [hnode, hleft]
  | case12 dir name rest hidle hup hlong target hnode hlast links path ih =>
      -- what a link stands for comes in front of the names that are left
      subst hfollow
      rw [List.cons_append, walk, if_neg hidle, if_neg hup, if_neg hlong] at hw
      simp only [hnode, Bool.not_true, Bool.and_false, Bool.false_eq_true, if_false] at hw
      rw [← List.append_assoc] at hw
      obtain ⟨left, hleft⟩ := ih hw
      refine ⟨left, fun more => ?_⟩
      rw [List.cons_append, walk, if_neg hidle, if_neg hup, if_neg hlong]
      simp only [hnode, Bool.not_true, Bool.and_false, Bool.false_eq_true, if_false]
      rw [← List.append_assoc]
      exact hleft more
  | case10 links dir name rest hidle hup hlong target hnode hlast =>
      rw [← hfollow, Bool.not_true, Bool.and_false] at hlast
      cases hlast
  | case11 dir name rest hidle hup hlong target hnode hlast =>
      subst hfollow
      rw [List.cons_append, walk, if_neg hidle, if_neg hup, if_neg hlong] at hw
      simp only [hnode, Bool.not_true, Bool.and_false, Bool.false_eq_true, if_false] at hw
      cases hw
  | case5 links dir name rest hidle hup hlong hnode hslash
  | case6 links dir name rest hidle hup hlong hnode hslash =>
      -- no directory is found at a free name
      rw [List.cons_append, walk, if_neg hidle, if_neg hup, if_neg hlong] at hw
      simp only [hnode] at hw
      split at hw <;> cases hw
  | case8 links dir name rest hidle hup hlong content hnode hlast
  | case9 links dir name rest hidle hup hlong content hnode hlast =>
      -- nor at a file
      rw [List.cons_append, walk, if_neg hidle, if_neg hup, if_neg hlong] at hw
      simp only [hnode] at hw
      split at hw <;> cases hw

/-- A name of a directory leads into it. -/
theorem walk_cons_of_directory {links : Nat} {dir : Place} {name : String} (hname : IsName name)
    (hnode : fs.node? (dir ++ [name]) = some .directory) (rest : List String) :
    fs.walk true links dir (name :: rest) = fs.walk true links (dir ++ [name]) rest := by
  rw [walk, if_neg hname.idle, if_neg hname.up, if_neg (Nat.not_lt.mpr hname.short)]
  simp only [hnode]

/-- A walk passes the directories below a directory. -/
theorem IsTree.walk_of_below (h : fs.IsTree) (hbelow : Below fs root names .directory) (links : Nat)
    (rest : List String) :
    fs.walk true links root (names ++ rest) = fs.walk true links (root ++ names) rest := by
  have hnames := h.isName_of_below hbelow
  generalize hnode : Node.directory = node at hbelow
  -- the last name is a step from the directory that the names before it lead to
  induction hbelow generalizing rest with
  | child hchild =>
      subst hnode
      exact walk_cons_of_directory (hnames _ List.mem_cons_self) hchild rest
  | @inside names name node hdirectory hchild ih =>
      subst hnode
      have hfront : ∀ name ∈ names, IsName name := fun name hname =>
        hnames name (List.mem_append_left _ hname)
      rw [List.append_assoc, ih _ hfront rfl, List.singleton_append,
        walk_cons_of_directory (hnames name (List.mem_append_right _ List.mem_cons_self)) hchild,
        List.append_assoc]

end Haulage.FileSystem
