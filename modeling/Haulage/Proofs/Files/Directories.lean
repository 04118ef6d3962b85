import Haulage.Proofs.Files.Roads

/-!
# Creating directories

Creating a directory together with its missing ancestors puts directories where nothing stood
and leaves every other node alone, also when it fails half-way. A directory that is in place is
left as it is.

- `grown_makeDirectories`: only directories come up.
- `find_of_grown`: a path that leads somewhere keeps leading there.
- `makeDirectories_of_hasDirectory`: nothing is done about a directory that is there.
- `makeDirectories_of_roadsKept`: nor about one that was created before.
-/

set_option autoImplicit false

namespace Haulage.FileSystem

/-- A file system that has gained directories, and nothing else, over another one. -/
structure Grown (fs fs' : FileSystem) : Prop where
  here : fs'.here = fs.here
  node : ∀ place, fs'.node? place = fs.node? place ∨
    fs.node? place = none ∧ fs'.node? place = some .directory

namespace Grown

theorem refl (fs : FileSystem) : Grown fs fs :=
  ⟨rfl, fun _ => .inl rfl⟩

theorem trans {fs₁ fs₂ fs₃ : FileSystem} (h₁ : Grown fs₁ fs₂) (h₂ : Grown fs₂ fs₃) :
    Grown fs₁ fs₃ where
  here := h₂.here.trans h₁.here
  node place := by
    rcases h₂.node place with e₂ | ⟨n₂, d₂⟩
    · rw [e₂]
      exact h₁.node place
    · rcases h₁.node place with e₁ | ⟨-, d₁⟩
      · exact .inr ⟨e₁ ▸ n₂, d₂⟩
      · rw [d₁] at n₂
        cases n₂

variable {fs fs' : FileSystem}

/-- What stood at a place stays there. -/
theorem node?_of_some (h : Grown fs fs') {place : Place} {node : Node}
    (hn : fs.node? place = some node) : fs'.node? place = some node := by
  rcases h.node place with e | ⟨n, -⟩
  · rw [e, hn]
  · rw [hn] at n
    cases n

/-- No file comes up. -/
theorem node?_of_file (h : Grown fs fs') {place : Place} {content : Bytes}
    (hn : fs'.node? place = some (.file content)) : fs.node? place = some (.file content) := by
  rcases h.node place with e | ⟨-, d⟩
  · rw [← e, hn]
  · rw [hn] at d
    cases d

theorem roadsKept (h : Grown fs fs') : RoadsKept fs fs' where
  here := h.here
  directory _ hn := h.node?_of_some hn
  link _ _ hn := h.node?_of_some hn

end Grown

/-- A path that leads somewhere keeps leading there when directories are gained. -/
theorem find_of_grown {fs fs' : FileSystem} (h : Grown fs fs') {p : Path} {place : Place}
    {node : Node} (hf : fs.find p = .ok (place, node)) : fs'.find p = .ok (place, node) := by
  cases node with
  | file content =>
      exact find_of_roadsKept h.roadsKept hf (.file (h.node?_of_some (node?_of_find_file hf)))
  | directory => exact find_of_roadsKept h.roadsKept hf (.directory place)
  | link target => exact find_of_roadsKept h.roadsKept hf (.link place target)

/-! ## One directory and its ancestors -/

theorem grown_makeDirectory {fs fs' : FileSystem} {p : Path} (h : fs.makeDirectory p = .ok fs') :
    Grown fs fs' := by
  rw [makeDirectory] at h
  split at h
  · cases h
  · cases h
  · rename_i dir name slash hl
    cases h
    have hfree : fs.node? (dir ++ [name]) = none := node?_of_walk_free (locate_eq_ok_iff.mp hl).2
    refine ⟨rfl, fun place => ?_⟩
    rw [node?_put fs _ (by simp)]
    by_cases hp : dir ++ [name] = place
    · rw [if_pos hp]
      exact .inr ⟨hp ▸ hfree, rfl⟩
    · rw [if_neg hp]
      exact .inl rfl

/-- Only directories come up, also when an ancestor cannot be created. -/
theorem grown_makeAncestry (fs : FileSystem) (ancestry : List Path) :
    Grown fs (fs.makeAncestry ancestry).1 := by
  induction ancestry with
  | nil => exact .refl fs
  | cons p up ih =>
      rw [makeAncestry]
      split
      · exact .refl fs
      · split
        · rename_i made
          exact grown_makeDirectory made
        · -- the ancestors come first, and then the directory is tried again
          split
          · rename_i fs₁ e hup
            rw [hup] at ih
            exact ih
          · rename_i fs₁ hup
            rw [hup] at ih
            split
            · rename_i made
              exact ih.trans (grown_makeDirectory made)
            · split <;> exact ih
        · split <;> exact .refl fs

theorem grown_makeDirectories (fs : FileSystem) (p : Path) : Grown fs (fs.makeDirectories p).1 :=
  grown_makeAncestry fs _

/-! ## A directory that is there -/

theorem makeDirectory_of_hasDirectory {fs : FileSystem} {p : Path} (h : fs.hasDirectory p = true) :
    fs.makeDirectory p = .error .fileExists := by
  rw [hasDirectory] at h
  split at h
  · rename_i place hf
    rw [find_eq_ok_iff, locate_eq_ok_iff] at hf
    obtain ⟨place', node', hw⟩ := exists_walk_false_of_walk_true hf.2
    rw [makeDirectory, locate_eq_ok_iff.mpr ⟨hf.1, hw⟩]
  · cases h

theorem ancestry_eq_cons (fuel : Nat) (p : Path) : ∃ up, p.ancestry fuel = p :: up := by
  cases fuel with
  | zero => exact ⟨[], rfl⟩
  | succ fuel =>
      rw [Path.ancestry]
      split
      · exact ⟨[], rfl⟩
      · exact ⟨_, rfl⟩

/-- Nothing is done about a directory that is there. -/
theorem makeDirectories_of_hasDirectory {fs : FileSystem} {p : Path}
    (h : fs.hasDirectory p = true) : fs.makeDirectories p = (fs, .ok ()) := by
  obtain ⟨up, hup⟩ := ancestry_eq_cons p.text.length p
  rw [makeDirectories, hup, makeAncestry, makeDirectory_of_hasDirectory h]
  simp [h]

/-! ## A directory that has been created -/

theorem hasDirectory_eq_true_iff {fs : FileSystem} {p : Path} :
    fs.hasDirectory p = true ↔ ∃ place, fs.find p = .ok (place, .directory) := by
  rw [hasDirectory]
  constructor
  · intro h
    split at h
    · rename_i place hf
      exact ⟨place, hf⟩
    · cases h
  · rintro ⟨place, hf⟩
    rw [hf]

/-- A directory stays where the roads are kept. -/
theorem hasDirectory_of_roadsKept {fs fs' : FileSystem} (h : RoadsKept fs fs') {p : Path}
    (hp : fs.hasDirectory p = true) : fs'.hasDirectory p = true := by
  obtain ⟨place, hf⟩ := hasDirectory_eq_true_iff.mp hp
  exact hasDirectory_eq_true_iff.mpr ⟨place, find_of_roadsKept h hf (.directory place)⟩

/-- No directory comes or goes when a file is written. -/
theorem hasDirectory_put_destination {fs : FileSystem} {p q : Path} {d : Destination}
    (hd : fs.destination p = .ok d) (content : Bytes) :
    (fs.put d.place (.file content)).hasDirectory q = fs.hasDirectory q := by
  rw [Bool.eq_iff_iff]
  exact ⟨hasDirectory_of_roadsKept (roadsKept_of_put_destination hd content),
    hasDirectory_of_roadsKept (roadsKept_put_destination hd content)⟩

theorem hasDirectory_of_makeDirectory {fs fs' : FileSystem} {p : Path}
    (h : fs.makeDirectory p = .ok fs') : fs'.hasDirectory p = true := by
  have hroads := (grown_makeDirectory h).roadsKept
  rw [makeDirectory] at h
  split at h
  · cases h
  · cases h
  · rename_i dir name slash hl
    cases h
    obtain ⟨husable, hw⟩ := locate_eq_ok_iff.mp hl
    have hcreated : (fs.put (dir ++ [name]) .directory).node? (dir ++ [name]) =
        some .directory := by
      rw [node?_put fs _ (by simp), if_pos rfl]
    have hfound := walk_of_directory_created hroads hw hcreated
    exact hasDirectory_eq_true_iff.mpr
      ⟨dir ++ [name], find_eq_ok_iff.mpr (locate_eq_ok_iff.mpr ⟨husable, hfound⟩)⟩

/-- Where the creation of a directory with its ancestors succeeds, the directory is there. The empty
path stands for no directory to be created. -/
theorem hasDirectory_of_makeDirectories {fs fs' : FileSystem} {p : Path}
    (h : fs.makeDirectories p = (fs', .ok ())) :
    p.text.isEmpty = true ∨ fs'.hasDirectory p = true := by
  obtain ⟨up, hup⟩ := ancestry_eq_cons p.text.length p
  rw [makeDirectories, hup, makeAncestry] at h
  split at h
  · rename_i hempty
    exact .inl hempty
  · refine .inr ?_
    split at h
    · rename_i made
      cases h
      exact hasDirectory_of_makeDirectory made
    · -- the ancestors come first, and then the directory is tried again
      split at h
      · cases h
      · split at h
        · rename_i made
          cases h
          exact hasDirectory_of_makeDirectory made
        · split at h
          · rename_i hp
            cases h
            exact hp
          · cases h
    · split at h
      · rename_i hp
        cases h
        exact hp
      · cases h

theorem makeDirectories_of_isEmpty (fs : FileSystem) {p : Path} (h : p.text.isEmpty = true) :
    fs.makeDirectories p = (fs, .ok ()) := by
  obtain ⟨up, hup⟩ := ancestry_eq_cons p.text.length p
  rw [makeDirectories, hup, makeAncestry, if_pos h]

/-- Directories that have been created need not be created again while the roads are kept. -/
theorem makeDirectories_of_roadsKept {fs fs₁ fs₂ : FileSystem} {p : Path}
    (h : fs.makeDirectories p = (fs₁, .ok ())) (hroads : RoadsKept fs₁ fs₂) :
    fs₂.makeDirectories p = (fs₂, .ok ()) := by
  rcases hasDirectory_of_makeDirectories h with hempty | hp
  · exact makeDirectories_of_isEmpty fs₂ hempty
  · exact makeDirectories_of_hasDirectory (hasDirectory_of_roadsKept hroads hp)

end Haulage.FileSystem
