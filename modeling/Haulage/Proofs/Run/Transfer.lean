import Haulage.Proofs.Copy.Rows
import Haulage.Proofs.Files.Directories
import Haulage.Run.Transfer

/-!
# The course of a transfer between files

A transfer between files is refused before anything is touched, or fails to open its target, or
opens it and fails to open its source, or copies. Nothing but directories comes up before the target
is opened, and nothing but the target changes from then on.

- `course_toFile`: the four courses of a transfer.
- `toFile_of_refused`: a transfer whose target contributes no plan.
- `grown_makeParent`, `makeParent_of_inPlace`, `makeParent_of_roadsKept`: the
  directories above a target.
- `find_opened_of_ne`, `find_opened_of_eq`: the source as it is once the target is open.
- `deliveredBytes_of_succeeds`: all lines of a copy that succeeds reach the target.
- `copied_of_succeeds`: a transfer that succeeds has copied its source.
-/

set_option autoImplicit false

namespace Haulage

open FileSystem

/-- The content that a target keeps when it is opened. -/
def FileSystem.Destination.kept (d : Destination) (appends : Bool) : Bytes :=
  if appends then d.content else []

namespace Transfer

variable {s : Surroundings} {fs fs₁ : FileSystem} {o : RunOptions} {source target : Path}
  {plan : CopyPlan} {d : Destination}

/-! ## The directories above a target -/

/-- The directory that a target lies in is there. -/
def ParentInPlace (fs : FileSystem) (target : Path) : Prop :=
  ∀ parent, target.parent? = some parent → parent.text.isEmpty = false →
    fs.hasDirectory parent = true

theorem grown_makeParent (fs : FileSystem) (target : Path) : Grown fs (makeParent fs target).1 := by
  rw [makeParent]
  split
  · exact .refl fs
  · split
    · exact .refl fs
    · exact grown_makeDirectories fs _

theorem makeParent_of_inPlace (h : ParentInPlace fs target) :
    makeParent fs target = (fs, .ok ()) := by
  rw [makeParent]
  split
  · rfl
  · rename_i parent hparent
    split
    · rfl
    · rename_i hempty
      rw [makeDirectories_of_hasDirectory (h parent hparent (by simpa using hempty))]
      rfl

/-- Nor are they created again while the roads are kept. -/
theorem makeParent_of_roadsKept {fs₂ : FileSystem} (h : makeParent fs target = (fs₁, .ok ()))
    (hroads : RoadsKept fs₁ fs₂) : makeParent fs₂ target = (fs₂, .ok ()) := by
  rw [makeParent] at h ⊢
  split
  · rfl
  · rename_i parent hparent
    split
    · rfl
    · rename_i hempty
      rw [hparent] at h
      simp only [hempty, Bool.false_eq_true, if_false] at h
      cases hmade : fs.makeDirectories parent with
      | mk fs' result =>
          rw [hmade] at h
          cases result with
          | error e => simp [Attempt.ofSystem, Attempt.during, failWith] at h
          | ok made =>
              obtain ⟨rfl, -⟩ := Prod.mk.inj h
              rw [makeDirectories_of_roadsKept hmade hroads]
              rfl

theorem parentInPlace_of_bare (h : target.parent? = some ⟨""⟩) : ParentInPlace fs target := by
  intro parent hparent hnonempty
  rw [h, Option.some.injEq] at hparent
  subst hparent
  cases hnonempty

/-! ## Opening the target -/

/-- A transfer that gets as far as opening its target: the file system once the directories above
the target are there, and the target as it was then. -/
structure Opens (fs : FileSystem) (o : RunOptions) (source target : Path) (plan : CopyPlan)
    (fs₁ : FileSystem) (d : Destination) : Prop where
  distinct : checkDistinct fs source target = .ok ()
  planned : CopyPlan.forTarget fs target o = .ok plan
  parents : makeParent fs target = (fs₁, .ok ())
  destination : fs₁.destination target = .ok d

theorem Opens.grown (h : Opens fs o source target plan fs₁ d) : Grown fs fs₁ := by
  have hg := grown_makeParent fs target
  rw [h.parents] at hg
  exact hg

theorem ne_of_checkDistinct (h : checkDistinct fs source target = .ok ())
    {sourcePlace targetPlace : Place} {sourceNode targetNode : Node}
    (hs : fs.find source = .ok (sourcePlace, sourceNode))
    (ht : fs.find target = .ok (targetPlace, targetNode)) : sourcePlace ≠ targetPlace := by
  rintro rfl
  simp only [checkDistinct, canonical] at h
  rw [hs, ht] at h
  simp [Except.map, failWith] at h

theorem checkDistinct_of_find {sourcePlace targetPlace : Place} {sourceNode targetNode : Node}
    (hs : fs.find source = .ok (sourcePlace, sourceNode))
    (ht : fs.find target = .ok (targetPlace, targetNode))
    (hne : pathOf sourcePlace ≠ pathOf targetPlace) :
    checkDistinct fs source target = .ok () := by
  simp only [checkDistinct, canonical]
  rw [hs, ht]
  exact if_neg hne

/-- A source that is found before any directory comes up is not the target. -/
theorem place_ne_of_distinct (h : checkDistinct fs source target = .ok ())
    (hd : fs.destination target = .ok d) {place : Place} {content : Bytes}
    (hf : fs.find source = .ok (place, .file content)) : place ≠ d.place := by
  rcases locate_of_destination hd with hl | ⟨dir, name, hl, rfl⟩
  · exact ne_of_checkDistinct h hf (find_eq_ok_iff.mpr hl)
  · -- nothing stands at a free name
    rintro rfl
    have hfree := node?_of_walk_free (locate_eq_ok_iff.mp hl).2
    rw [node?_of_find_file hf] at hfree
    cases hfree

/-- A target that is open: it exists, with what it keeps. -/
def opened (fs₁ : FileSystem) (d : Destination) (appends : Bool) : FileSystem :=
  fs₁.put d.place (.file (d.kept appends))

theorem openTarget_of_destination {appends : Bool} (hparents : makeParent fs target = (fs₁, .ok ()))
    (hd : fs₁.destination target = .ok d) :
    openTarget fs target appends =
      (opened fs₁ d appends, .ok ⟨d.place, d.kept appends⟩) := by
  rw [openTarget, hparents]
  simp only [hd]
  rfl

/-- A target is opened, or only the directories above it have come up. -/
theorem openTarget_cases (fs : FileSystem) (target : Path) (appends : Bool) :
    (∃ f, openTarget fs target appends = ((makeParent fs target).1, .error f)) ∨
      ∃ fs₁ d, makeParent fs target = (fs₁, .ok ()) ∧ fs₁.destination target = .ok d := by
  rw [openTarget]
  rcases hparents : makeParent fs target with ⟨fs₁, f | ⟨⟩⟩
  · exact .inl ⟨f, rfl⟩
  · cases hd : fs₁.destination target with
    | error e => exact .inl ⟨_, by simp only [hd]; rfl⟩
    | ok d => exact .inr ⟨fs₁, d, rfl, hd⟩

/-- The four courses of a transfer between files. -/
inductive Course (s : Surroundings) (fs : FileSystem) (o : RunOptions) (source target : Path) :
    Transfer → Prop where
  /-- The target is the source, or contributes no plan. -/
  | refused {f : Failure} :
      (checkDistinct fs source target = .error f ∨ CopyPlan.forTarget fs target o = .error f) →
      Course s fs o source target (failing fs .extract f)
  /-- The target cannot be opened. -/
  | unopened {plan : CopyPlan} {f : Failure} :
      checkDistinct fs source target = .ok () → CopyPlan.forTarget fs target o = .ok plan →
      openTarget fs target o.appends = ((makeParent fs target).1, .error f) →
      Course s fs o source target (failing (makeParent fs target).1 .extract f)
  /-- The target is open, but the source cannot be opened. -/
  | sourceless {plan : CopyPlan} {fs₁ : FileSystem} {d : Destination} {f : Failure} :
      Opens fs o source target plan fs₁ d →
      Copy.file (opened fs₁ d o.appends) source o plan s.cancelAfter = .error f →
      Course s fs o source target (failing (opened fs₁ d o.appends) .extract f)
  /-- Lines are copied. -/
  | copied {plan : CopyPlan} {fs₁ : FileSystem} {d : Destination} {c : Copied} :
      Opens fs o source target plan fs₁ d →
      Copy.file (opened fs₁ d o.appends) source o plan s.cancelAfter = .ok c →
      Course s fs o source target
        ⟨fs₁.put d.place (.file (d.kept o.appends ++ deliveredBytes c)), .load,
          progressWithin s.showProgress c.rows, resultOf c⟩

/-- Every transfer between files takes one of the four courses. -/
theorem course_toFile (s : Surroundings) (fs : FileSystem) (o : RunOptions) (source target : Path) :
    Course s fs o source target (toFile s fs o source target) := by
  rw [toFile]
  -- what comes first and fails settles the course
  cases hdistinct : checkDistinct fs source target with
  | error f => exact .refused (.inl hdistinct)
  | ok _ =>
      cases hplan : CopyPlan.forTarget fs target o with
      | error f => exact .refused (.inr hplan)
      | ok plan =>
          rcases openTarget_cases fs target o.appends with ⟨f, hopen⟩ | ⟨fs₁, d, hparents, hd⟩
          · simp only [hopen]
            exact .unopened hdistinct hplan hopen
          · have hopens : Opens fs o source target plan fs₁ d := ⟨hdistinct, hplan, hparents, hd⟩
            simp only [openTarget_of_destination hparents hd]
            cases hcopy : Copy.file (opened fs₁ d o.appends) source o plan s.cancelAfter with
            | error f => exact .sourceless hopens hcopy
            | ok c =>
                have hput : (opened fs₁ d o.appends).put d.place
                    (.file (d.kept o.appends ++ deliveredBytes c)) =
                      fs₁.put d.place (.file (d.kept o.appends ++ deliveredBytes c)) :=
                  put_put fs₁ d.place _ _
                simp only [hput]
                exact .copied hopens hcopy

/-! ## The source once the target is open -/

theorem file_of_find {path : Path} {place : Place} {content : Bytes} {cancelAfter : Option Nat}
    (hf : fs.find path = .ok (place, .file content)) :
    Copy.file fs path o plan cancelAfter =
      .ok (Copy.lines o plan ⟨path, Lines.ofBytes content, cancelAfter⟩) := by
  rw [Copy.file, openToRead_of_find_file hf]
  rfl

theorem content_of_find_of_destination (hd : fs₁.destination target = .ok d) {content : Bytes}
    (hf : fs₁.find source = .ok (d.place, .file content)) : d.content = content := by
  have hnode := node?_of_find_file hf
  rcases node?_of_destination hd with h | ⟨h, -⟩
  · rw [hnode] at h
    cases h
    rfl
  · rw [hnode] at h
    cases h

/-- A source that is another file is read as it was before the target was opened. -/
theorem find_opened_of_ne (h : Opens fs o source target plan fs₁ d) {place : Place}
    {content : Bytes} (hf : fs₁.find source = .ok (place, .file content)) (hne : place ≠ d.place)
    (new : Bytes) : (fs₁.put d.place (.file new)).find source = .ok (place, .file content) := by
  refine find_of_roadsKept (roadsKept_put_destination h.destination new) hf (.file ?_)
  rw [node?_put fs₁ _ (place_ne_nil_of_destination h.destination), if_neg fun e => hne e.symm]
  exact node?_of_find_file hf

/-- A source that is the target itself is read as it is when the target is open. -/
theorem find_opened_of_eq (h : Opens fs o source target plan fs₁ d) {content : Bytes}
    (hf : fs₁.find source = .ok (d.place, .file content)) (new : Bytes) :
    (fs₁.put d.place (.file new)).find source = .ok (d.place, .file new) := by
  refine find_of_roadsKept (roadsKept_put_destination h.destination new) hf (.file ?_)
  rw [node?_put fs₁ _ (place_ne_nil_of_destination h.destination), if_pos rfl]

/-- A transfer whose source is another file than its target copies the source into it. -/
theorem toFile_of_opens (h : Opens fs o source target plan fs₁ d) {place : Place} {content : Bytes}
    (hf : fs₁.find source = .ok (place, .file content)) (hne : place ≠ d.place) {c : Copied}
    (hc : Copy.lines o plan ⟨source, Lines.ofBytes content, s.cancelAfter⟩ = c) :
    toFile s fs o source target =
      ⟨fs₁.put d.place (.file (d.kept o.appends ++ deliveredBytes c)), .load,
        progressWithin s.showProgress c.rows, resultOf c⟩ := by
  have hcopy : Copy.file (opened fs₁ d o.appends) source o plan s.cancelAfter = .ok c := by
    rw [opened, file_of_find (find_opened_of_ne h hf hne _), hc]
  rw [toFile]
  simp only [h.distinct, h.planned, openTarget_of_destination h.parents h.destination, hcopy]
  rw [opened, put_put]

/-- A transfer whose target contributes no plan touches nothing. -/
theorem toFile_of_refused (hdistinct : checkDistinct fs source target = .ok ()) {f : Failure}
    (hplan : CopyPlan.forTarget fs target o = .error f) :
    toFile s fs o source target = failing fs .extract f := by
  rw [toFile]
  simp only [hdistinct, hplan]

/-! ## The lines of a copy -/

theorem flatten_chunks (written : List String) :
    (chunks written).flatten = Utf8.encode (Lines.unlines written) := by
  induction written with
  | nil => rfl
  | cons line more ih =>
      rw [Lines.encode_unlines_cons, ← ih]
      simp [chunks]

/-- All lines of a copy that succeeds reach the target. -/
theorem deliveredBytes_of_succeeds {c : Copied} (h : c.failure = none) :
    deliveredBytes c = Utf8.encode c.text := by
  rw [deliveredBytes, h]
  exact (Buffered.delivered_flush_foldl_write _).trans (flatten_chunks c.written)

/-- A transfer that succeeds has copied its source without a failure. -/
theorem copied_of_succeeds {stats : RunStats}
    (h : (toFile s fs o source target).result = .ok stats) :
    ∃ plan fs₁ d c, Opens fs o source target plan fs₁ d ∧
      Copy.file (opened fs₁ d o.appends) source o plan s.cancelAfter = .ok c ∧ c.failure = none ∧
      stats = ⟨c.rows, c.bytes⟩ ∧
      (toFile s fs o source target).files =
        fs₁.put d.place (.file (d.kept o.appends ++ Utf8.encode c.text)) := by
  have hcourse := course_toFile s fs o source target
  generalize toFile s fs o source target = transfer at h hcourse
  cases hcourse with
  | refused => cases h
  | unopened => cases h
  | sourceless => cases h
  | @copied plan fs₁ d c hopens hcopy =>
      simp only [resultOf] at h
      split at h
      · cases h
      · rename_i hsucceeds
        refine ⟨plan, fs₁, d, c, hopens, hcopy, hsucceeds, (Except.ok.inj h).symm, ?_⟩
        rw [deliveredBytes_of_succeeds hsucceeds]

end Transfer

end Haulage
