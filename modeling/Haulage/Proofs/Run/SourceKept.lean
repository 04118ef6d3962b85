import Haulage.Proofs.Run.Task
import Haulage.Proofs.Run.Transfer

/-!
# The source of a run

A run between files writes nothing but its target, so its source keeps its bytes unless the two are
one file. They are told apart before the directories above the target come up. A path that leads
nowhere by then, as `new/../a.csv` does while `new` is missing, can lead to the source afterwards,
and the source is emptied or added to.

- `node?_toFile`: a file that is not the target is left alone.
- `node?_toFile_of_same`: what becomes of a source that is the target.
- `source_kept_iff`: when the source keeps its bytes.
-/

set_option autoImplicit false

namespace Haulage

open FileSystem

namespace Transfer

variable {s : Surroundings} {fs fs₁ : FileSystem} {o : RunOptions} {source target : Path}
  {plan : CopyPlan} {d : Destination}

/-- Two paths of which one leads nowhere are not told apart. -/
theorem checkDistinct_of_hidden (h : fs.hasEntry source = false ∨ fs.hasEntry target = false) :
    checkDistinct fs source target = .ok () := by
  simp only [checkDistinct, canonical]
  simp only [hasEntry] at h
  cases hs : fs.find source with
  | error e => rfl
  | ok a =>
      cases ht : fs.find target with
      | error e => rfl
      | ok b => simp [hs, ht] at h

/-- A write to the target leaves a file at another place alone. -/
theorem node?_put_of_opens (h : Opens fs o source target plan fs₁ d) {place : Place}
    {content : Bytes} (hplace : fs.node? place = some (.file content)) (hne : d.place ≠ place)
    (new : Bytes) : (fs₁.put d.place (.file new)).node? place = some (.file content) := by
  rw [node?_put fs₁ _ (place_ne_nil_of_destination h.destination), if_neg hne]
  exact h.grown.node?_of_some hplace

/-- A file that the target does not lead to is left alone. -/
theorem node?_toFile {place : Place} {content : Bytes}
    (hplace : fs.node? place = some (.file content))
    (hne : ∀ plan fs₁ d, Opens fs o source target plan fs₁ d → d.place ≠ place) :
    (toFile s fs o source target).files.node? place = some (.file content) := by
  have hcourse := course_toFile s fs o source target
  generalize toFile s fs o source target = transfer at hcourse
  cases hcourse with
  | refused => exact hplace
  | unopened => exact (grown_makeParent fs target).node?_of_some hplace
  | sourceless hopens =>
      exact node?_put_of_opens hopens hplace (hne _ _ _ hopens) _
  | copied hopens =>
      exact node?_put_of_opens hopens hplace (hne _ _ _ hopens) _

/-- A source that is the target is cut down to what the mode keeps and then copied behind that. -/
theorem node?_toFile_of_same (hopens : Opens fs o source target plan fs₁ d) {content : Bytes}
    (hf : fs₁.find source = .ok (d.place, .file content)) :
    (toFile s fs o source target).files.node? d.place =
      some (.file (d.kept o.appends ++ deliveredBytes
        (Copy.lines o plan ⟨source, Lines.ofBytes (d.kept o.appends), s.cancelAfter⟩))) := by
  have hcopy : Copy.file (opened fs₁ d o.appends) source o plan s.cancelAfter =
      .ok (Copy.lines o plan ⟨source, Lines.ofBytes (d.kept o.appends), s.cancelAfter⟩) :=
    file_of_find (find_opened_of_eq hopens hf (d.kept o.appends))
  rw [toFile]
  simp only [hopens.distinct, hopens.planned,
    openTarget_of_destination hopens.parents hopens.destination, hcopy]
  rw [opened, put_put, node?_put _ _ (place_ne_nil_of_destination hopens.destination), if_pos rfl]

/-- Nothing is copied from an empty source. -/
theorem deliveredBytes_of_empty_source (o : RunOptions) (plan : CopyPlan) (path : Path)
    (cancelAfter : Option Nat) :
    deliveredBytes (Copy.lines o plan ⟨path, Lines.ofBytes [], cancelAfter⟩) = [] := by
  rw [Copy.lines]
  split <;> rfl

end Transfer

namespace Run

open Transfer

variable {s : Surroundings} {r : Registry} {o : RunOptions} {fs : FileSystem} {ctx : Context}
  {source target : Path}

/-- The run overwrites its source, a file with the given place and content: its options are in
order, one of its paths leads nowhere at first, and the target leads to the source once the
directories above it are there. A mode that adds to the target then copies at least a byte behind
the source; any other mode takes its bytes. -/
structure Overwrites (s : Surroundings) (r : Registry) (o : RunOptions) (fs : FileSystem)
    (source target : Path) (place : Place) (content : Bytes) : Prop where
  begun : ∃ t, Task.ofOptions r fs o = .ok t
  hidden : fs.hasEntry source = false ∨ fs.hasEntry target = false
  changed : ∃ plan fs₁ d,
    CopyPlan.forTarget fs target o = .ok plan ∧ makeParent fs target = (fs₁, .ok ()) ∧
      fs₁.destination target = .ok d ∧ d.place = place ∧
      if o.appends then
        deliveredBytes (Copy.lines o plan ⟨source, Lines.ofBytes content, s.cancelAfter⟩) ≠ []
      else content ≠ []

/-- A transfer whose paths both lead somewhere at first does not reach its source
through its target. -/
theorem hidden_of_opens {plan : CopyPlan} {fs₁ : FileSystem} {d : Destination} {content : Bytes}
    (hopens : Opens fs o source target plan fs₁ d)
    (hf : fs₁.find source = .ok (d.place, .file content)) :
    fs.hasEntry source = false ∨ fs.hasEntry target = false := by
  simp only [hasEntry]
  cases hs : fs.find source with
  | error e => exact .inl rfl
  | ok a =>
      cases ht : fs.find target with
      | error e => exact .inr rfl
      | ok b =>
          -- directories that come up do not move what was found before
          exfalso
          obtain ⟨p, n⟩ := a
          obtain ⟨q, m⟩ := b
          apply ne_of_checkDistinct hopens.distinct hs ht
          have hs₁ := find_of_grown hopens.grown hs
          rw [hf, Except.ok.injEq, Prod.mk.injEq] at hs₁
          have ht₁ := find_of_grown hopens.grown ht
          rcases find_of_destination hopens.destination with hd | ⟨hd, -⟩
          · rw [hd, Except.ok.injEq, Prod.mk.injEq] at ht₁
            exact hs₁.1.symm.trans ht₁.1
          · rw [hd] at ht₁
            cases ht₁

/-- A run whose target leads to its source once it is open overwrites it when there is anything to
lose or to add. -/
theorem overwrites_iff_of_opens {t : Task} (ht : Task.ofOptions r fs o = .ok t) {plan : CopyPlan}
    {fs₁ : FileSystem} {d : Destination} {content : Bytes}
    (hopens : Opens fs o source target plan fs₁ d)
    (hf : fs₁.find source = .ok (d.place, .file content)) :
    Overwrites s r o fs source target d.place content ↔
      if o.appends then
        deliveredBytes (Copy.lines o plan ⟨source, Lines.ofBytes content, s.cancelAfter⟩) ≠ []
      else content ≠ [] := by
  constructor
  · rintro ⟨-, -, plan', fs₁', d', hplan, -, -, -, hchanged⟩
    rw [hopens.planned, Except.ok.injEq] at hplan
    subst hplan
    exact hchanged
  · intro hchanged
    exact ⟨⟨t, ht⟩, hidden_of_opens hopens hf, plan, fs₁, d, hopens.planned, hopens.parents,
      hopens.destination, rfl, hchanged⟩

/-- A run between files leaves its source, as it is found when it is opened, exactly as it was
unless it overwrites it. -/
theorem source_kept_iff {place : Place} {content : Bytes}
    (hsource : r.endpoint fs o.sourceConnection o.sourceStream = .ok (.file source))
    (hstdout : o.toStdout = false)
    (htarget : r.endpoint fs o.targetConnection o.targetObject = .ok (.file target))
    (hfile : (makeParent fs target).1.find source = .ok (place, .file content)) :
    (execute s r o fs ctx).files.node? place = fs.node? place ↔
      ¬Overwrites s r o fs source target place content := by
  have hbefore : fs.node? place = some (.file content) :=
    (grown_makeParent fs target).node?_of_file (node?_of_find_file hfile)
  rw [hbefore]
  rcases execute_between_files hsource hstdout htarget with ⟨f, ht, hexec⟩ | ⟨t, ht, -, hexec⟩
  · -- a run without a task overwrites nothing
    rw [hexec]
    refine ⟨fun _ hover => ?_, fun _ => hbefore⟩
    obtain ⟨t, ht'⟩ := hover.begun
    rw [ht] at ht'
    cases ht'
  · rw [hexec, files_concluded]
    by_cases hsame : ∃ plan fs₁ d, Opens fs o source target plan fs₁ d ∧ d.place = place
    · obtain ⟨plan, fs₁, d, hopens, rfl⟩ := hsame
      rw [hopens.parents] at hfile
      have hcontent := content_of_find_of_destination hopens.destination hfile
      rw [overwrites_iff_of_opens ht hopens hfile, node?_toFile_of_same hopens hfile,
        Destination.kept, hcontent]
      cases o.appends with
      | true => simp
      | false =>
          -- the source is read when it is already empty
          simp [deliveredBytes_of_empty_source, eq_comm]
    · -- a target that does not lead to the source leaves it alone
      refine ⟨fun _ hover => hsame ?_, fun _ => node?_toFile hbefore ?_⟩
      · obtain ⟨plan, fs₁, d, hplan, hparents, hd, hplace, -⟩ := hover.changed
        exact ⟨plan, fs₁, d, ⟨checkDistinct_of_hidden hover.hidden, hplan, hparents, hd⟩, hplace⟩
      · intro plan fs₁ d hopens hplace
        exact hsame ⟨plan, fs₁, d, hopens, hplace⟩

/-- A list by itself. -/
def listFiles : FileSystem :=
  ofFiles [("in.csv", Utf8.encode "id\n1\n2\n")]

theorem source_kept_between :
    (execute .quiet .empty (.between "in.csv" "out.csv" .fullRefresh) listFiles []).files.node?
      ["in.csv"] = some (.file (Utf8.encode "id\n1\n2\n")) := by
  generalize ho : RunOptions.between "in.csv" "out.csv" .fullRefresh = o
  have hsource : Registry.empty.endpoint listFiles o.sourceConnection o.sourceStream =
      .ok (.file ⟨"in.csv"⟩) := by
    subst ho
    exact Registry.endpoint_path (by decide +kernel)
  have htarget : Registry.empty.endpoint listFiles o.targetConnection o.targetObject =
      .ok (.file ⟨"out.csv"⟩) := by
    subst ho
    exact Registry.endpoint_path (by decide +kernel)
  have hstdout : o.toStdout = false := by
    subst ho
    rfl
  have hparents : makeParent listFiles ⟨"out.csv"⟩ = (listFiles, .ok ()) :=
    makeParent_of_inPlace (parentInPlace_of_bare (by decide +kernel))
  have hfile : (makeParent listFiles ⟨"out.csv"⟩).1.find ⟨"in.csv"⟩ =
      .ok (["in.csv"], .file (Utf8.encode "id\n1\n2\n")) := by
    rw [hparents]
    exact find_of_isPlain (by decide +kernel) rfl
  refine ((source_kept_iff hsource hstdout htarget hfile).mpr ?_).trans rfl
  intro hover
  obtain ⟨plan, fs₁, d, -, hparents', hd, hplace, -⟩ := hover.changed
  rw [hparents, Prod.mk.injEq] at hparents'
  obtain ⟨rfl, -⟩ := hparents'
  rw [@destination_of_isPlain _ _ (by decide +kernel) none rfl, Except.ok.injEq] at hd
  subst hd
  exact absurd hplace (by decide +kernel)

/-! ### A detour

While `nosub` is missing, the path leads nowhere and so is not taken for the source. -/

/-- A path to the list by way of a directory that is missing. -/
def detour : Path :=
  ⟨"nosub/../in.csv"⟩

theorem segments_detour : detour.segments = ["nosub", "..", "in.csv"] := by
  decide +kernel

theorem hasEntry_detour : listFiles.hasEntry detour = false := by
  simp +decide [hasEntry, find, locate, segments_detour, walk, listFiles, ofFiles, node?]

theorem makeParent_detour :
    makeParent listFiles detour = (listFiles.put ["nosub"] .directory, .ok ()) := by
  have hparent : detour.parent? = some ⟨"nosub/.."⟩ := by decide +kernel
  have hancestry : Path.ancestry "nosub/..".length ⟨"nosub/.."⟩ =
      [⟨"nosub/.."⟩, ⟨"nosub"⟩, ⟨""⟩] := by
    decide +kernel
  have hup : Path.segments ⟨"nosub/.."⟩ = ["nosub", ".."] := by decide +kernel
  have hdown : Path.segments ⟨"nosub"⟩ = ["nosub"] := by decide +kernel
  simp only [makeParent, hparent, makeDirectories, hancestry]
  simp +decide [makeAncestry, makeDirectory, hasDirectory, find, locate, hup, hdown, walk,
    listFiles, ofFiles, node?, put, putEntry, Attempt.ofSystem, Attempt.during]

theorem destination_detour :
    (listFiles.put ["nosub"] .directory).destination detour =
      .ok ⟨["in.csv"], Utf8.encode "id\n1\n2\n"⟩ := by
  simp +decide [destination, locate, segments_detour, walk, listFiles, ofFiles, node?, put,
    putEntry]

/-- A full refresh onto the list by a detour empties the list. -/
theorem source_emptied_by_detour :
    Location.read "in.csv" = .file ⟨"in.csv"⟩ ∧ Location.read detour.text = .file detour ∧
      listFiles.node? ["in.csv"] = some (.file (Utf8.encode "id\n1\n2\n")) ∧
      (execute .quiet .empty (.between "in.csv" detour.text .fullRefresh) listFiles
        []).files.node? ["in.csv"] = some (.file []) := by
  have hsource : Location.read "in.csv" = .file ⟨"in.csv"⟩ := by decide +kernel
  have htarget : Location.read detour.text = .file detour := by decide +kernel
  refine ⟨hsource, htarget, rfl, ?_⟩
  generalize ho : RunOptions.between "in.csv" detour.text .fullRefresh = o
  have ht : Task.ofOptions .empty listFiles o =
      .ok ⟨o, .file ⟨"in.csv"⟩, .location (.file detour), .null, .null, .null⟩ := by
    subst ho
    exact Task.ofOptions_of_endpoints rfl ⟨rfl, rfl, rfl⟩ (Registry.endpoint_path hsource) rfl
      (Registry.endpoint_path htarget)
  have hkeeps : o.appends = false := by
    subst ho
    rfl
  have hplan : CopyPlan.forTarget listFiles detour o = .ok .fresh := by
    rw [CopyPlan.forTarget, hkeeps, if_neg Bool.false_ne_true]
  have hopens : Opens listFiles o ⟨"in.csv"⟩ detour .fresh (listFiles.put ["nosub"] .directory)
      ⟨["in.csv"], Utf8.encode "id\n1\n2\n"⟩ :=
    ⟨checkDistinct_of_hidden (.inr hasEntry_detour), hplan, makeParent_detour, destination_detour⟩
  have hfile : (listFiles.put ["nosub"] .directory).find ⟨"in.csv"⟩ =
      .ok (["in.csv"], .file (Utf8.encode "id\n1\n2\n")) :=
    find_of_isPlain (by decide +kernel) rfl
  rw [execute_of_task ht, files_concluded, Transfer.ofTask]
  refine (node?_toFile_of_same hopens hfile).trans ?_
  rw [Destination.kept, hkeeps, if_neg Bool.false_ne_true, deliveredBytes_of_empty_source]
  rfl

end Run

end Haulage
