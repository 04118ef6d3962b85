import Haulage.Proofs.Run.Incremental

/-!
# Repeated runs

An incremental run to a target that is not there can be repeated: once the directories above the
target have come up and the target has been written, its source and its target are where they were,
and the next run adds to what this one left.

- `Repeats.starts`, `Repeats.starts_put`: the first run and each later one can start.
- `Repeats.out_first`, `Repeats.out_next`: what a run leaves behind whose copy succeeds.
- `Repeats.out_refused`: a run whose target contributes no plan.
- `Repeats.addsNothing_zero_iff`, `Repeats.addsNothing_iff_of_put`: when a run adds nothing.
-/

set_option autoImplicit false

namespace Haulage

open FileSystem Transfer

/-- Of the options of a run its limit does not count for the task. -/
theorem Task.ofOptions_unlimited {r : Registry} {fs : FileSystem} {o : RunOptions} {t : Task}
    (h : Task.ofOptions r fs o = .ok t) :
    Task.ofOptions r fs { o with limit := none } =
      .ok { t with options := { o with limit := none } } := by
  rw [Task.ofOptions_eq_ok_iff] at h ⊢
  obtain ⟨hmode, hsrc, htgt, henv, hsource, htarget, -⟩ := h
  exact ⟨hmode, hsrc, htgt, henv, hsource, htarget, rfl⟩

namespace Load

/-- The same run on other files. -/
def onFiles (l : Load) (fs : FileSystem) : Load :=
  { l with files := fs }

/-- The same run without a limit. -/
def unlimited (l : Load) : Load :=
  { l with options := { l.options with limit := none } }

/-- The files after a run has been repeated so many times. -/
def filesAfter (l : Load) : Nat → FileSystem
  | 0 => l.files
  | k + 1 => (l.onFiles (l.filesAfter k)).out.files

/-- The run that comes after so many of its kind. -/
def again (l : Load) (k : Nat) : Load :=
  l.onFiles (l.filesAfter k)

theorem filesAfter_eq_out (l : Load) (k : Nat) : l.filesAfter (k + 1) = (l.again k).out.files :=
  rfl

/-- The run that comes after so many of its kind adds nothing to the target. -/
def AddsNothing (l : Load) (k : Nat) : Prop :=
  Run.contentOf (l.filesAfter (k + 1)) l.target = Run.contentOf (l.filesAfter k) l.target

/-- Among some files the options of a run lead to its source and its target. -/
def HasEnds (l : Load) (fs : FileSystem) : Prop :=
  ∃ t, Task.ofOptions l.registry fs l.options = .ok t ∧ t.source = .file l.source ∧
    t.target = .location (.file l.target)

/-- An incremental run that can be repeated. Nothing cancels it, and its target is not there yet. -/
structure Repeats (l : Load) (primaryKey updateKey : String) (lines : List String)
    (fs₁ : FileSystem) (d : Destination) : Prop where
  task : l.HasEnds l.files
  incremental : l.options.isIncremental = true
  primaryKey : l.options.primaryKey = some primaryKey
  updateKey : l.options.updateKey = some updateKey
  uncancelled : l.surroundings.cancelAfter = none
  absent : l.files.find l.target = .error .noSuchFile
  /-- The directories above the target are there or can be created. -/
  parents : makeParent l.files l.target = (fs₁, .ok ())
  /-- Then the options still lead to the same two ends. -/
  settled : l.HasEnds fs₁
  /-- The target can be written and is not an older file that has come within reach. -/
  destination : fs₁.destination l.target = .ok d
  fresh : d.content = []
  /-- The source is another file and has the given lines. -/
  source : ∃ place content, l.files.find l.source = .ok (place, .file content) ∧
    Lines.ofBytes content = lines.map .ok ∧ pathOf place ≠ pathOf d.place

variable {l : Load} {primaryKey updateKey : String} {lines : List String} {fs₁ : FileSystem}
  {d : Destination}

namespace Repeats

theorem reads (h : l.Repeats primaryKey updateKey lines fs₁ d) : l.Reads lines := by
  obtain ⟨place, content, hfile, hlines, -⟩ := h.source
  exact ⟨place, content, hfile, hlines⟩

theorem unlimited (h : l.Repeats primaryKey updateKey lines fs₁ d) :
    l.unlimited.Repeats primaryKey updateKey lines fs₁ d where
  task := by
    obtain ⟨t, ht, hfrom, hto⟩ := h.task
    exact ⟨_, Task.ofOptions_unlimited ht, hfrom, hto⟩
  incremental := h.incremental
  primaryKey := h.primaryKey
  updateKey := h.updateKey
  uncancelled := h.uncancelled
  absent := h.absent
  parents := h.parents
  settled := by
    obtain ⟨t, ht, hfrom, hto⟩ := h.settled
    exact ⟨_, Task.ofOptions_unlimited ht, hfrom, hto⟩
  destination := h.destination
  fresh := h.fresh
  source := h.source

theorem starts (h : l.Repeats primaryKey updateKey lines fs₁ d) :
    l.Starts primaryKey updateKey where
  task := h.task
  incremental := h.incremental
  primaryKey := h.primaryKey
  updateKey := h.updateKey
  uncancelled := h.uncancelled
  distinct := by
    simp only [checkDistinct, canonical, h.absent]
    cases l.files.find l.source <;> rfl
  target := ⟨fs₁, d, h.parents, h.destination, .inr ⟨h.absent, h.fresh⟩⟩

theorem before_eq_nil (h : l.Repeats primaryKey updateKey lines fs₁ d) : l.before = [] := by
  rw [before, Run.contentOf, readFile, openToRead, h.absent]

/-- A target that has been written leaves the source where it was. -/
theorem find_source (h : l.Repeats primaryKey updateKey lines fs₁ d) (content : Bytes) :
    ∃ place bytes, (fs₁.put d.place (.file content)).find l.source = .ok (place, .file bytes) ∧
      Lines.ofBytes bytes = lines.map .ok ∧ pathOf place ≠ pathOf d.place := by
  obtain ⟨place, bytes, hfile, hlines, hne⟩ := h.source
  refine ⟨place, bytes, ?_, hlines, hne⟩
  -- neither the directories nor the target stand where the source does
  have hgrown := grown_makeParent l.files l.target
  rw [h.parents] at hgrown
  have hfile₁ := find_of_grown hgrown hfile
  refine find_of_roadsKept (roadsKept_put_destination h.destination content) hfile₁ (.file ?_)
  rw [node?_put fs₁ _ (place_ne_nil_of_destination h.destination), if_neg]
  · exact node?_of_find_file hfile₁
  · rintro rfl
    exact hne rfl

theorem reads_put (h : l.Repeats primaryKey updateKey lines fs₁ d) (content : Bytes) :
    (l.onFiles (fs₁.put d.place (.file content))).Reads lines := by
  obtain ⟨place, bytes, hfile, hlines, -⟩ := h.find_source content
  exact ⟨place, bytes, hfile, hlines⟩

theorem before_put (h : l.Repeats primaryKey updateKey lines fs₁ d) (content : Bytes) :
    (l.onFiles (fs₁.put d.place (.file content))).before = content :=
  Run.contentOf_of_find (find_put_destination h.destination content)

theorem makeParent_put (h : l.Repeats primaryKey updateKey lines fs₁ d) (content : Bytes) :
    makeParent (fs₁.put d.place (.file content)) l.target =
      (fs₁.put d.place (.file content), .ok ()) :=
  makeParent_of_roadsKept h.parents (roadsKept_put_destination h.destination content)

/-- Once the target has been written the run can start again. -/
theorem starts_put (h : l.Repeats primaryKey updateKey lines fs₁ d) (content : Bytes) :
    (l.onFiles (fs₁.put d.place (.file content))).Starts primaryKey updateKey where
  task := by
    obtain ⟨t, ht, hfrom, hto⟩ := h.settled
    refine ⟨t, ?_, hfrom, hto⟩
    rw [← ht]
    exact Task.ofOptions_congr (fun p => hasDirectory_put_destination h.destination content) _
  incremental := h.incremental
  primaryKey := h.primaryKey
  updateKey := h.updateKey
  uncancelled := h.uncancelled
  distinct := by
    obtain ⟨place, bytes, hfile, -, hne⟩ := h.find_source content
    exact checkDistinct_of_find hfile (find_put_destination h.destination content) hne
  target := ⟨_, _, h.makeParent_put content, destination_put_destination h.destination content,
    .inl (find_put_destination h.destination content)⟩

theorem contentOf_put (h : l.Repeats primaryKey updateKey lines fs₁ d) (content : Bytes) :
    Run.contentOf (fs₁.put d.place (.file content)) l.target = content :=
  Run.contentOf_of_find (find_put_destination h.destination content)

theorem readFile_put (h : l.Repeats primaryKey updateKey lines fs₁ d) (content : Bytes) :
    (fs₁.put d.place (.file content)).readFile l.target = .ok content := by
  rw [readFile, openToRead_of_find_file (find_put_destination h.destination content)]

/-- A target that has been written is planned by its lines. -/
theorem forTarget_put (h : l.Repeats primaryKey updateKey lines fs₁ d) (content : Bytes) :
    CopyPlan.forTarget (fs₁.put d.place (.file content)) l.target l.options =
      CopyPlan.ofLines l.target l.options (Lines.ofBytes content) := by
  rw [CopyPlan.forTarget, if_pos (RunOptions.appends_of_isIncremental h.incremental),
    openToRead_of_find_file (find_put_destination h.destination content)]
  rfl

/-- The first run adds nothing when it leaves an empty target. -/
theorem addsNothing_zero_iff (h : l.Repeats primaryKey updateKey lines fs₁ d) {content : Bytes}
    (hafter : l.filesAfter 1 = fs₁.put d.place (.file content)) :
    l.AddsNothing 0 ↔ content = [] := by
  have hbefore : Run.contentOf (l.filesAfter 0) l.target = [] := h.before_eq_nil
  rw [AddsNothing, hbefore, Nat.zero_add, hafter, h.contentOf_put]

/-- A later run adds nothing when it leaves the target as it was. -/
theorem addsNothing_iff_of_put (h : l.Repeats primaryKey updateKey lines fs₁ d) {k : Nat}
    {before after : Bytes} (hbefore : l.filesAfter k = fs₁.put d.place (.file before))
    (hafter : l.filesAfter (k + 1) = fs₁.put d.place (.file after)) :
    l.AddsNothing k ↔ after = before := by
  rw [AddsNothing, hbefore, hafter, h.contentOf_put, h.contentOf_put]

/-- What the first run leaves behind when its copy succeeds. -/
theorem out_first (h : l.Repeats primaryKey updateKey lines fs₁ d) {c : Copied}
    (hc : Copy.lines l.options .fresh ⟨l.source, lines.map .ok, none⟩ = c)
    (hsucceeds : c.failure = none) :
    l.out.result = .ok () ∧ l.out.files = fs₁.put d.place (.file (Utf8.encode c.text)) := by
  obtain ⟨place, content, hfile, hlines, hne⟩ := h.source
  have hplan : CopyPlan.forTarget l.files l.target l.options = .ok .fresh := by
    rw [CopyPlan.forTarget, if_pos (RunOptions.appends_of_isIncremental h.incremental), openToRead,
      h.absent]
  rw [← hlines] at hc
  have hout := h.starts.out_of_lines hplan h.parents h.destination hfile
    (fun e => hne (congrArg pathOf e)) hc hsucceeds
  rwa [h.before_eq_nil, List.nil_append] at hout

/-- What a later run leaves behind when its copy succeeds. -/
theorem out_next (h : l.Repeats primaryKey updateKey lines fs₁ d) {content : Bytes}
    {plan : CopyPlan}
    (hplan : CopyPlan.ofLines l.target l.options (Lines.ofBytes content) = .ok plan) {c : Copied}
    (hc : Copy.lines l.options plan ⟨l.source, lines.map .ok, none⟩ = c)
    (hsucceeds : c.failure = none) :
    (l.onFiles (fs₁.put d.place (.file content))).out.result = .ok () ∧
      (l.onFiles (fs₁.put d.place (.file content))).out.files =
        fs₁.put d.place (.file (content ++ Utf8.encode c.text)) := by
  obtain ⟨place, bytes, hfile, hlines, hne⟩ := h.find_source content
  rw [← h.forTarget_put] at hplan
  rw [← hlines] at hc
  obtain ⟨hresult, hfiles⟩ := (h.starts_put content).out_of_lines hplan (h.makeParent_put content)
    (destination_put_destination h.destination content) hfile (fun e => hne (congrArg pathOf e)) hc
    hsucceeds
  refine ⟨hresult, hfiles.trans ?_⟩
  rw [put_put, h.before_put]

/-- A later run changes nothing when the target contributes no plan. -/
theorem out_refused (h : l.Repeats primaryKey updateKey lines fs₁ d) {content : Bytes} {f : Failure}
    (hplan : CopyPlan.ofLines l.target l.options (Lines.ofBytes content) = .error f) :
    (l.onFiles (fs₁.put d.place (.file content))).out.files = fs₁.put d.place (.file content) := by
  have hl := h.starts_put content
  obtain ⟨t, ht, hfrom, hto⟩ := hl.task
  have hoptions := (Task.ofOptions_eq_ok_iff.mp ht).2.2.2.2.2.2
  rw [← h.forTarget_put] at hplan
  rw [out, Run.execute_of_task ht, Run.files_concluded, ofTask, hfrom, hto, hoptions]
  exact congrArg Transfer.files (Transfer.toFile_of_refused hl.distinct hplan)

end Repeats

end Load

end Haulage
