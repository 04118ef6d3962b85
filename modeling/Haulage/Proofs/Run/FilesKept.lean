import Haulage.Proofs.Run.Task
import Haulage.Proofs.Run.Transfer

/-!
# Runs that leave all files as they were

Whatever a run checks before it opens its target leaves no trace. The source is opened after the
target, and its header is checked after that, so a run that fails there has already created the
directories above its target and has created or emptied the target itself. Such a run leaves all
files as they were only when there was nothing to create and nothing to empty.

- `passedBytes_of_failsBeforeRows`: a copy that fails before its first row adds nothing.
- `kept_toFile_iff`: when a transfer between files changes nothing.
- `files_kept_iff`: when a run changes nothing.
- `kept_iff_of_failsBeforeRows`: when a run changes nothing that fails before its first row.
-/

set_option autoImplicit false

namespace Haulage

open FileSystem

namespace Transfer

variable {s : Surroundings} {fs : FileSystem} {o : RunOptions} {source target : Path}
  {plan : CopyPlan}

/-! ## What a copy adds -/

/-- The bytes that a copy adds to a target that is open. -/
def passedBytes (s : Surroundings) (fs : FileSystem) (o : RunOptions) (source : Path)
    (plan : CopyPlan) : Bytes :=
  match Copy.file fs source o plan s.cancelAfter with
  | .error _ => []
  | .ok c => deliveredBytes c

/-- What fails a copy before its first row: a source that cannot be opened, an interrupt that is
there already, or a first line that cannot be read or that lacks a column asked for. -/
inductive FailsBeforeRows (s : Surroundings) (fs : FileSystem) (o : RunOptions) (source : Path)
    (plan : CopyPlan) : Prop where
  | unopened {e : OsError} (hopen : fs.openToRead source = .error e) :
      FailsBeforeRows s fs o source plan
  | cancelled {place : Place} {content : Bytes}
      (hfile : fs.find source = .ok (place, .file content))
      (hcancel : s.cancelAfter = some 0) : FailsBeforeRows s fs o source plan
  | unreadable {place : Place} {content : Bytes} {fault : LineFault}
      {more : List (Except LineFault String)}
      (hfile : fs.find source = .ok (place, .file content))
      (hlines : Lines.ofBytes content = .error fault :: more) : FailsBeforeRows s fs o source plan
  | header {place : Place} {content : Bytes} {header : String}
      {more : List (Except LineFault String)} {f : Failure}
      (hfile : fs.find source = .ok (place, .file content))
      (hlines : Lines.ofBytes content = .ok header :: more)
      (hheader : Copy.selectorFor o header = .error f ∨ Copy.filterFor o plan header = .error f) :
      FailsBeforeRows s fs o source plan

/-- Lines of which the first cannot be used are copied to nothing. -/
theorem written_of_header {lines : CopySource} {header : String}
    {more : List (Except LineFault String)} {f : Failure}
    (hlines : lines.lines = .ok header :: more)
    (hheader : Copy.selectorFor o header = .error f ∨ Copy.filterFor o plan header = .error f) :
    (Copy.lines o plan lines).written = [] := by
  rw [Copy.lines, hlines]
  split
  · rfl
  · rcases hheader with hselector | hfilter
    · simp only [hselector]
      rfl
    · cases hselector : Copy.selectorFor o header with
      | error f => simp only [hselector]; rfl
      | ok selector => simp only [hselector, hfilter]; rfl

/-- What was not written does not reach the target, whether the copy fails or not. -/
theorem deliveredBytes_of_written_nil {c : Copied} (h : c.written = []) :
    deliveredBytes c = [] := by
  rw [deliveredBytes, h]
  cases c.failure <;> rfl

/-- A copy that fails before its first row adds nothing. -/
theorem passedBytes_of_failsBeforeRows (h : FailsBeforeRows s fs o source plan) :
    passedBytes s fs o source plan = [] := by
  rw [passedBytes]
  cases h with
  | unopened hopen =>
      rw [Copy.file, hopen]
      rfl
  | cancelled hfile hcancel =>
      rw [file_of_find hfile]
      refine deliveredBytes_of_written_nil ?_
      rw [Copy.lines, if_pos hcancel]
      rfl
  | unreadable hfile hlines =>
      rw [file_of_find hfile]
      refine deliveredBytes_of_written_nil ?_
      rw [Copy.lines, hlines]
      split <;> rfl
  | header hfile hlines hheader =>
      rw [file_of_find hfile]
      exact deliveredBytes_of_written_nil (written_of_header hlines hheader)

/-! ## Transfers between files -/

/-- A target is spared when the directories above it are there and it holds already, as an existing
file, all that it holds once the transfer is over. -/
structure Spared (s : Surroundings) (fs : FileSystem) (o : RunOptions) (source target : Path)
    (plan : CopyPlan) : Prop where
  directories : ∀ place, (makeParent fs target).1.node? place = fs.node? place
  bytes : ∀ fs₁ d, makeParent fs target = (fs₁, .ok ()) → fs₁.destination target = .ok d →
    fs.node? d.place = some (.file
      (d.kept o.appends ++ passedBytes s (opened fs₁ d o.appends) o source plan))

/-- A target that is open is spared when it ends up as it was. -/
theorem spared_iff_of_opens {fs₁ : FileSystem} {d : Destination}
    (h : Opens fs o source target plan fs₁ d) {added : Bytes}
    (hadded : passedBytes s (opened fs₁ d o.appends) o source plan = added) :
    Spared s fs o source target plan ↔
      ∀ place, (fs₁.put d.place (.file (d.kept o.appends ++ added))).node? place =
        fs.node? place := by
  have hplace := place_ne_nil_of_destination h.destination
  constructor
  · intro hspared place
    rw [node?_put fs₁ _ hplace]
    split
    · rename_i heq
      rw [← heq, hspared.bytes fs₁ d h.parents h.destination, hadded]
    · have hdirectories := hspared.directories place
      rw [h.parents] at hdirectories
      exact hdirectories
  · intro hkept
    have htarget : fs.node? d.place = some (.file (d.kept o.appends ++ added)) := by
      rw [← hkept, node?_put fs₁ _ hplace, if_pos rfl]
    constructor
    · -- a directory that came up stands elsewhere than the target
      intro place
      rw [h.parents]
      by_cases heq : d.place = place
      · rw [← heq, h.grown.node?_of_some htarget, htarget]
      · rw [← hkept, node?_put fs₁ _ hplace, if_neg heq]
    · intro fs₂ d' hparents hd
      rw [h.parents, Prod.mk.injEq] at hparents
      obtain ⟨rfl, -⟩ := hparents
      rw [h.destination, Except.ok.injEq] at hd
      subst hd
      rw [hadded, htarget]

/-- Of a target that is open only one plan is in question. -/
theorem forall_spared_iff {fs₁ : FileSystem} {d : Destination}
    (h : Opens fs o source target plan fs₁ d) :
    (∀ plan', checkDistinct fs source target = .ok () →
        CopyPlan.forTarget fs target o = .ok plan' → Spared s fs o source target plan') ↔
      Spared s fs o source target plan := by
  constructor
  · intro hspared
    exact hspared plan h.distinct h.planned
  · intro hspared plan' _ hplanned
    rw [h.planned, Except.ok.injEq] at hplanned
    subst hplanned
    exact hspared

/-- A copy that adds nothing spares a target that was there, with the directories above it, and that
the mode does not empty. -/
theorem spared_iff_of_nothing {fs₁ : FileSystem} {d : Destination}
    (h : Opens fs o source target plan fs₁ d)
    (hnothing : passedBytes s (opened fs₁ d o.appends) o source plan = []) :
    Spared s fs o source target plan ↔
      (∀ place, fs₁.node? place = fs.node? place) ∧ fs.node? d.place = some (.file d.content) ∧
        (o.appends = true ∨ d.content = []) := by
  have hdirectories : (makeParent fs target).1 = fs₁ := by rw [h.parents]
  constructor
  · intro hspared
    have hnode := hspared.bytes fs₁ d h.parents h.destination
    rw [hnothing, List.append_nil] at hnode
    -- a target that was there is opened as it was, so that is what it keeps
    have hkept : d.kept o.appends = d.content := by
      have hnode₁ := h.grown.node?_of_some hnode
      rcases node?_of_destination h.destination with hd | ⟨hd, -⟩
      · rw [hnode₁, Option.some.injEq, Node.file.injEq] at hd
        exact hd
      · rw [hnode₁] at hd
        cases hd
    refine ⟨hdirectories ▸ hspared.directories, hkept ▸ hnode, ?_⟩
    cases happends : o.appends with
    | true => exact .inl rfl
    | false =>
        rw [happends, Destination.kept, if_neg Bool.false_ne_true] at hkept
        exact .inr hkept.symm
  · rintro ⟨hplaces, hnode, hkept⟩
    refine ⟨hdirectories ▸ hplaces, fun fs₂ d' hparents hd => ?_⟩
    rw [h.parents, Prod.mk.injEq] at hparents
    obtain ⟨rfl, -⟩ := hparents
    rw [h.destination, Except.ok.injEq] at hd
    subst hd
    rw [hnothing, List.append_nil, hnode, Destination.kept]
    rcases hkept with happends | hempty
    · rw [if_pos happends]
    · rw [hempty, ite_self]

/-- A transfer between files changes nothing exactly when it is refused or spares its target. -/
theorem kept_toFile_iff :
    (∀ place, (toFile s fs o source target).files.node? place = fs.node? place) ↔
      ∀ plan, checkDistinct fs source target = .ok () → CopyPlan.forTarget fs target o = .ok plan →
        Spared s fs o source target plan := by
  have hcourse := course_toFile s fs o source target
  generalize toFile s fs o source target = transfer at hcourse
  cases hcourse with
  | refused hrefused =>
      -- no plan is left for which anything would have to be spared
      refine ⟨fun _ plan hdistinct hplanned => ?_, fun _ place => rfl⟩
      rcases hrefused with hrefused | hrefused
      · rw [hrefused] at hdistinct
        cases hdistinct
      · rw [hrefused] at hplanned
        cases hplanned
  | @unopened plan f hdistinct hplanned hopen =>
      -- only directories can have come up
      constructor
      · intro hkept plan' _ _
        refine ⟨hkept, fun fs₁ d hparents hd => ?_⟩
        rw [openTarget_of_destination hparents hd, Prod.mk.injEq] at hopen
        cases hopen.2
      · intro hspared
        exact (hspared plan hdistinct hplanned).directories
  | @sourceless plan fs₁ d f hopens hcopy =>
      have hadded : passedBytes s (opened fs₁ d o.appends) o source plan = [] := by
        rw [passedBytes, hcopy]
      rw [forall_spared_iff hopens, spared_iff_of_opens hopens hadded, List.append_nil]
      rfl
  | @copied plan fs₁ d c hopens hcopy =>
      have hadded : passedBytes s (opened fs₁ d o.appends) o source plan = deliveredBytes c := by
        rw [passedBytes, hcopy]
      rw [forall_spared_iff hopens, spared_iff_of_opens hopens hadded]

/-! ## Other transfers -/

theorem files_toStdout : (toStdout s fs o source).files = fs := by
  rw [toStdout]
  split <;> rfl

theorem files_overNetwork (ends : List Location) : (overNetwork s fs ends).files = fs := by
  rw [overNetwork]
  split <;> rfl

/-- Only a transfer between files touches a file. -/
theorem ofTask_cases (s : Surroundings) (fs : FileSystem) (t : Task) :
    (∃ source target, t.source = .file source ∧ t.target = .location (.file target) ∧
        ofTask s fs t = toFile s fs t.options source target) ∨
      (¬∃ source target, t.source = .file source ∧ t.target = .location (.file target)) ∧
        (ofTask s fs t).files = fs := by
  obtain ⟨o, source, target, _, _, _⟩ := t
  cases source with
  | remote url => exact .inr ⟨by simp, files_overNetwork _⟩
  | file source =>
      cases target with
      | stdout => exact .inr ⟨by simp, files_toStdout⟩
      | location l =>
          cases l with
          | remote url => exact .inr ⟨by simp, files_overNetwork _⟩
          | file target => exact .inl ⟨source, target, rfl, rfl, rfl⟩

end Transfer

namespace Run

open Transfer

variable {s : Surroundings} {r : Registry} {o : RunOptions} {fs : FileSystem} {ctx : Context}
  {source target : Path} {plan : CopyPlan}

/-- A run between files that passes all that is checked before a target is opened: its options and
its two ends, that the two are not one file, and the existing target. -/
structure Passes (r : Registry) (o : RunOptions) (fs : FileSystem) (source target : Path)
    (plan : CopyPlan) : Prop where
  task : ∃ t, Task.ofOptions r fs o = .ok t ∧ t.source = .file source ∧
    t.target = .location (.file target)
  distinct : checkDistinct fs source target = .ok ()
  planned : CopyPlan.forTarget fs target o = .ok plan

/-- A run passes with one pair of ends and one plan. -/
theorem Passes.eq {source' target' : Path} {plan' : CopyPlan} (h : Passes r o fs source target plan)
    (h' : Passes r o fs source' target' plan') :
    source' = source ∧ target' = target ∧ plan' = plan := by
  obtain ⟨t, ht, hfrom, hto⟩ := h.task
  obtain ⟨t', ht', hfrom', hto'⟩ := h'.task
  rw [ht, Except.ok.injEq] at ht'
  subst ht'
  rw [hfrom, Location.file.injEq] at hfrom'
  rw [hto, Target.location.injEq, Location.file.injEq] at hto'
  subst hfrom' hto'
  have hplanned := h'.planned
  rw [h.planned, Except.ok.injEq] at hplanned
  exact ⟨rfl, rfl, hplanned.symm⟩

/-- A run that gets as far as its target changes nothing exactly when it spares it. -/
theorem kept_iff_of_passes (h : Passes r o fs source target plan) :
    (∀ place, (execute s r o fs ctx).files.node? place = fs.node? place) ↔
      Spared s fs o source target plan := by
  obtain ⟨t, ht, hfrom, hto⟩ := h.task
  obtain ⟨-, -, -, -, -, -, hoptions⟩ := Task.ofOptions_eq_ok_iff.mp ht
  have htransfer : ofTask s fs t = toFile s fs o source target := by
    rw [ofTask, hfrom, hto, hoptions]
  rw [execute_of_task ht, files_concluded, htransfer, kept_toFile_iff]
  constructor
  · intro hspared
    exact hspared plan h.distinct h.planned
  · intro hspared plan' _ hplanned
    rw [h.planned, Except.ok.injEq] at hplanned
    subst hplanned
    exact hspared

/-- A run that does not get as far as its target changes nothing. -/
theorem kept_of_not_passes (h : ¬∃ source target plan, Passes r o fs source target plan)
    (place : Place) : (execute s r o fs ctx).files.node? place = fs.node? place := by
  cases ht : Task.ofOptions r fs o with
  | error f => rw [execute_of_no_task ht]
  | ok t =>
      obtain ⟨-, -, -, -, -, -, hoptions⟩ := Task.ofOptions_eq_ok_iff.mp ht
      rw [execute_of_task ht, files_concluded]
      rcases ofTask_cases s fs t with ⟨source, target, hfrom, hto, htransfer⟩ | ⟨-, hfiles⟩
      · rw [htransfer, hoptions]
        refine kept_toFile_iff.mpr (fun plan hdistinct hplanned => ?_) place
        exact absurd ⟨source, target, plan, ⟨t, ht, hfrom, hto⟩, hdistinct, hplanned⟩ h
      · rw [hfiles]

/-- A run, whether it fails or not, leaves all files as they were exactly when it does not get as
far as its target or spares it. -/
theorem files_kept_iff :
    (∀ place, (execute s r o fs ctx).files.node? place = fs.node? place) ↔
      ∀ source target plan, Passes r o fs source target plan →
        Spared s fs o source target plan := by
  by_cases h : ∃ source target plan, Passes r o fs source target plan
  · obtain ⟨source, target, plan, hpasses⟩ := h
    rw [kept_iff_of_passes hpasses]
    constructor
    · intro hspared source' target' plan' hpasses'
      obtain ⟨rfl, rfl, rfl⟩ := hpasses.eq hpasses'
      exact hspared
    · intro hspared
      exact hspared source target plan hpasses
  · constructor
    · intro _ source target plan hpasses
      exact absurd ⟨source, target, plan, hpasses⟩ h
    · intro _ place
      exact kept_of_not_passes h place

/-- A run that opens its target and fails before its first row leaves all files as they were exactly
when no directory was missing and the target was there, to be added to or empty already. -/
theorem kept_iff_of_failsBeforeRows {fs₁ : FileSystem} {d : Destination}
    (htask : ∃ t, Task.ofOptions r fs o = .ok t ∧ t.source = .file source ∧
      t.target = .location (.file target))
    (hopens : Opens fs o source target plan fs₁ d)
    (hfails : FailsBeforeRows s (opened fs₁ d o.appends) o source plan) :
    (∀ place, (execute s r o fs ctx).files.node? place = fs.node? place) ↔
      (∀ place, fs₁.node? place = fs.node? place) ∧ fs.node? d.place = some (.file d.content) ∧
        (o.appends = true ∨ d.content = []) := by
  have hpasses : Passes r o fs source target plan := ⟨htask, hopens.distinct, hopens.planned⟩
  rw [kept_iff_of_passes hpasses]
  exact spared_iff_of_nothing hopens (passedBytes_of_failsBeforeRows hfails)

/-- An earlier result by itself. -/
def resultFiles : FileSystem :=
  ofFiles [("out.csv", Utf8.encode "old\n")]

/-- A full refresh from a file that is missing fails and empties its target. -/
theorem target_emptied_by_failure :
    Location.read "in.csv" = .file ⟨"in.csv"⟩ ∧ Location.read "out.csv" = .file ⟨"out.csv"⟩ ∧
      resultFiles.node? ["out.csv"] = some (.file (Utf8.encode "old\n")) ∧
      (∃ f, (execute .quiet .empty (.between "in.csv" "out.csv" .fullRefresh) resultFiles
        []).result = .error f) ∧
      (execute .quiet .empty (.between "in.csv" "out.csv" .fullRefresh) resultFiles
        []).files.node? ["out.csv"] = some (.file []) := by
  have hsource : Location.read "in.csv" = .file ⟨"in.csv"⟩ := by decide +kernel
  have htarget : Location.read "out.csv" = .file ⟨"out.csv"⟩ := by decide +kernel
  refine ⟨hsource, htarget, rfl, ?_⟩
  generalize ho : RunOptions.between "in.csv" "out.csv" .fullRefresh = o
  have ht : Task.ofOptions .empty resultFiles o =
      .ok ⟨o, .file ⟨"in.csv"⟩, .location (.file ⟨"out.csv"⟩), .null, .null, .null⟩ := by
    subst ho
    exact Task.ofOptions_of_endpoints rfl ⟨rfl, rfl, rfl⟩ (Registry.endpoint_path hsource) rfl
      (Registry.endpoint_path htarget)
  have hfind : resultFiles.find ⟨"in.csv"⟩ = .error .noSuchFile :=
    find_of_isPlain_of_free (by decide +kernel) rfl
  have hdistinct : checkDistinct resultFiles ⟨"in.csv"⟩ ⟨"out.csv"⟩ = .ok () := by
    rw [checkDistinct, canonical, hfind]
    rfl
  have hplan : CopyPlan.forTarget resultFiles ⟨"out.csv"⟩ o = .ok .fresh := by
    subst ho
    rfl
  have hparents : makeParent resultFiles ⟨"out.csv"⟩ = (resultFiles, .ok ()) :=
    makeParent_of_inPlace (parentInPlace_of_bare (by decide +kernel))
  have hd : resultFiles.destination ⟨"out.csv"⟩ = .ok ⟨["out.csv"], Utf8.encode "old\n"⟩ :=
    @destination_of_isPlain _ _ (by decide +kernel) (some _) rfl
  have hempty : (⟨["out.csv"], Utf8.encode "old\n"⟩ : Destination).kept o.appends = [] := by
    subst ho
    rfl
  obtain ⟨f, hcopy⟩ : ∃ f,
    Copy.file (opened resultFiles ⟨["out.csv"], Utf8.encode "old\n"⟩ o.appends)
      ⟨"in.csv"⟩ o .fresh Surroundings.quiet.cancelAfter = .error f := by
    rw [opened, hempty, Copy.file, openToRead, find_of_isPlain_of_free (by decide +kernel) rfl]
    exact ⟨_, rfl⟩
  have htransfer : Transfer.ofTask .quiet resultFiles
      ⟨o, .file ⟨"in.csv"⟩, .location (.file ⟨"out.csv"⟩), .null, .null, .null⟩ =
        failing (opened resultFiles ⟨["out.csv"], Utf8.encode "old\n"⟩ o.appends) .extract f := by
    simp only [Transfer.ofTask, toFile, hdistinct, hplan, openTarget_of_destination hparents hd,
      hcopy]
  rw [execute_of_task ht, htransfer, opened, hempty]
  exact ⟨⟨f, rfl⟩, rfl⟩

end Run

end Haulage
