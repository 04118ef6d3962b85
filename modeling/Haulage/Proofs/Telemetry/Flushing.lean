import Haulage.Proofs.Telemetry.Forecast

/-!
# Flushing deliveries

A flush that is over lets go of the deliveries that are still under way, and they go on without it.
So in whatever order the work of an instant is done, a run agrees with what the outbox says: every
flush ends when it should, and every delivery that does not fail is recorded once and at its own
time.

- `Sound`: what holds in every state of a run; `sound_of_work` and `sound_of_tick` keep it.
- `course_of_work`: work leaves a program on its course or takes it on by one act.
- `lt_resume_time_of_quiet`: time passes only for a program that waits.
- `Sound.recorded_of_quiet`: what has arrived when an instant is quiet.
- `deliveries_outlive_flushes`: flushes and deliveries of a program, over all its runs.
-/

set_option autoImplicit false

namespace Haulage.Flushing

/-! ## What holds in every run -/

/-- A task is on time: it has ended when it is due, and it is not aborted. -/
def Task.OnTime (task : Task) (now : Nat) : Prop :=
  match task.fate with
  | .running => now ≤ task.flight.due
  | .ended => task.flight.due ≤ now
  | .aborted => False

theorem le_due_of_running {task : Task} {now : Nat} (h : task.OnTime now)
    (hfate : task.fate = .running) : now ≤ task.flight.due := by
  rw [Task.OnTime, hfate] at h
  exact h

theorem due_le_of_not_running {task : Task} {now : Nat} (h : task.OnTime now)
    (hfate : task.fate ≠ .running) : task.flight.due ≤ now := by
  rw [Task.OnTime] at h
  split at h
  · exact absurd ‹_› hfate
  · exact h
  · exact h.elim

/-- What a task has left in the record. -/
def Task.entry (task : Task) : List (Nat × Delivery) :=
  match task.fate with
  | .ended => task.record task.flight.due
  | _ => []

/-- What a program will have come to when it is ready for its next act. -/
def Runtime.resume (s : Runtime) : Forecast :=
  let outbox : Outbox := ⟨s.tasks.map (·.flight), heldBy s.tasks .pending⟩
  let last := Outbox.lastDue ⟨s.tasks.map (·.flight), heldBy s.tasks .flush⟩ s.now
  match s.main with
  | .ready => ⟨outbox, s.now, s.outcomes⟩
  | .sleeping wake => ⟨outbox, wake, s.outcomes⟩
  | .flushing start deadline =>
    ⟨outbox, min deadline last, s.outcomes ++ [⟨start, min deadline last, last ≤ deadline⟩]⟩
  | .finished time => ⟨outbox, time, s.outcomes⟩

/-- What the place of a program says about the time and the tasks. -/
def Runtime.Stands (s : Runtime) : Prop :=
  match s.main with
  | .ready => heldBy s.tasks .flush = []
  | .sleeping wake => s.now ≤ wake ∧ heldBy s.tasks .flush = []
  | .flushing _ deadline =>
    s.now ≤ deadline ∧ heldBy s.tasks .pending = [] ∧ ∀ f ∈ heldBy s.tasks .flush, f.due ≠ deadline
  | .finished _ => s.rest = []

/-- No delivery that a flush awaits ends at the very end of its window. -/
def Apart (acts : List Act) : Prop :=
  ∀ before window after, acts = before ++ .flush window :: after →
    ∀ f ∈ (Forecast.of before).outbox.awaited, f.due ≠ (Forecast.of before).time + window

/-- What holds in every state of a run of a program. -/
structure Sound (acts : List Act) (s : Runtime) : Prop where
  onTime : ∀ task ∈ s.tasks, task.OnTime s.now
  recorded : s.recorded.Perm (s.tasks.flatMap Task.entry)
  stands : s.Stands
  /-- The program is on course: its next act follows those that have led to where it will be. -/
  course : ∃ before, acts = before ++ s.rest ∧ s.resume = Forecast.of before

theorem sound_start (acts : List Act) : Sound acts (.start acts) :=
  ⟨List.forall_mem_nil _, .nil, rfl, [], rfl, rfl⟩

theorem onTime_of_work {s s' : Runtime} (h : Work s s') (hs : ∀ task ∈ s.tasks, task.OnTime s.now) :
    ∀ task ∈ s'.tasks, task.OnTime s'.now := by
  cases h with
  | dispatch ready next =>
      intro task htask
      rcases List.mem_append.mp htask with htask | htask
      · exact hs task htask
      · rw [List.mem_singleton.mp htask]
        exact Nat.le_add_right _ _
  | flush ready next =>
      intro task htask
      obtain ⟨earlier, hearlier, rfl⟩ := List.mem_map.mp htask
      rw [Task.OnTime, fate_take, flight_take]
      exact hs earlier hearlier
  | finish split running due =>
      -- a delivery ends when it is due, which is the guard of the step
      rw [split] at hs
      obtain ⟨hbefore, hrest⟩ := List.forall_mem_append.mp hs
      obtain ⟨-, hafter⟩ := List.forall_mem_cons.mp hrest
      exact List.forall_mem_append.mpr ⟨hbefore, List.forall_mem_cons.mpr ⟨due, hafter⟩⟩
  | join flushing split held ended =>
      rw [split] at hs
      obtain ⟨hbefore, hrest⟩ := List.forall_mem_append.mp hs
      exact List.forall_mem_append.mpr ⟨hbefore,
        List.forall_mem_cons.mpr (List.forall_mem_cons.mp hrest)⟩
  | drain flushing joined =>
      intro task htask
      rw [map_drop_of_forall_ne joined] at htask
      exact hs task htask
  | expire flushing elapsed mem held running =>
      intro task htask
      rw [map_drop_map_detach] at htask
      obtain ⟨earlier, hearlier, rfl⟩ := List.mem_map.mp htask
      rw [Task.OnTime, fate_detach, flight_detach]
      exact hs earlier hearlier
  | _ => exact hs

theorem entry_take (task : Task) : task.take.entry = task.entry := by
  rw [Task.entry, Task.entry, fate_take, Task.record, Task.record, flight_take]

theorem entry_detach (task : Task) : task.detach.entry = task.entry := by
  rw [Task.entry, Task.entry, fate_detach, Task.record, Task.record, flight_detach]

theorem recorded_of_work {s s' : Runtime} (h : Work s s')
    (hon : ∀ task ∈ s.tasks, task.OnTime s.now)
    (hs : s.recorded.Perm (s.tasks.flatMap Task.entry)) :
    s'.recorded.Perm (s'.tasks.flatMap Task.entry) := by
  cases h with
  | dispatch ready next => simpa [Task.entry, Task.spawn] using hs
  | flush ready next => simpa [List.flatMap_map, entry_take] using hs
  | @finish before after task split running due =>
      -- only an ending adds to the record, at the instant at which the delivery is due
      have hmem : task ∈ s.tasks := split ▸ List.mem_append_right _ List.mem_cons_self
      have hdue : task.flight.due = s.now :=
        Nat.le_antisymm due (le_due_of_running (hon task hmem) running)
      have hentry : { task with fate := .ended : Task }.entry = task.record s.now := by
        rw [← hdue]
        rfl
      have hnone : task.entry = [] := by rw [Task.entry, running]
      rw [split, List.flatMap_append, List.flatMap_cons, hnone, List.nil_append] at hs
      rw [List.flatMap_append, List.flatMap_cons, hentry]
      refine (hs.append_right _).trans ?_
      rw [List.append_assoc]
      exact List.perm_append_comm.append_left _
  | join flushing split held ended =>
      rw [split] at hs
      rw [List.flatMap_append, List.flatMap_cons] at hs ⊢
      exact hs
  | drain flushing joined =>
      rw [map_drop_of_forall_ne joined]
      exact hs
  | expire flushing elapsed mem held running =>
      rw [map_drop_map_detach]
      simpa [List.flatMap_map, entry_detach] using hs
  | _ => exact hs

/-! ## The course of a program -/

/-- Work either leaves a program on its course or takes it on by its next act. -/
theorem course_of_work {s s' : Runtime} (h : Work s s') (hon : ∀ task ∈ s.tasks, task.OnTime s.now)
    (hs : s.Stands) :
    (s'.rest = s.rest ∧ s'.resume = s.resume) ∨
      ∃ a, s.rest = a :: s'.rest ∧ s'.resume = s.resume.act a := by
  cases h with
  | dispatch ready next =>
      right
      refine ⟨_, next, ?_⟩
      simp [Runtime.resume, ready, Forecast.act, Outbox.send, Task.spawn, heldBy]
  | doze ready next =>
      right
      refine ⟨_, next, ?_⟩
      simp [Runtime.resume, ready, Forecast.act]
  | wake asleep due =>
      left
      rw [Runtime.Stands, asleep] at hs
      have hnow := Nat.le_antisymm hs.1 due
      simp [Runtime.resume, asleep, hnow]
  | flush ready next =>
      right
      refine ⟨_, next, ?_⟩
      rw [Runtime.Stands, ready] at hs
      simp only [Runtime.resume, ready, map_flight_take, heldBy_map_take_pending,
        heldBy_map_take_flush hs]
      rfl
  | finish split running due =>
      left
      refine ⟨rfl, ?_⟩
      simp only [Runtime.resume, split, heldBy_append, heldBy_cons, List.map_append, List.map_cons]
  | @join start deadline before after task flushing split held ended =>
      left
      refine ⟨rfl, ?_⟩
      have hmem : task ∈ s.tasks := split ▸ List.mem_append_right _ List.mem_cons_self
      have hdue := due_le_of_not_running (hon task hmem) ended
      have hflights : (before ++ { task with holder := .nobody } :: after).map (·.flight) =
          s.tasks.map (·.flight) := by
        simp [split]
      have hpending : heldBy (before ++ { task with holder := .nobody } :: after) .pending =
          heldBy s.tasks .pending := by
        simp [split, heldBy_append, heldBy_cons, held]
      have hheld : (heldBy s.tasks .flush).Perm
          (task.flight :: heldBy (before ++ { task with holder := .nobody } :: after) .flush) := by
        simp [split, heldBy_append, heldBy_cons, held, List.perm_middle]
      -- the task that is joined has ended, so it does not count for the rest of the wait
      simp only [Runtime.resume, flushing, hflights, hpending, lastDue_of_le hdue hheld]
  | @drain start deadline flushing joined =>
      left
      refine ⟨rfl, ?_⟩
      rw [Runtime.Stands, flushing] at hs
      obtain ⟨hnow, -, -⟩ := hs
      simp [Runtime.resume, flushing, map_drop_of_forall_ne joined, heldBy_eq_nil_iff.mpr joined,
        Outbox.lastDue, hnow]
  | @expire start deadline task flushing elapsed mem held running =>
      left
      refine ⟨rfl, ?_⟩
      rw [Runtime.Stands, flushing] at hs
      obtain ⟨hnow, -, hdue⟩ := hs
      obtain rfl : deadline = s.now := Nat.le_antisymm elapsed hnow
      -- the task that still runs is due behind the deadline, since it is not due at it
      have hlast : s.now <
          Outbox.lastDue ⟨s.tasks.map (·.flight), heldBy s.tasks .flush⟩ s.now := by
        have hmem : task.flight ∈ heldBy s.tasks .flush := mem_heldBy_iff.mpr ⟨task, mem, held, rfl⟩
        have hbehind : s.now < task.flight.due :=
          Nat.lt_of_le_of_ne (le_due_of_running (hon task mem) running) (Ne.symm (hdue _ hmem))
        exact Nat.lt_of_lt_of_le hbehind (due_le_lastDue hmem _)
      have hmin := Nat.min_eq_left (Nat.le_of_lt hlast)
      have hlate := decide_eq_false (Nat.not_le.mpr hlast)
      simp only [Runtime.resume, flushing, map_drop_map_detach, map_flight_detach,
        heldBy_map_detach_pending, hmin, hlate]
  | stop ready next =>
      left
      simp [Runtime.resume, ready]

/-- Work leads a program to a place where it can stand. -/
theorem stands_of_work {acts : List Act} (hacts : Apart acts) {s s' : Runtime} (h : Work s s')
    (hs : Sound acts s) : s'.Stands := by
  have hstands := hs.stands
  cases h with
  | dispatch ready next =>
      rw [Runtime.Stands, ready] at hstands
      simp only [Runtime.Stands, ready, heldBy_append, hstands]
      rfl
  | doze ready next =>
      rw [Runtime.Stands, ready] at hstands
      exact ⟨Nat.le_add_right _ _, hstands⟩
  | wake asleep due =>
      rw [Runtime.Stands, asleep] at hstands
      exact hstands.2
  | @flush window rest ready next =>
      rw [Runtime.Stands, ready] at hstands
      refine ⟨Nat.le_add_right _ _, heldBy_map_take_pending _, ?_⟩
      -- the end of the window is no delivery's end, since the acts are apart
      obtain ⟨before, hbefore, hresume⟩ := hs.course
      have hapart := hacts before window rest (next ▸ hbefore)
      rw [← hresume] at hapart
      simp only [Runtime.resume, ready] at hapart
      rw [heldBy_map_take_flush hstands]
      exact hapart
  | finish split running due =>
      simp only [Runtime.Stands, split, heldBy_append, heldBy_cons] at hstands ⊢
      exact hstands
  | @join start deadline before after task flushing split held ended =>
      -- a delivery that ended leaves the flush, and the others are held and due as before
      simp only [Runtime.Stands, flushing, split] at hstands ⊢
      obtain ⟨hnow, hpending, hdue⟩ := hstands
      refine ⟨hnow, ?_, ?_⟩
      · simpa [heldBy_append, heldBy_cons, held] using hpending
      · intro f hf
        apply hdue f
        simp only [heldBy_append, heldBy_cons, held, if_pos, List.mem_append, List.mem_cons] at hf ⊢
        rcases hf with hf | hf
        · exact .inl hf
        · exact .inr (.inr hf)
  | drain flushing joined =>
      rw [map_drop_of_forall_ne joined]
      exact heldBy_eq_nil_iff.mpr joined
  | expire flushing elapsed mem held running =>
      rw [map_drop_map_detach]
      exact heldBy_map_detach_flush _
  | stop ready next => exact next

theorem sound_of_work {acts : List Act} (hacts : Apart acts) {s s' : Runtime} (h : Work s s')
    (hs : Sound acts s) : Sound acts s' := by
  refine ⟨onTime_of_work h hs.onTime, recorded_of_work h hs.onTime hs.recorded,
    stands_of_work hacts h hs, ?_⟩
  -- the acts that have led to where the program will be grow by the act that it starts
  obtain ⟨before, hbefore, hresume⟩ := hs.course
  rcases course_of_work h hs.onTime hs.stands with ⟨hrest, hstill⟩ | ⟨a, hrest, hact⟩
  · exact ⟨before, hrest ▸ hbefore, hstill.trans hresume⟩
  · refine ⟨before ++ [a], ?_, ?_⟩
    · rw [hbefore, hrest, List.append_assoc, List.singleton_append]
    · rw [hact, hresume, Forecast.of_append_singleton]

/-! ## The passing of time -/

/-- When an instant is quiet, what still runs is not due yet. -/
theorem lt_due_of_quiet {s : Runtime} (hq : s.Quiet) {task : Task} (hmem : task ∈ s.tasks)
    (hrunning : task.fate = .running) : s.now < task.flight.due := by
  obtain ⟨before, after, hsplit⟩ := List.append_of_mem hmem
  exact Nat.not_le.mp fun hdue => hq _ (.finish hsplit hrunning hdue)

/-- When an instant is quiet, a flush is within its window and waits for a delivery that is
not due yet. -/
theorem flushing_of_quiet {s : Runtime} (hq : s.Quiet) {start deadline : Nat}
    (hflushing : s.main = .flushing start deadline) :
    s.now < deadline ∧ ∃ f ∈ heldBy s.tasks .flush, s.now < f.due := by
  have hheld : ∃ task ∈ s.tasks, task.holder = .flush := by
    refine Classical.byContradiction fun hnone => hq _ (.drain hflushing ?_)
    intro task hmem hholder
    exact hnone ⟨task, hmem, hholder⟩
  obtain ⟨task, hmem, hholder⟩ := hheld
  have hrunning : task.fate = .running := by
    obtain ⟨before, after, hsplit⟩ := List.append_of_mem hmem
    exact Decidable.byContradiction fun hended => hq _ (.join hflushing hsplit hholder hended)
  refine ⟨Nat.not_le.mp fun hfinished => hq _ (.expire hflushing hfinished hmem hholder hrunning),
    ?_⟩
  exact ⟨task.flight, mem_heldBy_iff.mpr ⟨task, hmem, hholder, rfl⟩,
    lt_due_of_quiet hq hmem hrunning⟩

/-- When an instant is quiet, a program that is not over goes on later. -/
theorem lt_resume_time_of_quiet {s : Runtime} (hq : s.Quiet)
    (hfinished : ∀ time, s.main ≠ .finished time) : s.now < s.resume.time := by
  cases hmain : s.main with
  | ready =>
      cases hrest : s.rest with
      | nil => exact absurd (.stop hmain hrest) (hq _)
      | cons a rest =>
          cases a with
          | dispatch d t => exact absurd (.dispatch hmain hrest) (hq _)
          | sleep millis => exact absurd (.doze hmain hrest) (hq _)
          | flush window => exact absurd (.flush hmain hrest) (hq _)
  | sleeping wake =>
      simp only [Runtime.resume, hmain]
      exact Nat.not_le.mp fun hdue => hq _ (.wake hmain hdue)
  | flushing start deadline =>
      obtain ⟨hdeadline, f, hf, hdue⟩ := flushing_of_quiet hq hmain
      simp only [Runtime.resume, hmain]
      exact Nat.lt_min.mpr ⟨hdeadline, Nat.lt_of_lt_of_le hdue (due_le_lastDue hf _)⟩
  | finished time => exact absurd hmain (hfinished time)

/-- A program that waits goes on to where it was going. -/
theorem resume_of_tick {s : Runtime} (hq : s.Quiet) :
    ({ s with now := s.now + 1 } : Runtime).resume = s.resume := by
  cases hmain : s.main with
  | ready =>
      have hlater := lt_resume_time_of_quiet hq fun time => by simp [hmain]
      simp only [Runtime.resume, hmain] at hlater
      exact absurd hlater (Nat.lt_irrefl _)
  | sleeping wake => simp only [Runtime.resume, hmain]
  | flushing start deadline =>
      obtain ⟨-, f, hf, hdue⟩ := flushing_of_quiet hq hmain
      have hlast := lastDue_succ (o := ⟨s.tasks.map (·.flight), heldBy s.tasks .flush⟩)
        (Nat.lt_of_lt_of_le hdue (due_le_lastDue hf s.now))
      simp only [Runtime.resume, hmain, hlast]
  | finished time => simp only [Runtime.resume, hmain]

theorem sound_of_tick {acts : List Act} {s : Runtime} (hq : s.Quiet) (hs : Sound acts s) :
    Sound acts { s with now := s.now + 1 } := by
  -- time passes only when nothing is due, so what runs or waits is not late afterwards
  have hstands := hs.stands
  constructor
  case onTime =>
    intro task hmem
    have htask := hs.onTime task hmem
    cases hfate : task.fate with
    | running =>
        rw [Task.OnTime, hfate]
        exact lt_due_of_quiet hq hmem hfate
    | ended =>
        rw [Task.OnTime, hfate] at htask ⊢
        exact Nat.le_succ_of_le htask
    | aborted =>
        rw [Task.OnTime, hfate] at htask
        exact htask.elim
  case recorded => exact hs.recorded
  case stands =>
    cases hmain : s.main with
    | ready =>
        simp only [Runtime.Stands, hmain] at hstands ⊢
        exact hstands
    | sleeping wake =>
        simp only [Runtime.Stands, hmain] at hstands ⊢
        exact ⟨Nat.not_le.mp fun hdue => hq _ (.wake hmain hdue), hstands.2⟩
    | flushing start deadline =>
        simp only [Runtime.Stands, hmain] at hstands ⊢
        exact ⟨(flushing_of_quiet hq hmain).1, hstands.2⟩
    | finished time =>
        simp only [Runtime.Stands, hmain] at hstands ⊢
        exact hstands
  case course =>
    rw [resume_of_tick hq]
    exact hs.course

theorem sound_of_reaches {acts : List Act} (hacts : Apart acts) {s : Runtime}
    (h : Reaches (.start acts) s) : Sound acts s := by
  induction h with
  | refl => exact sound_start acts
  | tail _ hstep ih =>
      cases hstep with
      | work hwork => exact sound_of_work hacts hwork ih
      | tick hq => exact sound_of_tick hq ih

/-! ## Runs of programs -/

/-- What deliveries leave in the record up to a time: those that do not fail, each at
its own time. -/
def recordBy (fs : List InFlight) (now : Nat) : List (Nat × Delivery) :=
  (fs.filter fun f => !f.fails && f.due ≤ now).map fun f => (f.due, f.delivery)

/-- How a state of a run of a program agrees with what the program comes to. -/
structure Agrees (acts : List Act) (s : Runtime) : Prop where
  /-- No delivery is aborted. -/
  kept : ∀ task ∈ s.tasks, task.fate ≠ .aborted
  /-- The deliveries are those that are foreseen, each once. -/
  sent : s.tasks.map (·.flight) <+: (Forecast.of acts).outbox.sent
  outcomes : s.outcomes <+: (Forecast.of acts).outcomes
  /-- Whenever it is ready for its next act, the program is where its acts so far should
  have led it. -/
  ready : s.main = .ready → ∃ before, acts = before ++ s.rest ∧
    Forecast.of before = ⟨⟨s.tasks.map (·.flight), heldBy s.tasks .pending⟩, s.now, s.outcomes⟩
  /-- At the end of a flush no delivery is held any more. -/
  released : ∀ s', Work s s' → s'.outcomes ≠ s.outcomes → ∀ task ∈ s'.tasks, task.holder = .nobody
  /-- When an instant is quiet, what is due by then has been recorded, and nothing
  else, each once. -/
  recorded : s.Quiet → s.recorded.Perm (recordBy (Forecast.of acts).outbox.sent s.now)
  arrived : s.Quiet → (s.recorded.map (·.2)).Perm ((Forecast.of acts).outbox.arrivedBy s.now)
  finished : s.Quiet → (Forecast.of acts).time ≤ s.now →
    s.main = .finished (Forecast.of acts).time ∧ s.outcomes = (Forecast.of acts).outcomes ∧
    s.tasks.map (·.flight) = (Forecast.of acts).outbox.sent

variable {acts : List Act} {s : Runtime}

theorem Sound.extends_resume (hs : Sound acts s) : s.resume.Extends (Forecast.of acts) := by
  obtain ⟨before, hbefore, hresume⟩ := hs.course
  rw [hresume, hbefore]
  exact Forecast.extends_of_append before s.rest

theorem sent_resume (s : Runtime) : s.resume.outbox.sent = s.tasks.map (·.flight) := by
  rw [Runtime.resume]
  cases s.main <;> rfl

theorem outcomes_prefix_resume (s : Runtime) : s.outcomes <+: s.resume.outcomes := by
  rw [Runtime.resume]
  cases s.main with
  | flushing start deadline => exact List.prefix_append _ _
  | _ => exact List.prefix_rfl

/-- A program that is over has come to what it comes to. -/
theorem Sound.resume_of_finished (hs : Sound acts s) {time : Nat}
    (hfinished : s.main = .finished time) :
    s.resume = Forecast.of acts := by
  obtain ⟨before, hbefore, hresume⟩ := hs.course
  have hrest := hs.stands
  simp only [Runtime.Stands, hfinished] at hrest
  rw [hresume, hbefore, hrest, List.append_nil]

/-- When an instant is quiet, what will be sent later is due later. -/
theorem Sound.exists_later (hs : Sound acts s) (hq : s.Quiet) :
    ∃ more, (Forecast.of acts).outbox.sent = s.tasks.map (·.flight) ++ more ∧
      ∀ f ∈ more, s.now < f.due := by
  by_cases hfinished : ∃ time, s.main = .finished time
  · obtain ⟨time, hfinished⟩ := hfinished
    refine ⟨[], ?_, List.forall_mem_nil _⟩
    rw [← hs.resume_of_finished hfinished, sent_resume, List.append_nil]
  · obtain ⟨more, hsent, hmore⟩ := hs.extends_resume.sent
    refine ⟨more, sent_resume s ▸ hsent, ?_⟩
    intro f hf
    exact Nat.lt_of_lt_of_le (lt_resume_time_of_quiet hq fun time h => hfinished ⟨time, h⟩)
      (hmore f hf)

theorem recordBy_append (fs more : List InFlight) (now : Nat) :
    recordBy (fs ++ more) now = recordBy fs now ++ recordBy more now := by
  simp [recordBy]

theorem recordBy_of_lt {fs : List InFlight} {now : Nat} (h : ∀ f ∈ fs, now < f.due) :
    recordBy fs now = [] := by
  rw [recordBy, List.map_eq_nil_iff, List.filter_eq_nil_iff]
  intro f hf
  simp [Nat.not_le.mpr (h f hf)]

/-- When an instant is quiet, a task has left its entry exactly if its delivery is due. -/
theorem entry_of_quiet (hq : s.Quiet) {task : Task} (hmem : task ∈ s.tasks)
    (hon : task.OnTime s.now) : task.entry = recordBy [task.flight] s.now := by
  cases hfate : task.fate with
  | running =>
      have hdue := lt_due_of_quiet hq hmem hfate
      rw [Task.entry, hfate, recordBy_of_lt (by simpa using hdue)]
  | ended =>
      rw [Task.OnTime, hfate] at hon
      cases hfails : task.flight.fails <;>
        simp [Task.entry, hfate, Task.record, recordBy, hfails, hon]
  | aborted =>
      rw [Task.OnTime, hfate] at hon
      exact hon.elim

theorem flatMap_entry_of_quiet (hq : s.Quiet) {tasks : List Task}
    (h : ∀ task ∈ tasks, task ∈ s.tasks ∧ task.OnTime s.now) :
    tasks.flatMap Task.entry = recordBy (tasks.map (·.flight)) s.now := by
  induction tasks with
  | nil => rfl
  | cons task rest ih =>
      obtain ⟨⟨hmem, hon⟩, hrest⟩ := List.forall_mem_cons.mp h
      rw [List.flatMap_cons, ih hrest, entry_of_quiet hq hmem hon, ← recordBy_append]
      rfl

/-- When an instant is quiet, the record holds what is due by then. -/
theorem Sound.recorded_of_quiet (hs : Sound acts s) (hq : s.Quiet) :
    s.recorded.Perm (recordBy (Forecast.of acts).outbox.sent s.now) := by
  obtain ⟨more, hsent, hmore⟩ := hs.exists_later hq
  rw [hsent, recordBy_append, recordBy_of_lt hmore, List.append_nil,
    ← flatMap_entry_of_quiet hq fun task hmem => ⟨hmem, hs.onTime task hmem⟩]
  exact hs.recorded

/-- The step by which a flush ends leaves no delivery held. -/
theorem released_of_work {s' : Runtime} (hs : s.Stands) (h : Work s s')
    (hended : s'.outcomes ≠ s.outcomes) : ∀ task ∈ s'.tasks, task.holder = .nobody := by
  cases h with
  | drain flushing joined =>
      rw [Runtime.Stands, flushing] at hs
      rw [map_drop_of_forall_ne joined]
      exact holder_eq_nobody hs.2.1 (heldBy_eq_nil_iff.mpr joined)
  | expire flushing elapsed mem held running =>
      rw [Runtime.Stands, flushing] at hs
      rw [map_drop_map_detach]
      exact holder_eq_nobody ((heldBy_map_detach_pending _).trans hs.2.1)
        (heldBy_map_detach_flush _)
  | _ => exact absurd rfl hended

theorem Sound.agrees (hs : Sound acts s) : Agrees acts s := by
  constructor
  case kept =>
    intro task hmem hfate
    have htask := hs.onTime task hmem
    rw [Task.OnTime, hfate] at htask
    exact htask
  case sent =>
    obtain ⟨more, hsent, -⟩ := hs.extends_resume.sent
    rw [hsent, sent_resume]
    exact List.prefix_append _ _
  case outcomes => exact (outcomes_prefix_resume s).trans hs.extends_resume.outcomes
  case ready =>
    intro hready
    obtain ⟨before, hbefore, hresume⟩ := hs.course
    refine ⟨before, hbefore, ?_⟩
    simp only [← hresume, Runtime.resume, hready]
  case released => exact fun s' h hended => released_of_work hs.stands h hended
  case recorded => exact hs.recorded_of_quiet
  case arrived =>
    intro hq
    have hperm := (hs.recorded_of_quiet hq).map (·.2)
    rw [recordBy, List.map_map] at hperm
    exact hperm
  case finished =>
    intro hq htime
    have hfinished : ∃ time, s.main = .finished time := by
      refine Classical.byContradiction fun hgoing => ?_
      have hlater := lt_resume_time_of_quiet hq fun time h => hgoing ⟨time, h⟩
      exact absurd (Nat.lt_of_lt_of_le hlater hs.extends_resume.time) (Nat.not_lt.mpr htime)
    obtain ⟨time, hfinished⟩ := hfinished
    have hresume := hs.resume_of_finished hfinished
    simp [← hresume, Runtime.resume, hfinished]

/-- How programs and their deliveries go. -/
structure Carried (acts : List Act) : Prop where
  runs : ∀ s, Reaches (.start acts) s → Agrees acts s
  /-- The work of an instant comes to an end, in whatever order it is done. -/
  settles : WellFounded fun s' s => Work s s'
  /-- A run gets to every later time, and is quiet then. -/
  goesOn : ∀ s, Reaches (.start acts) s → ∀ time, s.now ≤ time →
    ∃ s', Reaches s s' ∧ s'.now = time ∧ s'.Quiet
  forecast : Forecast.Explained acts
  /-- It makes no difference to the flushes and to the other deliveries whether a delivery fails. -/
  lossless : Forecast.of (acts.map Act.lossless) = (Forecast.of acts).lossless
  /-- A process whose worker has ended goes as such a program does. -/
  ending : ∀ (s : Lifecycle.Start) (course : Course) (window : Nat) (interrupted : Bool)
    (said : List Output) (finish : Timed WorkerResult), acts = endingActs s course window finish →
    (Forecast.of acts).time =
        (Lifecycle.afterFinish s course window interrupted said finish).time ∧
      (Forecast.of acts).outbox =
        (Lifecycle.afterFinish s course window interrupted said finish).outbox

/-- Unless a delivery ends at the very end of a window, a flush takes the window or the longest
remaining delay, and tells whether all deliveries have ended; each delivery goes on by itself and is
recorded at its own time, in whatever order things are done. -/
theorem deliveries_outlive_flushes (acts : List Act) (h : Apart acts) : Carried acts := by
  constructor
  case runs => exact fun s hreach => (sound_of_reaches h hreach).agrees
  case settles => exact wellFounded_work
  case goesOn => exact fun s _ time htime => exists_quiet_at s htime
  case forecast => exact Forecast.explained acts
  case lossless => exact Forecast.of_lossless acts
  case ending =>
    rintro s course window interrupted said finish rfl
    exact of_afterFinish s course window interrupted said finish

/-- An address of a collector. -/
def collector : Url :=
  ⟨"http", none, "/", none, none⟩

/-- A program with an event that is soon lost and a report that outlives the first of two
flushes. -/
def slowReport : List Act :=
  [.dispatch ⟨.usage, collector, "", .null⟩ ⟨30, true⟩,
    .dispatch ⟨.diagnostic, collector, "", .null⟩ ⟨500, false⟩,
    .flush 50, .flush 10, .sleep 1000]

theorem apart_slowReport : Apart slowReport := by
  intro before window after hsplit f hf
  rcases before with _ | ⟨a, _ | ⟨b, _ | ⟨c, _ | ⟨d, _ | ⟨e, more⟩⟩⟩⟩⟩ <;>
    simp [slowReport] at hsplit
  · obtain ⟨rfl, rfl, rfl, -⟩ := hsplit
    rcases List.mem_cons.mp hf with rfl | hf
    · exact (by decide : 30 ≠ 50)
    · obtain rfl := List.mem_singleton.mp hf
      exact (by decide : 500 ≠ 50)
  · obtain ⟨rfl, rfl, rfl, -⟩ := hsplit
    exact absurd hf List.not_mem_nil

/-- The slow report arrives although the first flush gives up on it; the second one
succeeds at once. -/
theorem deliveries_outlive_flushes_slowReport :
    Apart slowReport ∧ Carried slowReport ∧
      (Forecast.of slowReport).outcomes = [⟨0, 50, false⟩, ⟨50, 50, true⟩] :=
  ⟨apart_slowReport, deliveries_outlive_flushes slowReport apart_slowReport, rfl⟩

end Haulage.Flushing
