import Haulage.Telemetry.Usage
import Mathlib.Logic.Relation

/-!
# A runtime that carries deliveries

A program dispatches deliveries, sleeps and flushes, one act after the other. Each delivery is a
task of its own, which a set of pending tasks holds. A flush takes that set, joins the tasks as they
end, and lets the rest go when its window is over; what a set still holds when it is dropped is
aborted. The clock stands still for as long as anything can be done.

The rules are what a runtime for tasks promises: a task goes on by itself, a set joins the tasks
that have ended and aborts the others when it is dropped, what is let go goes on, and a wait with a
time limit ends when it is done or when the limit is reached. In which order things are done at an
instant is left open.

- `Work`: what can be done at an instant, in any order.
- `Step`, `Reaches`: work and the passing of time.
- `map_drop_map_detach`: what a flush lets go of before it drops its set is not aborted.
- `wellFounded_work`: the work of an instant comes to an end.
- `exists_quiet_at`: a run gets to every later time.
-/

set_option autoImplicit false

namespace Haulage.Flushing

/-- What a program does. A delivery is dispatched together with what becomes of it. -/
inductive Act where
  | dispatch (d : Delivery) (t : Transit)
  | sleep (millis : Nat)
  | flush (window : Nat)

/-! ## Tasks -/

/-- How far a task has got. -/
inductive Fate where
  | running
  | ended
  | aborted
  deriving DecidableEq

/-- What holds a task: the set of pending tasks, a flush that has taken it, or nobody. -/
inductive Holder where
  | pending
  | flush
  | nobody
  deriving DecidableEq

/-- A delivery that is carried. -/
structure Task where
  flight : InFlight
  fate : Fate
  holder : Holder

namespace Task

/-- The task of a delivery that is dispatched now. -/
def spawn (d : Delivery) (t : Transit) (now : Nat) : Task :=
  ⟨⟨d, now + t.delay, t.fails⟩, .running, .pending⟩

/-- The task when a flush takes the pending ones. -/
def take (task : Task) : Task :=
  if task.holder = .pending then { task with holder := .flush } else task

/-- The task when a flush lets go of what it holds. -/
def detach (task : Task) : Task :=
  if task.holder = .flush then { task with holder := .nobody } else task

/-- The task when the set of a flush is dropped: it is aborted if the set holds it and
it still runs. -/
def drop (task : Task) : Task :=
  if task.holder = .flush then
    { task with
      fate := if task.fate = .running then .aborted else task.fate
      holder := .nobody }
  else task

/-- What is recorded at the end of the task. -/
def record (task : Task) (now : Nat) : List (Nat × Delivery) :=
  if task.flight.fails then [] else [(now, task.flight.delivery)]

end Task

/-! ## Runs -/

/-- Where a program stands. -/
inductive Main where
  | ready
  | sleeping (wake : Nat)
  | flushing (start deadline : Nat)
  | finished (time : Nat)

/-- What a flush has come to. -/
structure Outcome where
  start : Nat
  stop : Nat
  drained : Bool

/-- A program and its deliveries at a time. -/
structure Runtime where
  now : Nat
  main : Main
  /-- The acts to come. -/
  rest : List Act
  tasks : List Task
  /-- The deliveries that have arrived, each with its time. -/
  recorded : List (Nat × Delivery)
  /-- What the flushes so far have come to. -/
  outcomes : List Outcome

/-- A program before its first act. -/
def Runtime.start (acts : List Act) : Runtime :=
  ⟨0, .ready, acts, [], [], []⟩

/-- What can be done at an instant. The acts of the program go in turn; the tasks end by
themselves, in any order; a flush joins what has ended, and is over when it holds nothing or when
its time is up. -/
inductive Work : Runtime → Runtime → Prop
  | dispatch {s : Runtime} {d : Delivery} {t : Transit} {rest : List Act}
      (ready : s.main = .ready) (next : s.rest = .dispatch d t :: rest) :
      Work s { s with rest := rest, tasks := s.tasks ++ [.spawn d t s.now] }
  | doze {s : Runtime} {millis : Nat} {rest : List Act}
      (ready : s.main = .ready) (next : s.rest = .sleep millis :: rest) :
      Work s { s with rest := rest, main := .sleeping (s.now + millis) }
  | wake {s : Runtime} {wake : Nat} (asleep : s.main = .sleeping wake) (due : wake ≤ s.now) :
      Work s { s with main := .ready }
  | flush {s : Runtime} {window : Nat} {rest : List Act}
      (ready : s.main = .ready) (next : s.rest = .flush window :: rest) :
      Work s
        { s with
          rest := rest
          main := .flushing s.now (s.now + window)
          tasks := s.tasks.map Task.take }
  /-- A task that is due ends, and records its delivery unless that fails. -/
  | finish {s : Runtime} {before after : List Task} {task : Task}
      (split : s.tasks = before ++ task :: after) (running : task.fate = .running)
      (due : task.flight.due ≤ s.now) :
      Work s
        { s with
          tasks := before ++ { task with fate := .ended } :: after
          recorded := s.recorded ++ task.record s.now }
  | join {s : Runtime} {start deadline : Nat} {before after : List Task} {task : Task}
      (flushing : s.main = .flushing start deadline) (split : s.tasks = before ++ task :: after)
      (held : task.holder = .flush) (ended : task.fate ≠ .running) :
      Work s { s with tasks := before ++ { task with holder := .nobody } :: after }
  /-- A flush that holds nothing any more has drained the set, and drops it. -/
  | drain {s : Runtime} {start deadline : Nat}
      (flushing : s.main = .flushing start deadline)
      (joined : ∀ task ∈ s.tasks, task.holder ≠ .flush) :
      Work s
        { s with
          main := .ready
          tasks := s.tasks.map Task.drop
          outcomes := s.outcomes ++ [⟨start, s.now, true⟩] }
  /-- A flush whose time is up while a task still runs lets go of what it holds before it
  drops the set. -/
  | expire {s : Runtime} {start deadline : Nat} {task : Task}
      (flushing : s.main = .flushing start deadline) (elapsed : deadline ≤ s.now)
      (mem : task ∈ s.tasks) (held : task.holder = .flush) (running : task.fate = .running) :
      Work s
        { s with
          main := .ready
          tasks := (s.tasks.map Task.detach).map Task.drop
          outcomes := s.outcomes ++ [⟨start, s.now, false⟩] }
  | stop {s : Runtime} (ready : s.main = .ready) (next : s.rest = []) :
      Work s { s with main := .finished s.now }

/-- Nothing can be done at this instant any more. -/
def Runtime.Quiet (s : Runtime) : Prop :=
  ∀ s', ¬Work s s'

/-- Work, or the passing of time when there is none. -/
inductive Step : Runtime → Runtime → Prop
  | work {s s' : Runtime} (h : Work s s') : Step s s'
  | tick {s : Runtime} (h : s.Quiet) : Step s { s with now := s.now + 1 }

/-- One state comes after another in a run. -/
abbrev Reaches : Runtime → Runtime → Prop :=
  Relation.ReflTransGen Step

/-! ## Tasks that are held -/

/-- The deliveries whose tasks something holds. -/
def heldBy (tasks : List Task) (h : Holder) : List InFlight :=
  (tasks.filter fun task => task.holder = h).map (·.flight)

theorem heldBy_append (tasks more : List Task) (h : Holder) :
    heldBy (tasks ++ more) h = heldBy tasks h ++ heldBy more h := by
  simp [heldBy]

theorem heldBy_cons (task : Task) (rest : List Task) (h : Holder) :
    heldBy (task :: rest) h =
      if task.holder = h then task.flight :: heldBy rest h else heldBy rest h := by
  by_cases hheld : task.holder = h <;> simp [heldBy, hheld]

theorem heldBy_eq_nil_iff {tasks : List Task} {h : Holder} :
    heldBy tasks h = [] ↔ ∀ task ∈ tasks, task.holder ≠ h := by
  simp [heldBy]

theorem mem_heldBy_iff {tasks : List Task} {h : Holder} {f : InFlight} :
    f ∈ heldBy tasks h ↔ ∃ task ∈ tasks, task.holder = h ∧ task.flight = f := by
  simp [heldBy, and_assoc]

/-- What neither the pending set nor a flush holds is held by nobody. -/
theorem holder_eq_nobody {tasks : List Task} (hpending : heldBy tasks .pending = [])
    (hflush : heldBy tasks .flush = []) : ∀ task ∈ tasks, task.holder = .nobody := by
  intro task hmem
  have hne := heldBy_eq_nil_iff.mp hpending task hmem
  have hne' := heldBy_eq_nil_iff.mp hflush task hmem
  cases hholder : task.holder with
  | pending => exact absurd hholder hne
  | flush => exact absurd hholder hne'
  | nobody => rfl

@[simp] theorem flight_take (task : Task) : task.take.flight = task.flight := by
  rw [Task.take]
  split <;> rfl

@[simp] theorem fate_take (task : Task) : task.take.fate = task.fate := by
  rw [Task.take]
  split <;> rfl

@[simp] theorem flight_detach (task : Task) : task.detach.flight = task.flight := by
  rw [Task.detach]
  split <;> rfl

@[simp] theorem fate_detach (task : Task) : task.detach.fate = task.fate := by
  rw [Task.detach]
  split <;> rfl

theorem map_flight_take (tasks : List Task) :
    (tasks.map Task.take).map (·.flight) = tasks.map (·.flight) := by
  simp

theorem map_flight_detach (tasks : List Task) :
    (tasks.map Task.detach).map (·.flight) = tasks.map (·.flight) := by
  simp

theorem holder_detach_ne (task : Task) : task.detach.holder ≠ .flush := by
  rw [Task.detach]
  split
  · exact nofun
  · assumption

theorem drop_of_ne {task : Task} (h : task.holder ≠ .flush) : task.drop = task := by
  rw [Task.drop, if_neg h]

/-- Where a flush holds nothing, dropping its set leaves the tasks alone. -/
theorem map_drop_of_forall_ne {tasks : List Task} (h : ∀ task ∈ tasks, task.holder ≠ .flush) :
    tasks.map Task.drop = tasks :=
  (List.map_congr_left fun task htask => drop_of_ne (h task htask)).trans (List.map_id' tasks)

/-- What is let go before the set is dropped goes on. -/
theorem map_drop_map_detach (tasks : List Task) :
    (tasks.map Task.detach).map Task.drop = tasks.map Task.detach := by
  apply map_drop_of_forall_ne
  intro task htask
  obtain ⟨earlier, -, rfl⟩ := List.mem_map.mp htask
  exact holder_detach_ne earlier

theorem heldBy_map_take_pending (tasks : List Task) :
    heldBy (tasks.map Task.take) .pending = [] := by
  rw [heldBy_eq_nil_iff]
  intro task htask
  obtain ⟨earlier, -, rfl⟩ := List.mem_map.mp htask
  rw [Task.take]
  split
  · exact nofun
  · assumption

theorem heldBy_map_take_flush {tasks : List Task} (h : heldBy tasks .flush = []) :
    heldBy (tasks.map Task.take) .flush = heldBy tasks .pending := by
  rw [heldBy_eq_nil_iff] at h
  induction tasks with
  | nil => rfl
  | cons task rest ih =>
      obtain ⟨htask, hrest⟩ := List.forall_mem_cons.mp h
      rw [List.map_cons, heldBy_cons, heldBy_cons, ih hrest, flight_take]
      by_cases hpending : task.holder = .pending
      · simp [Task.take, hpending]
      · simp [Task.take, hpending, htask]

theorem heldBy_map_detach_flush (tasks : List Task) :
    heldBy (tasks.map Task.detach) .flush = [] := by
  rw [heldBy_eq_nil_iff]
  intro task htask
  obtain ⟨earlier, -, rfl⟩ := List.mem_map.mp htask
  exact holder_detach_ne earlier

theorem heldBy_map_detach_pending (tasks : List Task) :
    heldBy (tasks.map Task.detach) .pending = heldBy tasks .pending := by
  induction tasks with
  | nil => rfl
  | cons task rest ih =>
      rw [List.map_cons, heldBy_cons, heldBy_cons, ih, flight_detach]
      by_cases hheld : task.holder = .flush
      · simp [Task.detach, hheld]
      · simp [Task.detach, hheld]

/-! ## The work of an instant -/

/-- How much work a task can still give: its end, and its joining. -/
def Task.effort (task : Task) : Nat :=
  (if task.fate = .running then 1 else 0) + if task.holder = .nobody then 0 else 1

/-- How much work it takes for a program to get on with its acts, or to be over. -/
def Main.effort : Main → Nat
  | .ready => 1
  | .sleeping _ => 2
  | .flushing _ _ => 2
  | .finished _ => 0

/-- How much work tasks can still give. -/
def effortOf : List Task → Nat
  | [] => 0
  | task :: rest => task.effort + effortOf rest

theorem effortOf_append (tasks more : List Task) :
    effortOf (tasks ++ more) = effortOf tasks + effortOf more := by
  induction tasks with
  | nil => exact (Nat.zero_add _).symm
  | cons task rest ih => rw [List.cons_append, effortOf, effortOf, ih, Nat.add_assoc]

/-- A bound on the work of an instant. An act counts for a task and a step of the program. -/
def Runtime.effort (s : Runtime) : Nat :=
  3 * s.rest.length + s.main.effort + effortOf s.tasks

theorem Task.effort_spawn (d : Delivery) (t : Transit) (now : Nat) : (spawn d t now).effort = 2 :=
  rfl

theorem Task.effort_take_le (task : Task) : task.take.effort ≤ task.effort := by
  rw [take]
  split <;> simp_all [effort]

theorem Task.effort_drop_le (task : Task) : task.drop.effort ≤ task.effort := by
  rw [drop]
  split
  · rename_i hheld
    cases hfate : task.fate <;> simp [effort, hheld, hfate]
  · exact Nat.le_refl _

theorem Task.effort_detach_le (task : Task) : task.detach.effort ≤ task.effort := by
  rw [detach]
  split <;> simp_all [effort]

theorem effortOf_map_le {g : Task → Task} (hg : ∀ task, (g task).effort ≤ task.effort)
    (tasks : List Task) : effortOf (tasks.map g) ≤ effortOf tasks := by
  induction tasks with
  | nil => exact Nat.le_refl _
  | cons task rest ih => exact Nat.add_le_add (hg task) ih

theorem effort_lt_of_work {s s' : Runtime} (h : Work s s') : s'.effort < s.effort := by
  cases h with
  | dispatch ready next =>
      simp only [Runtime.effort, next, effortOf_append, effortOf, Task.effort_spawn,
        List.length_cons]
      omega
  | doze ready next =>
      simp only [Runtime.effort, ready, next, Main.effort, List.length_cons]
      omega
  | wake asleep due => simp [Runtime.effort, asleep, Main.effort]
  | flush ready next =>
      have htasks := effortOf_map_le Task.effort_take_le s.tasks
      simp only [Runtime.effort, ready, next, Main.effort, List.length_cons]
      omega
  | finish split running due =>
      simp [Runtime.effort, split, effortOf_append, effortOf, Task.effort, running]
  | join flushing split held ended =>
      simp [Runtime.effort, split, effortOf_append, effortOf, Task.effort, held]
  | drain flushing joined =>
      have htasks := effortOf_map_le Task.effort_drop_le s.tasks
      simp only [Runtime.effort, flushing, Main.effort]
      omega
  | expire flushing elapsed mem held running =>
      have hdrop := effortOf_map_le Task.effort_drop_le (s.tasks.map Task.detach)
      have hdetach := effortOf_map_le Task.effort_detach_le s.tasks
      simp only [Runtime.effort, flushing, Main.effort]
      omega
  | stop ready next => simp [Runtime.effort, ready, Main.effort]

/-- The work of an instant comes to an end, in whatever order it is done. -/
theorem wellFounded_work : WellFounded fun s' s => Work s s' :=
  Subrelation.wf effort_lt_of_work (measure Runtime.effort).wf

/-- Work takes no time. -/
theorem now_of_work {s s' : Runtime} (h : Work s s') : s'.now = s.now := by
  cases h <;> rfl

/-- Every instant gets quiet. -/
theorem exists_quiet (s : Runtime) : ∃ s', Reaches s s' ∧ s'.now = s.now ∧ s'.Quiet := by
  induction s using wellFounded_work.induction with
  | _ s ih =>
      by_cases hquiet : s.Quiet
      · exact ⟨s, .refl, rfl, hquiet⟩
      · obtain ⟨next, hnext⟩ : ∃ next, Work s next := by
          simpa [Runtime.Quiet] using hquiet
        obtain ⟨s', hreach, hnow, hs'⟩ := ih next hnext
        exact ⟨s', .head (.work hnext) hreach, hnow.trans (now_of_work hnext), hs'⟩

/-- A run gets to every later time, and is quiet then. -/
theorem exists_quiet_at (s : Runtime) {time : Nat} (h : s.now ≤ time) :
    ∃ s', Reaches s s' ∧ s'.now = time ∧ s'.Quiet := by
  induction h with
  | refl => exact exists_quiet s
  | step _ ih =>
      obtain ⟨between, hreach, hnow, hquiet⟩ := ih
      obtain ⟨s', hreach', hnow', hquiet'⟩ := exists_quiet { between with now := between.now + 1 }
      refine ⟨s', (hreach.tail (.tick hquiet)).trans hreach', ?_, hquiet'⟩
      rw [hnow', ← hnow]

end Haulage.Flushing
