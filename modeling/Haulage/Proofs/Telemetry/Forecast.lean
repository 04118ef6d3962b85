import Haulage.Lifecycle.Controller
import Haulage.Proofs.Telemetry.Runtime
import Mathlib.Order.Nat

/-!
# What a program of deliveries comes to

The outbox says at once how long a flush takes and what it comes to, and so what a whole program
comes to: what it has sent, when it is over, and what each of its flushes has come to. No clock has
to run for that. Whether a delivery fails plays no part in it.

- `Forecast.of`: what a program comes to.
- `Forecast.Explained`: what the forecast says about every dispatch and every flush of a program.
- `Forecast.of_lossless`: failing deliveries count like others.
- `of_afterFinish`: the end of a process is that of such a program.
-/

set_option autoImplicit false

namespace Haulage.Flushing

/-! ## Waiting -/

theorem le_lastDue (o : Outbox) (now : Nat) : now ≤ o.lastDue now :=
  ((o.lastDue_le_iff now _).mp (Nat.le_refl _)).1

theorem due_le_lastDue {o : Outbox} {f : InFlight} (h : f ∈ o.awaited) (now : Nat) :
    f.due ≤ o.lastDue now :=
  ((o.lastDue_le_iff now _).mp (Nat.le_refl _)).2 f h

/-- What has ended by now no longer counts for the wait. -/
theorem lastDue_of_le {sent awaited awaited' : List InFlight} {f : InFlight} {now : Nat}
    (hf : f.due ≤ now) (h : awaited.Perm (f :: awaited')) :
    Outbox.lastDue ⟨sent, awaited⟩ now = Outbox.lastDue ⟨sent, awaited'⟩ now := by
  apply eq_of_forall_ge_iff
  intro time
  rw [Outbox.lastDue_le_iff, Outbox.lastDue_le_iff]
  apply and_congr_right
  intro hnow
  constructor
  · intro hall g hg
    exact hall g (h.mem_iff.mpr (List.mem_cons_of_mem _ hg))
  · intro hall g hg
    rcases List.mem_cons.mp (h.mem_iff.mp hg) with rfl | hg
    · exact Nat.le_trans hf hnow
    · exact hall g hg

/-- As long as it goes on, a wait does not get longer. -/
theorem lastDue_succ {o : Outbox} {now : Nat} (h : now < o.lastDue now) :
    o.lastDue (now + 1) = o.lastDue now := by
  apply eq_of_forall_ge_iff
  intro time
  rw [Outbox.lastDue_le_iff]
  constructor
  · rintro ⟨hnow, hall⟩
    exact (o.lastDue_le_iff now time).mpr ⟨Nat.le_of_succ_le hnow, hall⟩
  · intro htime
    exact ⟨Nat.le_trans h htime, ((o.lastDue_le_iff now time).mp htime).2⟩

/-- The longest remaining delay of deliveries under way. -/
def longestLeft (fs : List InFlight) (now : Nat) : Nat :=
  (fs.map fun f => f.due - now).foldr max 0

theorem longestLeft_le_iff (fs : List InFlight) (now t : Nat) :
    longestLeft fs now ≤ t ↔ ∀ f ∈ fs, f.due ≤ now + t := by
  induction fs with
  | nil => simp [longestLeft]
  | cons f rest ih =>
      have hcons : longestLeft (f :: rest) now = max (f.due - now) (longestLeft rest now) := rfl
      rw [hcons, Nat.max_le, ih, List.forall_mem_cons, Nat.sub_le_iff_le_add']

/-- Waiting takes the window or the longest remaining delay, whichever is shorter. -/
theorem flushEnd_eq_add (o : Outbox) (now window : Nat) :
    o.flushEnd now window = now + min window (longestLeft o.awaited now) := by
  have hlast : o.lastDue now = now + longestLeft o.awaited now := by
    apply Nat.le_antisymm
    · rw [Outbox.lastDue_le_iff]
      exact ⟨Nat.le_add_right _ _, (longestLeft_le_iff _ _ _).mp (Nat.le_refl _)⟩
    · have hnow := le_lastDue o now
      have hleft : longestLeft o.awaited now ≤ o.lastDue now - now := by
        rw [longestLeft_le_iff, Nat.add_sub_cancel' hnow]
        exact fun f hf => due_le_lastDue hf now
      omega
  rw [Outbox.flushEnd, hlast, Nat.add_min_add_left]

/-- Waiting succeeds exactly when all deliveries end within the window. -/
theorem drains_eq_true_iff (o : Outbox) (now window : Nat) :
    o.drains now window = true ↔ ∀ f ∈ o.awaited, f.due ≤ now + window := by
  rw [Outbox.drains, decide_eq_true_iff, Outbox.lastDue_le_iff]
  exact and_iff_right (Nat.le_add_right _ _)

/-! ## What a program comes to -/

/-- The delivery that an act dispatches. -/
def Act.delivery? : Act → Option Delivery
  | .dispatch d _ => some d
  | _ => none

/-- What a program has come to: its outbox, the time, and what its flushes have come to. -/
structure Forecast where
  outbox : Outbox
  time : Nat
  outcomes : List Outcome

namespace Forecast

/-- What a flush comes to. -/
def outcome (c : Forecast) (window : Nat) : Outcome :=
  ⟨c.time, c.outbox.flushEnd c.time window, c.outbox.drains c.time window⟩

/-- What a program comes to by one more act. -/
def act (c : Forecast) : Act → Forecast
  | .dispatch d t => { c with outbox := c.outbox.send (fun _ => t) c.time d }
  | .sleep millis => { c with time := c.time + millis }
  | .flush window =>
    { outbox := c.outbox.flushed
      time := (c.outcome window).stop
      outcomes := c.outcomes ++ [c.outcome window] }

/-- What a program comes to. -/
def of (acts : List Act) : Forecast :=
  acts.foldl act ⟨.empty, 0, []⟩

theorem of_append_singleton (acts : List Act) (a : Act) : of (acts ++ [a]) = (of acts).act a := by
  simp [of]

/-- A forecast goes on from another: what is sent later ends later, too. -/
structure Extends (c c' : Forecast) : Prop where
  sent : ∃ more, c'.outbox.sent = c.outbox.sent ++ more ∧ ∀ f ∈ more, c.time ≤ f.due
  outcomes : c.outcomes <+: c'.outcomes
  time : c.time ≤ c'.time

theorem Extends.refl (c : Forecast) : Extends c c :=
  ⟨⟨[], (List.append_nil _).symm, List.forall_mem_nil _⟩, List.prefix_rfl, Nat.le_refl _⟩

theorem Extends.trans {c c' c'' : Forecast} (h : Extends c c') (h' : Extends c' c'') :
    Extends c c'' := by
  obtain ⟨more, hsent, hmore⟩ := h.sent
  obtain ⟨more', hsent', hmore'⟩ := h'.sent
  refine ⟨⟨more ++ more', ?_, ?_⟩, h.outcomes.trans h'.outcomes, Nat.le_trans h.time h'.time⟩
  · rw [hsent', hsent, List.append_assoc]
  · intro f hf
    rcases List.mem_append.mp hf with hf | hf
    · exact hmore f hf
    · exact Nat.le_trans h.time (hmore' f hf)

theorem extends_act (c : Forecast) (a : Act) : Extends c (c.act a) := by
  cases a with
  | dispatch d t =>
      refine ⟨⟨[⟨d, c.time + t.delay, t.fails⟩], rfl, ?_⟩, List.prefix_rfl, Nat.le_refl _⟩
      intro f hf
      rw [List.mem_singleton.mp hf]
      exact Nat.le_add_right _ _
  | sleep millis =>
      exact ⟨⟨[], (List.append_nil _).symm, List.forall_mem_nil _⟩, List.prefix_rfl,
        Nat.le_add_right _ _⟩
  | flush window =>
      refine ⟨⟨[], (List.append_nil _).symm, List.forall_mem_nil _⟩, List.prefix_append _ _, ?_⟩
      exact Nat.le_min.mpr ⟨Nat.le_add_right _ _, le_lastDue _ _⟩

theorem extends_foldl (c : Forecast) (acts : List Act) : Extends c (acts.foldl act c) := by
  induction acts generalizing c with
  | nil => exact .refl c
  | cons a rest ih => exact (extends_act c a).trans (ih (c.act a))

/-- The forecast of a program goes on from that of its first acts. -/
theorem extends_of_append (before after : List Act) :
    Extends (of before) (of (before ++ after)) := by
  rw [of, of, List.foldl_append]
  exact extends_foldl _ after

/-! ## What a forecast says -/

/-- The forecast of a program goes on from what an act in it comes to. -/
theorem extends_act_of_append (before : List Act) (a : Act) (after : List Act) :
    Extends ((of before).act a) (of (before ++ a :: after)) := by
  rw [of, of, List.foldl_append, List.foldl_cons]
  exact extends_foldl _ after

/-- A dispatched delivery is sent, and ends after its delay. -/
theorem sent_dispatch_prefix (before : List Act) (d : Delivery) (t : Transit) (after : List Act) :
    (of before).outbox.sent ++ [⟨d, (of before).time + t.delay, t.fails⟩] <+:
      (of (before ++ .dispatch d t :: after)).outbox.sent := by
  obtain ⟨more, hsent, -⟩ := (extends_act_of_append before (.dispatch d t) after).sent
  rw [hsent]
  exact List.prefix_append _ more

/-- A flush comes to what its outbox says. -/
theorem outcomes_flush_prefix (before : List Act) (window : Nat) (after : List Act) :
    (of before).outcomes ++ [(of before).outcome window] <+:
      (of (before ++ .flush window :: after)).outcomes :=
  (extends_act_of_append before (.flush window) after).outcomes

theorem deliveries_act (c : Forecast) (a : Act) :
    (c.act a).outbox.sent.map (·.delivery) = c.outbox.sent.map (·.delivery) ++
      a.delivery?.toList := by
  cases a with
  | dispatch d t => simp [act, Outbox.send, Act.delivery?]
  | sleep millis => exact (List.append_nil _).symm
  | flush window => exact (List.append_nil _).symm

theorem deliveries_foldl (c : Forecast) (acts : List Act) :
    (acts.foldl act c).outbox.sent.map (·.delivery) =
      c.outbox.sent.map (·.delivery) ++ acts.filterMap Act.delivery? := by
  induction acts generalizing c with
  | nil => exact (List.append_nil _).symm
  | cons a rest ih =>
      rw [List.foldl_cons, ih, deliveries_act, List.append_assoc]
      cases hdelivery : a.delivery? with
      | none => rw [List.filterMap_cons_none hdelivery, Option.toList_none, List.nil_append]
      | some d => rw [List.filterMap_cons_some hdelivery, Option.toList_some, List.singleton_append]

/-- What the forecast of a program says. -/
structure Explained (acts : List Act) : Prop where
  /-- The program sends what it dispatches, each delivery once. -/
  deliveries : (of acts).outbox.sent.map (·.delivery) = acts.filterMap Act.delivery?
  /-- A dispatched delivery ends after its delay. -/
  dispatched : ∀ before d t after, acts = before ++ .dispatch d t :: after →
    (of before).outbox.sent ++ [⟨d, (of before).time + t.delay, t.fails⟩] <+: (of acts).outbox.sent
  /-- A flush takes the window or the longest remaining delay, says whether all deliveries have
  ended, and leaves none pending. -/
  flushed : ∀ before window after, acts = before ++ .flush window :: after →
    ∃ o : Outcome, (of before).outcomes ++ [o] <+: (of acts).outcomes ∧ o.start = (of before).time ∧
      o.stop = o.start + min window (longestLeft (of before).outbox.awaited o.start) ∧
      (o.drained = true ↔ ∀ f ∈ (of before).outbox.awaited, f.due ≤ o.start + window) ∧
      (of (before ++ [.flush window])).time = o.stop ∧
      (of (before ++ [.flush window])).outbox.awaited = []
  /-- A flush right after another one succeeds at once. -/
  again : ∀ before window window' after, acts = before ++ .flush window :: .flush window' :: after →
    ∃ o : Outcome, (of (before ++ [.flush window])).outcomes ++ [o] <+: (of acts).outcomes ∧
      o.start = (of (before ++ [.flush window])).time ∧ o.stop = o.start ∧ o.drained = true

theorem explained (acts : List Act) : Explained acts := by
  constructor
  case deliveries => exact deliveries_foldl _ acts
  case dispatched =>
    rintro before d t after rfl
    exact sent_dispatch_prefix before d t after
  case flushed =>
    rintro before window after rfl
    refine ⟨_, outcomes_flush_prefix before window after, rfl, flushEnd_eq_add _ _ _,
      drains_eq_true_iff _ _ _, ?_, ?_⟩
    · rw [of_append_singleton]
      rfl
    · rw [of_append_singleton]
      rfl
  case again =>
    rintro before window window' after rfl
    have hprefix := outcomes_flush_prefix (before ++ [.flush window]) window' after
    rw [List.append_assoc, List.singleton_append] at hprefix
    refine ⟨_, hprefix, rfl, ?_, ?_⟩
    · rw [of_append_singleton]
      exact Outbox.flushEnd_flushed _ _ _
    · rw [of_append_singleton]
      exact (drains_eq_true_iff _ _ _).mpr (List.forall_mem_nil _)

end Forecast

/-! ## Failing deliveries -/

/-- The act, with a delivery that does not fail. -/
def Act.lossless : Act → Act
  | .dispatch d t => .dispatch d { t with fails := false }
  | a => a

/-- A delivery under way that does not fail. -/
def lossless (f : InFlight) : InFlight :=
  { f with fails := false }

namespace Forecast

/-- What a program comes to, with deliveries that do not fail. -/
def lossless (c : Forecast) : Forecast :=
  { c with outbox := ⟨c.outbox.sent.map Flushing.lossless, c.outbox.awaited.map Flushing.lossless⟩ }

theorem lastDue_lossless (c : Forecast) (now : Nat) :
    c.lossless.outbox.lastDue now = c.outbox.lastDue now := by
  simp only [Outbox.lastDue, lossless, List.foldl_map]
  rfl

theorem act_lossless (c : Forecast) (a : Act) : c.lossless.act a.lossless = (c.act a).lossless := by
  cases a with
  | dispatch d t => simp [act, Act.lossless, lossless, Outbox.send, Flushing.lossless]
  | sleep millis => rfl
  | flush window =>
      simp only [act, Act.lossless, outcome, Outbox.flushEnd, Outbox.drains, lastDue_lossless]
      rfl

theorem foldl_lossless (c : Forecast) (acts : List Act) :
    (acts.map Act.lossless).foldl act c.lossless = (acts.foldl act c).lossless := by
  induction acts generalizing c with
  | nil => rfl
  | cons a rest ih => rw [List.map_cons, List.foldl_cons, List.foldl_cons, act_lossless, ih]

/-- Failing deliveries count like others: for a program it makes no difference whether they fail. -/
theorem of_lossless (acts : List Act) : of (acts.map Act.lossless) = (of acts).lossless :=
  foldl_lossless ⟨.empty, 0, []⟩ acts

end Forecast

/-! ## The end of a process -/

/-- What a process does when its worker has ended: it dispatches the deliveries, flushes and waits
for a moment. -/
def endingActs (s : Lifecycle.Start) (course : Course) (window : Nat)
    (finish : Timed WorkerResult) :
    List Act :=
  let c := Lifecycle.conclude s (course.contextBefore (finish.time + 1) s.context) finish.event
  .sleep finish.time :: (c.deliveries.map fun d => .dispatch d (s.carrier d)) ++
    [.flush window, .sleep s.policy.exitDelay]

theorem foldl_dispatch (carrier : Carrier) (ds : List Delivery) (c : Forecast) :
    (ds.map fun d => Act.dispatch d (carrier d)).foldl Forecast.act c =
      { c with outbox := c.outbox.sendAll carrier c.time ds } := by
  induction ds generalizing c with
  | nil => rfl
  | cons d rest ih =>
      rw [List.map_cons, List.foldl_cons, ih]
      rfl

/-- A process whose worker has ended comes to what such a program comes to. -/
theorem of_afterFinish (s : Lifecycle.Start) (course : Course) (window : Nat) (interrupted : Bool)
    (said : List Output) (finish : Timed WorkerResult) :
    (Forecast.of (endingActs s course window finish)).time =
        (Lifecycle.afterFinish s course window interrupted said finish).time ∧
      (Forecast.of (endingActs s course window finish)).outbox =
        (Lifecycle.afterFinish s course window interrupted said finish).outbox := by
  have hasleep : (⟨.empty, 0, []⟩ : Forecast).act (.sleep finish.time) =
      ⟨.empty, finish.time, []⟩ := by
    simp [Forecast.act]
  simp only [Forecast.of, endingActs, List.foldl_append, List.foldl_cons, hasleep, foldl_dispatch]
  exact ⟨rfl, rfl⟩

end Haulage.Flushing
