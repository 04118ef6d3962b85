import Haulage.Lifecycle.Controller
import Mathlib.Logic.Basic

/-!
# The first event of a process

Of the end of the worker, an interrupt and a kill signal the earliest one decides how the process
ends. A signal that comes later is as good as none.

- `comes_of_eq_some`, `time_le_of_eq_some`, `exists_of_comes`: the event that decides
  is an earliest one.
- `of_eq_some_iff`: when no two events come together, it is the one that comes first.
- `ComesFirst.upTo`: later signals do not change which one that is.
-/

set_option autoImplicit false

namespace Haulage

open Haulage.Json

/-- The signals that come no later than a time. -/
def Signals.upTo (s : Signals) (time : Nat) : Signals :=
  ⟨s.interruptAt.filter (· ≤ time), s.killAt.filter (· ≤ time)⟩

namespace FirstEvent

variable {finish : Option (Timed WorkerResult)} {s : Signals} {e e' : FirstEvent}

/-- The time of an event. -/
def time : FirstEvent → Nat
  | .finish r => r.time
  | .interrupt time => time
  | .kill time => time

/-- An event that comes, first or not. -/
def Comes (finish : Option (Timed WorkerResult)) (s : Signals) : FirstEvent → Prop
  | .finish r => finish = some r
  | .interrupt time => s.interruptAt = some time
  | .kill time => s.killAt = some time

/-- No two events come at the same time. -/
def Apart (finish : Option (Timed WorkerResult)) (s : Signals) : Prop :=
  ∀ e e', Comes finish s e → Comes finish s e' → e ≠ e' → e.time ≠ e'.time

/-- An event that comes before all others. -/
structure ComesFirst (finish : Option (Timed WorkerResult)) (s : Signals)
    (e : FirstEvent) : Prop where
  comes : Comes finish s e
  before : ∀ e', Comes finish s e' → e' ≠ e → e.time < e'.time

/-! ## The event that decides -/

theorem precedes_some_iff {t : Nat} {b : Option Nat} :
    precedes (some t) b = true ↔ ∀ u, b = some u → t < u := by
  cases b <;> simp [precedes]

theorem exists_of_precedes {a b : Option Nat} (h : precedes a b = true) : ∃ t, a = some t := by
  cases a with
  | none => cases h
  | some t => exact ⟨t, rfl⟩

/-- What does not precede another time comes no sooner than that. -/
theorem exists_le_of_not_precedes {a b : Option Nat} {t : Nat} (h : ¬precedes a b = true)
    (ha : a = some t) : ∃ u, b = some u ∧ u ≤ t := by
  rw [ha, precedes_some_iff, not_forall] at h
  obtain ⟨u, hu⟩ := h
  rw [Classical.not_imp, Nat.not_lt] at hu
  exact ⟨u, hu⟩

/-- The event that decides is one that comes. -/
theorem comes_of_eq_some (h : of finish s = some e) : Comes finish s e := by
  rw [of] at h
  split at h
  · obtain ⟨t, ht, rfl⟩ := Option.map_eq_some_iff.mp h
    exact ht
  · split at h
    · obtain ⟨t, ht, rfl⟩ := Option.map_eq_some_iff.mp h
      exact ht
    · obtain ⟨r, hr, rfl⟩ := Option.map_eq_some_iff.mp h
      exact hr

/-- No event comes sooner than the one that decides. -/
theorem time_le_of_eq_some (h : of finish s = some e) (h' : Comes finish s e') :
    e.time ≤ e'.time := by
  have hfinish : ∀ {r}, finish = some r → finish.map (·.time) = some r.time :=
    fun hr => congrArg (Option.map (·.time)) hr
  rw [of] at h
  split at h
  · rename_i hkill
    obtain ⟨k, hk, rfl⟩ := Option.map_eq_some_iff.mp h
    rw [hk, Bool.and_eq_true_iff, precedes_some_iff, precedes_some_iff] at hkill
    cases e' with
    | finish r => exact Nat.le_of_lt (hkill.1 _ (hfinish h'))
    | interrupt i => exact Nat.le_of_lt (hkill.2 _ h')
    | kill k' => exact Nat.le_of_eq (Option.some.inj (hk.symm.trans h'))
  · rename_i hkill
    rw [Bool.and_eq_true_iff, not_and_or] at hkill
    split at h
    · rename_i hinterrupt
      obtain ⟨i, hi, rfl⟩ := Option.map_eq_some_iff.mp h
      rw [hi, precedes_some_iff] at hinterrupt
      cases e' with
      | finish r => exact Nat.le_of_lt (hinterrupt _ (hfinish h'))
      | interrupt i' => exact Nat.le_of_eq (Option.some.inj (hi.symm.trans h'))
      | kill k =>
          rcases hkill with hkill | hkill
          · -- the worker ends before the kill signal, and the interrupt comes before that
            obtain ⟨f, hf, hle⟩ := exists_le_of_not_precedes hkill h'
            exact Nat.le_trans (Nat.le_of_lt (hinterrupt f hf)) hle
          · obtain ⟨i', hi', hle⟩ := exists_le_of_not_precedes hkill h'
            rw [hi, Option.some.injEq] at hi'
            subst hi'
            exact hle
    · rename_i hinterrupt
      obtain ⟨r, hr, rfl⟩ := Option.map_eq_some_iff.mp h
      have hi : ∀ i, s.interruptAt = some i → r.time ≤ i := by
        intro i hi
        obtain ⟨f, hf, hle⟩ := exists_le_of_not_precedes hinterrupt hi
        rw [hfinish hr, Option.some.injEq] at hf
        subst hf
        exact hle
      cases e' with
      | finish r' =>
          cases Option.some.inj (hr.symm.trans h')
          exact Nat.le_refl _
      | interrupt i => exact hi i h'
      | kill k =>
          rcases hkill with hkill | hkill
          · obtain ⟨f, hf, hle⟩ := exists_le_of_not_precedes hkill h'
            rw [hfinish hr, Option.some.injEq] at hf
            subst hf
            exact hle
          · obtain ⟨i, hi', hle⟩ := exists_le_of_not_precedes hkill h'
            exact Nat.le_trans (hi i hi') hle

/-- Some event decides when any comes. -/
theorem exists_of_comes (h : Comes finish s e) : ∃ e', of finish s = some e' := by
  rw [of]
  split
  · rename_i hkill
    obtain ⟨k, hk⟩ := exists_of_precedes (Bool.and_eq_true_iff.mp hkill).1
    exact ⟨.kill k, by rw [hk]; rfl⟩
  · rename_i hkill
    split
    · rename_i hinterrupt
      obtain ⟨i, hi⟩ := exists_of_precedes hinterrupt
      exact ⟨.interrupt i, by rw [hi]; rfl⟩
    · rename_i hinterrupt
      cases finish with
      | some r => exact ⟨.finish r, rfl⟩
      | none =>
          -- without an end of the worker a signal that comes precedes it
          exfalso
          have hi : ∀ i, s.interruptAt ≠ some i := by
            intro i hi
            obtain ⟨f, hf, -⟩ := exists_le_of_not_precedes hinterrupt hi
            cases hf
          cases e with
          | finish r => cases h
          | interrupt i => exact hi i h
          | kill k =>
              rw [Bool.and_eq_true_iff, not_and_or] at hkill
              rcases hkill with hkill | hkill
              · obtain ⟨f, hf, -⟩ := exists_le_of_not_precedes hkill h
                cases hf
              · obtain ⟨i, hi', -⟩ := exists_le_of_not_precedes hkill h
                exact hi i hi'

/-- When no two events come together, the one that decides is the one that comes first. -/
theorem of_eq_some_iff (hapart : Apart finish s) :
    of finish s = some e ↔ ComesFirst finish s e := by
  constructor
  · intro h
    refine ⟨comes_of_eq_some h, fun e' he' hne => ?_⟩
    have hle := time_le_of_eq_some h he'
    have hne' := hapart e e' (comes_of_eq_some h) he' hne.symm
    omega
  · intro h
    obtain ⟨e', he'⟩ := exists_of_comes h.comes
    by_cases heq : e' = e
    · rw [← heq, he']
    · have hlt := h.before e' (comes_of_eq_some he') heq
      have hle := time_le_of_eq_some he' h.comes
      omega

theorem of_eq_none_iff : of finish s = none ↔ ∀ e, ¬Comes finish s e := by
  constructor
  · intro h e he
    obtain ⟨e', he'⟩ := exists_of_comes he
    rw [h] at he'
    cases he'
  · intro h
    cases hof : of finish s with
    | none => rfl
    | some e => exact absurd (comes_of_eq_some hof) (h e)

/-! ## Signals that come later -/

theorem comes_of_upTo {time : Nat} (h : Comes finish (s.upTo time) e) : Comes finish s e := by
  cases e with
  | finish r => exact h
  | interrupt t => exact (Option.filter_eq_some_iff.mp h).1
  | kill t => exact (Option.filter_eq_some_iff.mp h).1

theorem comes_upTo_of_le {time : Nat} (h : Comes finish s e) (hle : e.time ≤ time) :
    Comes finish (s.upTo time) e := by
  cases e with
  | finish r => exact h
  | interrupt t => exact Option.filter_eq_some_iff.mpr ⟨h, decide_eq_true hle⟩
  | kill t => exact Option.filter_eq_some_iff.mpr ⟨h, decide_eq_true hle⟩

theorem Apart.upTo (h : Apart finish s) (time : Nat) : Apart finish (s.upTo time) :=
  fun e e' he he' => h e e' (comes_of_upTo he) (comes_of_upTo he')

/-- The event that comes first does so whatever signals would have come later. -/
theorem ComesFirst.upTo (h : ComesFirst finish s e) : ComesFirst finish (s.upTo e.time) e :=
  ⟨comes_upTo_of_le h.comes (Nat.le_refl _), fun e' he' => h.before e' (comes_of_upTo he')⟩

end FirstEvent

end Haulage
