import Haulage.Lifecycle.Controller
import Mathlib.Data.List.Basic

/-!
# The course of a cancelled worker

A worker takes notice of being cancelled only from that time on. Until then its course is
the one that it takes when nothing cancels it, and each of its notes says whether it is
cancelled at the time.

- `le_time_of_finish`: a worker does not end before it starts.
- `finish_of_time_lt`: a worker that ends before it is cancelled ends as it would in any case.
- `notesBefore_ofScript`: what the notes of a worker say.
-/

set_option autoImplicit false

namespace Haulage.Course

variable {cancelAt : Option Nat} {c now : Nat} {script : Script} {r : Timed WorkerResult}

theorem finish_ending {result : WorkerResult} (h : (ending now result).finish = some r) :
    r.time = now := by
  cases h
  rfl

theorem isCancelled_some : isCancelled (some c) now = true ↔ c ≤ now := by
  simp [isCancelled]

/-- A worker does not end before it starts. -/
theorem le_time_of_finish (h : (ofScript cancelAt now script).finish = some r) : now ≤ r.time := by
  -- time passes only in the steps that wait
  induction script generalizing now with
  | nil => exact Nat.le_of_eq (finish_ending h).symm
  | cons step more ih =>
      cases step with
      | bind key value => exact ih h
      | note => exact ih h
      | sleep millis =>
          have := ih h
          omega
      | sleepUnlessCancelled millis =>
          cases cancelAt with
          | none =>
              have := ih h
              omega
          | some c =>
              simp only [ofScript] at h
              split at h
              · exact Nat.le_of_eq (finish_ending h).symm
              · split at h
                · have := finish_ending h
                  omega
                · have := ih h
                  omega
      | heedCancel =>
          simp only [ofScript] at h
          split at h
          · exact Nat.le_of_eq (finish_ending h).symm
          · exact ih h
      | awaitCancel =>
          cases cancelAt with
          | none => cases h
          | some c =>
              have := ih h
              omega
      | fail f => exact Nat.le_of_eq (finish_ending h).symm
      | fault message trace => exact Nat.le_of_eq (finish_ending h).symm
      | hang => cases h

/-- A worker that ends before it is cancelled ends as it would in any case. -/
theorem finish_of_time_lt (h : (ofScript (some c) now script).finish = some r) (hr : r.time < c) :
    (ofScript none now script).finish = some r := by
  induction script generalizing now with
  | nil => exact h
  | cons step more ih =>
      cases step with
      | bind key value => exact ih h
      | note => exact ih h
      | sleep millis => exact ih h
      | sleepUnlessCancelled millis =>
          simp only [ofScript] at h ⊢
          split at h
          · -- a step that heeds the cancellation ends no sooner than that
            have := finish_ending h
            omega
          · split at h
            · have := finish_ending h
              omega
            · exact ih h
      | heedCancel =>
          simp only [ofScript] at h ⊢
          split at h
          · rename_i hcancelled
            have := finish_ending h
            have := isCancelled_some.mp hcancelled
            omega
          · exact ih h
      | awaitCancel =>
          have hmore : (ofScript (some c) (max now c) more).finish = some r := h
          have := le_time_of_finish hmore
          omega
      | fail f => exact h
      | fault message trace => exact h
      | hang => cases h

/-- The times of the notes before a time. -/
def noteTimesBefore (c : Course) (time : Nat) : List Nat :=
  c.deeds.filterMap fun d =>
    match d.event with
    | .bind _ _ => none
    | .note _ => if d.time < time then some d.time else none

/-- Each note that a worker takes says whether it is cancelled at the time. -/
theorem eq_isCancelled_of_mem_deeds {d : Timed Deed} {noted : Bool}
    (h : d ∈ (ofScript cancelAt now script).deeds) (hd : d.event = .note noted) :
    noted = isCancelled cancelAt d.time := by
  induction script generalizing now with
  | nil => cases h
  | cons step more ih =>
      cases step with
      | bind key value =>
          rcases List.mem_cons.mp h with rfl | h
          · cases hd
          · exact ih h
      | note =>
          rcases List.mem_cons.mp h with rfl | h
          · cases hd
            rfl
          · exact ih h
      | sleep millis => exact ih h
      | sleepUnlessCancelled millis =>
          cases cancelAt with
          | none => exact ih h
          | some c =>
              simp only [ofScript] at h
              split at h
              · cases h
              · split at h
                · cases h
                · exact ih h
      | heedCancel =>
          simp only [ofScript] at h
          split at h
          · cases h
          · exact ih h
      | awaitCancel =>
          cases cancelAt with
          | none => cases h
          | some c => exact ih h
      | fail f => cases h
      | fault message trace => cases h
      | hang => cases h

/-- The notes of a worker say whether it is cancelled at their times. -/
theorem notesBefore_ofScript (time : Nat) :
    (ofScript cancelAt now script).notesBefore time =
      ((ofScript cancelAt now script).noteTimesBefore time).map (isCancelled cancelAt) := by
  rw [notesBefore, noteTimesBefore, List.map_filterMap]
  refine List.filterMap_congr fun d hd => ?_
  cases hevent : d.event with
  | bind key value => rfl
  | note noted =>
      rw [eq_isCancelled_of_mem_deeds hd hevent]
      dsimp only
      split <;> rfl

end Haulage.Course
