/-
  QuickApi.Lifecycle.Work

  The work that outlives responses (`RequestWork` and `RequestAdmission` in
  `app/common/handlers/request_work.py`).  Tasks are numbered; `done` stands
  for `task.done()`.
-/

import Mathlib.Algebra.Order.Field.Rat
import QuickApi.RequestTimeout.Response

namespace QuickApi.Lifecycle

open QuickApi.RequestTimeout (Message errorResponse)

structure RequestWork where
  drainSeconds : ℚ
  drainingAt : Option ℚ
  failed : Bool
  /-- a set -/
  tasks : List Nat
deriving DecidableEq, Repr

namespace RequestWork

/-- `RequestWork(drain_seconds)` -/
def new (drainSeconds : ℚ) : RequestWork := ⟨drainSeconds, none, false, []⟩

variable (w : RequestWork)

/-- `{task for task in self.tasks if not task.done()}` -/
def pending (done : Nat → Bool) : List Nat := w.tasks.filter fun i => !done i

/-- `resume`; `none` for its `RuntimeError`. -/
def resume (done : Nat → Bool) : Option RequestWork :=
  if w.tasks.any fun i => !done i then none
  else some { w with tasks := [], drainingAt := none, failed := false }

/-- `quiesce` -/
def quiesce (now : ℚ) : RequestWork :=
  match w.drainingAt with
  | none => { w with drainingAt := some now }
  | some _ => w

/-- `self.tasks.add(task)` -/
def track (i : Nat) : RequestWork := { w with tasks := if i ∈ w.tasks then w.tasks else i :: w.tasks }

/-- `self.tasks.discard(task)` -/
def discard (i : Nat) : RequestWork := { w with tasks := w.tasks.filter (· ≠ i) }

/-- `remaining` -/
def remaining (now : ℚ) : ℚ :=
  match w.drainingAt with
  | none => w.drainSeconds
  | some at_ => max 0 (w.drainSeconds - (now - at_))

/-- What `RequestAdmission` answers an HTTP request itself; `none` if it passes it on. -/
def reject : Option (List Message) :=
  match w.drainingAt with
  | some _ => some (errorResponse 503 "Application is shutting down.")
  | none => none

theorem reject_isSome : w.reject.isSome = w.drainingAt.isSome := by
  unfold reject
  cases w.drainingAt <;> rfl

@[simp] theorem quiesce_tasks (now : ℚ) : (w.quiesce now).tasks = w.tasks := by
  unfold quiesce
  split <;> rfl

@[simp] theorem quiesce_failed (now : ℚ) : (w.quiesce now).failed = w.failed := by
  unfold quiesce
  split <;> rfl

theorem quiesce_drainingAt (now : ℚ) : (w.quiesce now).drainingAt ≠ none := by
  unfold quiesce
  split
  · exact nofun
  · next h =>
    rw [h]
    exact nofun

variable {w}

theorem resume_eq_some_iff {w' : RequestWork} {done : Nat → Bool} :
    w.resume done = some w' ↔
      (∀ i ∈ w.tasks, done i = true) ∧
        w' = { w with tasks := [], drainingAt := none, failed := false } := by
  unfold resume
  split
  · next h =>
    simp only [reduceCtorEq, false_iff, not_and]
    intro hall
    simp only [List.any_eq_true, Bool.not_eq_true'] at h
    obtain ⟨i, hi, hdone⟩ := h
    exact absurd ((hall i hi).symm.trans hdone) nofun
  · next h =>
    simp only [List.any_eq_true, Bool.not_eq_true', not_exists, not_and,
      Bool.not_eq_false] at h
    rw [Option.some.injEq, eq_comm]
    exact ⟨fun hw => ⟨h, hw⟩, fun hw => hw.2⟩

theorem mem_track {i j : Nat} : j ∈ (w.track i).tasks ↔ j = i ∨ j ∈ w.tasks := by
  unfold track
  by_cases h : i ∈ w.tasks
  · simp only [if_pos h]
    exact ⟨Or.inr, fun hj => hj.elim (fun hji => hji ▸ h) id⟩
  · simp [if_neg h]

theorem mem_discard {i j : Nat} : j ∈ (w.discard i).tasks ↔ j ∈ w.tasks ∧ j ≠ i := by
  simp [discard]

theorem mem_pending {done : Nat → Bool} {i : Nat} :
    i ∈ w.pending done ↔ i ∈ w.tasks ∧ done i = false := by
  simp [pending]

end RequestWork

end QuickApi.Lifecycle
