/-
  QuickApi.DatabasePool.Admission

  The admission counter in front of the connection pool (`Admission` in
  `app/common/handlers/database_pool.py`).  A coroutine is cut at its one
  `await`: `acquire` is the part before it, `awaited` and `acquireFailed` are
  the parts behind it.  A waiter is the future an acquisition creates; futures
  are numbered by the acquisition they belong to.

  The log is the only ghost: it records which acquisition each permit was
  granted to and which one gave it back.
-/

import Mathlib.Data.List.Basic
import Mathlib.Logic.Function.Basic

namespace QuickApi.DatabasePool

-- ============================================================================
-- Exceptions and futures
-- ============================================================================

/-- `DatabaseUnavailableError(code)`, with the status and the detail of its base class. -/
structure DatabaseUnavailableError where
  statusCode : Nat
  detail : String
  code : String
deriving DecidableEq, Repr

def databaseUnavailable (code : String) : DatabaseUnavailableError :=
  ⟨503, "Database temporarily unavailable.", code⟩

/-- What an acquisition can raise. -/
inductive Exc where
  | unavailable (error : DatabaseUnavailableError)
  | cancelled
  | timeout
  | other
deriving DecidableEq, Repr

/-- An `asyncio.Future[None]`. -/
inductive FutureState where
  | pending
  | result
  | exception (e : Exc)
  | cancelled
deriving DecidableEq, Repr

abbrev Waiter := Nat

inductive LogEntry where
  | granted (w : Waiter)
  | released (w : Waiter)
deriving DecidableEq, Repr

/-- The counter, its queue (oldest first) and the futures of its waiters. -/
structure Admission where
  limit : Nat
  queueLimit : Nat
  active : Int
  waiters : List Waiter
  closed : Bool
  future : Waiter → FutureState
  log : List LogEntry

namespace Admission

/-- `Admission(limit, queue_limit)` -/
def new (limit queueLimit : Nat) : Admission where
  limit := limit
  queueLimit := queueLimit
  active := 0
  waiters := []
  closed := false
  future := fun _ => .pending
  log := []

def setFuture (a : Admission) (w : Waiter) (f : FutureState) : Admission :=
  { a with future := Function.update a.future w f }

-- ============================================================================
-- acquire
-- ============================================================================

/-- How the part of `acquire` before its `await` ends. -/
inductive Start where
  | granted
  | suspended
  | raised (e : Exc)
deriving DecidableEq, Repr

/-- `acquire` up to `await waiter`; `w` is the future it may create. -/
def acquire (a : Admission) (w : Waiter) : Start × Admission :=
  if a.closed then (.raised (.unavailable (databaseUnavailable "DB_POOL_CLOSED")), a)
  else if a.active < a.limit then 
    (.granted, { a with active := a.active + 1, log := a.log ++ [.granted w] })
  else if a.waiters.length ≥ a.queueLimit then
    (.raised (.unavailable (databaseUnavailable "DB_POOL_CAPACITY")), a)
  else (.suspended, { a.setFuture w .pending with waiters := a.waiters ++ [w] })

/-- How `await waiter` ends when the task is resumed.  A cancellation that arrived after the
    future was done is raised in place of its result. -/
def awaited (f : FutureState) (mustCancel : Bool) : Option (Except Exc Unit) :=
  match f with
  | .pending => none
  | .result => some (if mustCancel then .error .cancelled else .ok ())
  | .exception e => some (.error (if mustCancel then .cancelled else e))
  | .cancelled => some (.error .cancelled)

-- ============================================================================
-- release and close
-- ============================================================================

/-- The loop of `release`: the first waiter that is not done, and the queue behind it. -/
def releaseLoop (future : Waiter → FutureState) : List Waiter → Option Waiter × List Waiter
  | [] => (none, [])
  | w :: ws => if future w = .pending then (some w, ws) else releaseLoop future ws

/-- `release`, for the permit of acquisition `i`. -/
def release (a : Admission) (i : Waiter) : Admission :=
  match releaseLoop a.future a.waiters with
  | (some w, rest) =>
      { a.setFuture w .result with
        waiters := rest
        log := a.log ++ [.released i, .granted w] }
  | (none, rest) =>
      { a with waiters := rest, active := a.active - 1, log := a.log ++ [.released i] }

/-- The `except BaseException` block of `acquire`.  `waiter.exception()` is not read of a
    pending future: such a waiter is still queued. -/
def acquireFailed (a : Admission) (w : Waiter) : Admission :=
  if w ∈ a.waiters then { a with waiters := a.waiters.erase w }
  else if a.future w = .result then a.release w
  else a

/-- The loop of `close`. -/
def closeLoop (future : Waiter → FutureState) : List Waiter → Waiter → FutureState
  | [] => future
  | w :: ws =>
      closeLoop
        (if future w = .pending then
          Function.update future w (.exception (.unavailable (databaseUnavailable "DB_POOL_CLOSED")))
        else future) ws

/-- `close` -/
def close (a : Admission) : Admission :=
  { a with closed := true, waiters := [], future := closeLoop a.future a.waiters }

-- ============================================================================
-- What each function does
-- ============================================================================

/-- A queued waiter whose future is not done. -/
def PendingWaiter (a : Admission) (w : Waiter) : Prop := w ∈ a.waiters ∧ a.future w = .pending

/-- A newcomer is refused, takes a free permit, or queues up behind everyone else. -/
theorem acquire_cases (a : Admission) (w : Waiter) :
    (∃ e, a.acquire w = (.raised e, a)) ∨
    (a.closed = false ∧ a.active < a.limit ∧
      a.acquire w =
        (.granted, { a with active := a.active + 1, log := a.log ++ [.granted w] })) ∨
    (a.closed = false ∧ ¬ a.active < a.limit ∧
      a.acquire w = (.suspended, { a.setFuture w .pending with waiters := a.waiters ++ [w] })) := by
  unfold acquire
  cases hclosed : a.closed with
  | true => exact Or.inl ⟨_, rfl⟩
  | false =>
      rw [if_neg Bool.false_ne_true]
      by_cases hfree : a.active < a.limit
      · rw [if_pos hfree]
        exact Or.inr (Or.inl ⟨rfl, hfree, rfl⟩)
      · rw [if_neg hfree]
        split_ifs
        · exact Or.inl ⟨_, rfl⟩
        · exact Or.inr (Or.inr ⟨rfl, hfree, rfl⟩)

theorem releaseLoop_none {future : Waiter → FutureState} {ws rest : List Waiter}
    (h : releaseLoop future ws = (none, rest)) : rest = [] ∧ ∀ w ∈ ws, future w ≠ .pending := by
  induction ws with
  | nil =>
      obtain ⟨-, rfl⟩ := Prod.mk.inj h
      exact ⟨rfl, fun _ hw => absurd hw List.not_mem_nil⟩
  | cons w ws ih =>
      rw [releaseLoop] at h
      split at h
      · cases h
      · next hw =>
        obtain ⟨hrest, hall⟩ := ih h
        exact ⟨hrest, List.forall_mem_cons.mpr ⟨hw, hall⟩⟩

/-- The loop skips waiters that are done and stops at the first that is not. -/
theorem releaseLoop_some {future : Waiter → FutureState} {ws rest : List Waiter} {w : Waiter}
    (h : releaseLoop future ws = (some w, rest)) :
    ∃ skipped, ws = skipped ++ w :: rest ∧ future w = .pending ∧
      ∀ v ∈ skipped, future v ≠ .pending := by
  induction ws with
  | nil => cases h
  | cons v ws ih =>
      rw [releaseLoop] at h
      split at h
      · next hv =>
        obtain ⟨hw, rfl⟩ := Prod.mk.inj h
        obtain rfl := Option.some.inj hw
        exact ⟨[], rfl, hv, fun _ hv => absurd hv List.not_mem_nil⟩
      · next hv =>
        obtain ⟨skipped, rfl, hw, hall⟩ := ih h
        exact ⟨v :: skipped, rfl, hw, List.forall_mem_cons.mpr ⟨hv, hall⟩⟩

/-- A release either finds no pending waiter and lowers the counter, or hands the permit to the
    first pending waiter and leaves the counter alone. -/
theorem release_cases (a : Admission) (i : Waiter) :
    ((∀ w, ¬ a.PendingWaiter w) ∧
      a.release i =
        { a with waiters := [], active := a.active - 1, log := a.log ++ [.released i] }) ∨
    (∃ w skipped rest, a.waiters = skipped ++ w :: rest ∧ a.future w = .pending ∧
      (∀ v ∈ skipped, a.future v ≠ .pending) ∧
      a.release i =
        { a.setFuture w .result with
          waiters := rest
          log := a.log ++ [.released i, .granted w] }) := by
  cases hloop : releaseLoop a.future a.waiters with
  | mk hand rest =>
      cases hand with
      | none =>
          obtain ⟨rfl, hall⟩ := releaseLoop_none hloop
          refine Or.inl ⟨fun w hw => hall w hw.1 hw.2, ?_⟩
          rw [release, hloop]
      | some w =>
          obtain ⟨skipped, heq, hw, hall⟩ := releaseLoop_some hloop
          refine Or.inr ⟨w, skipped, rest, heq, hw, hall, ?_⟩
          rw [release, hloop]

/-- `close` turns the pending waiters into failed ones and touches no other future. -/
theorem closeLoop_apply (future : Waiter → FutureState) (ws : List Waiter) (w : Waiter) :
    closeLoop future ws w =
      if w ∈ ws ∧ future w = .pending then
        .exception (.unavailable (databaseUnavailable "DB_POOL_CLOSED"))
      else future w := by
  induction ws generalizing future with
  | nil => simp [closeLoop]
  | cons v ws ih =>
      rw [closeLoop, ih]
      by_cases hvw : w = v
      · subst hvw
        by_cases hp : future w = .pending <;> simp [hp]
      · split <;> simp [hvw]

theorem close_future (a : Admission) (w : Waiter) :
    a.close.future w =
      if w ∈ a.waiters ∧ a.future w = .pending then
        .exception (.unavailable (databaseUnavailable "DB_POOL_CLOSED"))
      else a.future w := closeLoop_apply a.future a.waiters w

end Admission

end QuickApi.DatabasePool
