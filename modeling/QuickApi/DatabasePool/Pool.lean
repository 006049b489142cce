/-
  QuickApi.DatabasePool.Pool

  The pool around the counter (`BoundedAsyncPool` in
  `app/common/handlers/database_pool.py`), as a transition system over any
  number of acquisitions.  An event is one uninterrupted stretch of code
  between two awaits, a cancellation, an expired timer, or a disposal.
-/

import QuickApi.DatabasePool.Admission
import QuickApi.Lib.Transition
import Mathlib.Data.Finset.Basic

namespace QuickApi.DatabasePool

open QuickApi.Lib

abbrev Record := Nat

-- ============================================================================
-- State
-- ============================================================================

/-- Where an acquisition and the lease that follows it stand. -/
inductive Phase where
  /-- suspended at `await waiter` -/
  | waiting
  /-- behind `acquired = True`, in `greenlet_spawn(super()._do_get)` -/
  | creating
  /-- in `greenlet_spawn(record.close)` -/
  | closing (record : Record)
  /-- `_acquire_record` returned the record -/
  | leased (record : Record)
  /-- in `_do_return_conn(record)`, before its `finally` block: in `record.close()` if the
      admission was closed, else in `super()._do_return_conn(record)` -/
  | returning (record : Record) (closed : Bool)
  /-- `_acquire_record` raised -/
  | failed (e : Exc)
  /-- `_do_return_conn` is over -/
  | returned
deriving DecidableEq, Repr

/-- One acquisition.  `expired` and `cancelRequested` tell apart the two sources of a
    cancellation that `asyncio.timeout` tells apart. -/
structure Task where
  phase : Phase
  mustCancel : Bool
  expired : Bool
  cancelRequested : Bool
deriving DecidableEq, Repr

def Task.start (phase : Phase) : Task := ⟨phase, false, false, false⟩

structure Pool where
  admission : Admission
  /-- `_leased` -/
  leased : Finset Record
  /-- acquisitions in order of arrival -/
  tasks : List Task

/-- `BoundedAsyncPool(…)` -/
def Pool.new (size queueLimit : Nat) : Pool where
  admission := .new size queueLimit
  leased := ∅
  tasks := []

inductive Event where
  /-- a new call of `_acquire_record` runs up to its first suspension -/
  | acquire
  /-- `task.cancel()` from outside -/
  | cancel (task : Nat)
  /-- the timer of `asyncio.timeout` fires -/
  | expire (task : Nat)
  /-- the task continues behind `await waiter` -/
  | resume (task : Nat)
  /-- `super()._do_get` delivers a record -/
  | created (task : Nat) (record : Record)
  /-- `super()._do_get` raises -/
  | createFailed (task : Nat) (e : Exc)
  /-- `record.close` of a record delivered too late returns or raises -/
  | recordClosed (task : Nat) (raised : Option Exc)
  /-- SQLAlchemy calls `_do_return_conn` with the task's record -/
  | giveBack (task : Nat)
  /-- the `finally` block of `_do_return_conn` -/
  | givenBack (task : Nat)
  | dispose
deriving DecidableEq, Repr

namespace Pool

def phase? (p : Pool) (i : Nat) : Option Phase := p.tasks[i]?.map Task.phase

def setTask (p : Pool) (i : Nat) (t : Task) : Pool := { p with tasks := p.tasks.set i t }

-- ============================================================================
-- Functions of the source
-- ============================================================================

/-- `self.admission.release()`, for the permit of task `i`. -/
def release (p : Pool) (i : Nat) : Pool := { p with admission := p.admission.release i }

/-- `asyncio.timeout` on the way out: a cancellation of its own becomes `TimeoutError`. -/
def leaveTimeout (t : Task) (e : Exc) : Exc :=
  if e = .cancelled ∧ t.expired ∧ ¬ t.cancelRequested then .timeout else e

/-- What the `except` clauses of `_acquire_record` raise. -/
def reraised (e : Exc) : Exc :=
  if e = .timeout then .unavailable (databaseUnavailable "DB_POOL_ACQUIRE_TIMEOUT") else e

/-- The `except` clauses of `_acquire_record`: both release what was acquired. -/
def acquisitionFailed (p : Pool) (i : Nat) (t : Task) (acquired : Bool) (e : Exc) : Pool :=
  let p := if acquired then p.release i else p
  p.setTask i { t with phase := .failed (reraised (leaveTimeout t e)) }

/-- `_acquire_record` up to its first suspension. -/
def acquireRecord (p : Pool) : Pool :=
  let i := p.tasks.length
  match p.admission.acquire i with
  | (.granted, a) => { p with admission := a, tasks := p.tasks ++ [.start .creating] }
  | (.suspended, a) => { p with admission := a, tasks := p.tasks ++ [.start .waiting] }
  | (.raised e, a) => { p with admission := a, tasks := p.tasks ++ [.start (.failed (reraised e))] }

/-- `Task.cancel` of a task at one of its awaits: the awaited future is cancelled, or the
    cancellation waits for the task to continue.  Inside SQLAlchemy it surfaces as an exception
    of `super()._do_get` or `record.close`. -/
def deliverCancel (p : Pool) (i : Nat) (t : Task) : Option Pool :=
  match t.phase with
  | .waiting =>
      if p.admission.future i = .pending then
        some { p.setTask i t with admission := p.admission.setFuture i .cancelled }
      else some (p.setTask i { t with mustCancel := true })
  | .creating => some (p.setTask i t)
  | .closing _ => some (p.setTask i t)
  | _ => none

/-- `_acquire_record` from `await waiter` to the next suspension. -/
def resume (p : Pool) (i : Nat) (t : Task) : Option Pool :=
  (Admission.awaited (p.admission.future i) t.mustCancel).map fun
    | .ok () => p.setTask i { t with phase := .creating }
    | .error e =>
        -- `acquired` is still false: the permit is given back inside `acquire`, if at all.
        { p with admission := p.admission.acquireFailed i }.acquisitionFailed i t false e

/-- `_acquire_record` from the delivery of a record on. -/
def recordCreated (p : Pool) (i : Nat) (t : Task) (r : Record) : Pool :=
  if p.admission.closed then p.setTask i { t with phase := .closing r }
  else { p.setTask i { t with phase := .leased r } with leased := insert r p.leased }

/-- The exception that leaves the block after `record.close`. -/
def closedError : Option Exc → Exc
  | some e => e
  | none => .unavailable (databaseUnavailable "DB_POOL_CLOSED")

/-- The `finally` block of `_do_return_conn`. -/
def finallyReturn (p : Pool) (i : Nat) (r : Record) : Pool :=
  if r ∈ p.leased then { p with leased := p.leased.erase r }.release i else p

/-- `dispose` -/
def dispose (p : Pool) : Pool := { p with admission := p.admission.close }

-- ============================================================================
-- Steps
-- ============================================================================

/-- The records that SQLAlchemy has delivered and not taken back. -/
def outstanding (p : Pool) (r : Record) : Bool :=
  p.tasks.any fun t =>
    t.phase = .closing r ∨ t.phase = .leased r ∨ t.phase = .returning r true ∨
      t.phase = .returning r false

def next (p : Pool) : Event → Option Pool
  | .acquire => some p.acquireRecord
  | .cancel i =>
      p.tasks[i]?.bind fun t => p.deliverCancel i { t with cancelRequested := true }
  | .expire i =>
      p.tasks[i]?.bind fun t =>
        if t.expired then none else p.deliverCancel i { t with expired := true }
  | .resume i =>
      p.tasks[i]?.bind fun t => if t.phase = .waiting then p.resume i t else none
  | .created i r =>
      p.tasks[i]?.bind fun t =>
        -- SQLAlchemy delivers a record to one holder at a time.
        if t.phase = .creating ∧ ¬ p.outstanding r then some (p.recordCreated i t r) else none
  | .createFailed i e =>
      p.tasks[i]?.bind fun t =>
        if t.phase = .creating then some (p.acquisitionFailed i t true e) else none
  | .recordClosed i raised =>
      p.tasks[i]?.bind fun t =>
        match t.phase with
        | .closing _ => some (p.acquisitionFailed i t true (closedError raised))
        | _ => none
  | .giveBack i =>
      p.tasks[i]?.bind fun t =>
        match t.phase with
        | .leased r => some (p.setTask i { t with phase := .returning r p.admission.closed })
        | _ => none
  | .givenBack i =>
      p.tasks[i]?.bind fun t =>
        match t.phase with
        | .returning r _ => some ((p.finallyReturn i r).setTask i { t with phase := .returned })
        | _ => none
  | .dispose => some p.dispose

end Pool

/-- All pools of any size and queue limit. -/
def poolSystem : System Pool Event where
  init p := ∃ size queueLimit, p = .new size queueLimit
  next := Pool.next

end QuickApi.DatabasePool
