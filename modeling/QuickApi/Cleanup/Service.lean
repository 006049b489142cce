/-
  QuickApi.Cleanup.Service

  The cleanup of expired responses (`IdempotencyCleanupService` in
  `app/common/services/idempotency_cleanup_service.py`), its coroutines cut at
  their awaits: the timer tasks of `_run`, the calls of `sweep` and `stop`, and
  the tasks of `_sweep`, here called passes.  Tasks and calls are named by
  their place in the order of creation.
-/

import QuickApi.Lib.Transition

namespace QuickApi.Cleanup

open QuickApi.Lib

-- ============================================================================
-- State
-- ============================================================================

inductive Exc where
  | cancelled
  | failed (name : String)
deriving DecidableEq, Repr

/-- A task of `_sweep`. -/
inductive Pass where
  /-- created, its first step still to come -/
  | created
  /-- in a batch, with the `count` before it and the batches that may follow it -/
  | purging (count left : Nat)
  | done (r : Except Exc Nat)

/-- `task.result()` of a task that is done. -/
def Pass.outcome : Pass → Option (Except Exc Nat)
  | .done r => some r
  | _ => none

/-- A task of `_run`. -/
inductive Timer where
  /-- created, its first step still to come -/
  | created
  /-- at `asyncio.wait_for(self._stop.wait(), …)`; `_stop` was set since it began -/
  | waiting (woken : Bool)
  /-- at `await self.sweep()` -/
  | sweeping
  | ended (cancelled : Bool)
deriving DecidableEq, Repr

inductive Caller where
  | task
  | timer (k : Nat)
deriving DecidableEq, Repr

/-- A call of `sweep`. -/
structure SweepCall where
  caller : Caller
  /-- `pending`; `none` if the call returned 0 without a pass -/
  pass : Option Nat
  /-- what it returned or raised; `none` at `await asyncio.shield(pending)` -/
  result : Option (Except Exc Nat)
  /-- ghost: `self._accepting` when the call was made -/
  accepting : Bool
  /-- ghost: the pass was done when the call was made -/
  stale : Bool
  /-- ghost: the pass was done when the call was left -/
  settled : Bool

/-- A call of `stop`. -/
inductive StopCall where
  | awaitingTimer (k : Nat)
  | awaitingPending (p : Nat)
  | returned
  | raised (e : Exc)
deriving DecidableEq, Repr

def StopCall.inProgress : StopCall → Bool
  | .awaitingTimer _ => true
  | .awaitingPending _ => true
  | _ => false

structure CleanupSettings where
  /-- `IDEMPOTENCY_CLEANUP_BATCH_SIZE` -/
  batchSize : Nat
  /-- `IDEMPOTENCY_CLEANUP_MAX_BATCHES` -/
  maxBatches : Nat

structure Service where
  accepting : Bool
  /-- `self._stop.is_set()` -/
  stopSet : Bool
  timer : Option Nat
  pending : Option Nat
  timers : List Timer
  passes : List Pass
  calls : List SweepCall
  stops : List StopCall
  /-- ghost: the number of batches begun -/
  batches : Nat

namespace Service

/-- `IdempotencyCleanupService()` -/
def new : Service where
  accepting := false
  stopSet := false
  timer := none
  pending := none
  timers := []
  passes := []
  calls := []
  stops := []
  batches := 0

variable (s : Service)

/-- The outcome of a pass that is done. -/
def outcome (p : Nat) : Option (Except Exc Nat) := s.passes[p]?.bind Pass.outcome

-- ============================================================================
-- start, quiesce
-- ============================================================================

def start : Service :=
  if s.accepting then s
  else
    { s with
      accepting := true
      stopSet := false
      timer := some s.timers.length
      timers := s.timers ++ [.created] }

/-- `Event.set` wakes every waiter. -/
def wake : Timer → Timer
  | .waiting _ => .waiting true
  | t => t

def quiesce : Service :=
  { s with accepting := false, stopSet := true, timers := s.timers.map wake }

-- ============================================================================
-- sweep
-- ============================================================================

/-- The `finally` block of `sweep`. -/
def release (p : Nat) : Service :=
  if (s.outcome p).isSome ∧ s.pending = some p then { s with pending := none } else s

/-- `sweep` up to its first suspension: what it returns or raises, if it does not suspend.
    `shield` of a task that is done does not. -/
def sweep (caller : Caller) : Option (Except Exc Nat) × Service :=
  match s.pending with
  | none =>
      if s.accepting then
        let p := s.passes.length
        (none,
          { s with
            pending := some p
            passes := s.passes ++ [.created]
            calls := s.calls ++ [⟨caller, some p, none, true, false, false⟩] })
      else
        (some (.ok 0),
          { s with calls := s.calls ++ [⟨caller, none, some (.ok 0), false, false, false⟩] })
  | some p =>
      match s.outcome p with
      | none =>
          (none, { s with calls := s.calls ++ [⟨caller, some p, none, s.accepting, false, false⟩] })
      | some r =>
          (some r,
            release
              { s with calls := s.calls ++ [⟨caller, some p, some r, s.accepting, true, true⟩] } p)

-- ============================================================================
-- _run
-- ============================================================================

/-- `while self._accepting` up to the next suspension. -/
def runTimer (k : Nat) : Service :=
  { s with
    timers := s.timers.set k (if s.accepting then .waiting s.stopSet else .ended false) }

/-- `_run` behind `await self.sweep()`; an `Exception` is logged. -/
def timerSwept (k : Nat) : Except Exc Nat → Service
  | .error .cancelled => { s with timers := s.timers.set k (.ended true) }
  | _ => s.runTimer k

/-- The `except TimeoutError` block of `_run`. -/
def timerSweeps (k : Nat) : Service :=
  match s.sweep (.timer k) with
  | (none, s) => { s with timers := s.timers.set k .sweeping }
  | (some r, s) => s.timerSwept k r

/-- `sweep` from `await asyncio.shield(pending)`, which returns or raises `r`, to its end, and
    its caller where that is a timer. -/
def leave (c : Nat) (call : SweepCall) (p : Nat) (r : Except Exc Nat) : Service :=
  let call' := { call with result := some r, settled := (s.outcome p).isSome }
  let s := release { s with calls := s.calls.set c call' } p
  match call.caller with
  | .task => s
  | .timer k => s.timerSwept k r

/-- The call `c` at its await, with the pass it awaits. -/
def awaited (c : Nat) : Option (SweepCall × Nat) :=
  match s.calls[c]? with
  | some call => if call.result.isNone then call.pass.map (call, ·) else none
  | none => none

-- ============================================================================
-- _sweep
-- ============================================================================

/-- The `for` loop of `_sweep` up to its next batch, with the rows removed so far and the
    number of batches left. -/
def advance (p count left : Nat) : Service :=
  match left with
  | 0 => { s with passes := s.passes.set p (.done (.ok count)) }
  | left + 1 =>
      if s.accepting then
        { s with passes := s.passes.set p (.purging count left), batches := s.batches + 1 }
      else { s with passes := s.passes.set p (.done (.ok count)) }

/-- The loop body behind a batch that removed `removed` rows. -/
def batchReturned (settings : CleanupSettings) (p count left removed : Nat) : Service :=
  let count := count + removed
  if removed < settings.batchSize then { s with passes := s.passes.set p (.done (.ok count)) }
  else s.advance p count left

-- ============================================================================
-- stop
-- ============================================================================

/-- `stop` from `if self._pending is not None` on. -/
def stopPending : StopCall :=
  match s.pending with
  | none => .returned
  | some p =>
      match s.outcome p with
      | none => .awaitingPending p
      | some (.ok _) => .returned
      | some (.error e) => .raised e

/-- `stop` behind `await self._timer` of a timer that has ended. -/
def stopBehindTimer (cancelled : Bool) : StopCall × Service :=
  if cancelled then (.raised .cancelled, s) else (s.stopPending, { s with timer := none })

/-- A timer that has ended, and whether by cancellation. -/
def timerEnded (k : Nat) : Option Bool :=
  match s.timers[k]? with
  | some (.ended cancelled) => some cancelled
  | _ => none

/-- `stop` up to its first suspension. -/
def stop : Service :=
  let s := s.quiesce
  let (call, s) :=
    match s.timer with
    | none => (s.stopPending, s)
    | some k =>
        match s.timerEnded k with
        | none => (.awaitingTimer k, s)
        | some cancelled => s.stopBehindTimer cancelled
  { s with stops := s.stops ++ [call] }

end Service

-- ============================================================================
-- Runs
-- ============================================================================

inductive Event where
  /-- `start`, `quiesce`, `stop` and `sweep` are called -/
  | start
  | quiesce
  | stop
  | sweep
  /-- the call `i` of `stop` continues behind its await -/
  | stopTimerDone (i : Nat)
  | stopPendingDone (i : Nat)
  /-- the call `c` of `sweep` continues behind `shield`; it is cancelled there -/
  | callResumes (c : Nat)
  | callCancelled (c : Nat)
  /-- the pass `p` takes its first step; its batch returns, raises -/
  | passBegins (p : Nat)
  | batchReturned (p removed : Nat)
  | batchFailed (p : Nat) (e : Exc)
  /-- the timer `k` takes its first step; `wait_for` raises `TimeoutError`, returns, is
      cancelled -/
  | timerBegins (k : Nat)
  | timerFires (k : Nat)
  | timerWoken (k : Nat)
  | timerCancelled (k : Nat)
deriving DecidableEq, Repr

namespace Service

/-- What an event leads to where it can happen; the owner of the service does not start it
    while it stops it. -/
def next (settings : CleanupSettings) (s : Service) : Event → Option Service
  | .start => if s.stops.any StopCall.inProgress then none else some s.start
  | .quiesce => some s.quiesce
  | .stop => some s.stop
  | .sweep => some (s.sweep .task).2
  | .stopTimerDone i =>
      match s.stops[i]? with
      | some (.awaitingTimer k) =>
          (s.timerEnded k).map fun cancelled =>
            let (call, s) := s.stopBehindTimer cancelled
            { s with stops := s.stops.set i call }
      | _ => none
  | .stopPendingDone i =>
      match s.stops[i]? with
      | some (.awaitingPending p) =>
          (s.outcome p).map fun
            | .ok _ => { s with stops := s.stops.set i .returned }
            | .error e => { s with stops := s.stops.set i (.raised e) }
      | _ => none
  | .callResumes c =>
      match s.awaited c with
      | some (call, p) => (s.outcome p).map (s.leave c call p)
      | none => none
  | .callCancelled c =>
      match s.awaited c with
      | some (call, p) => some (s.leave c call p (.error .cancelled))
      | none => none
  | .passBegins p =>
      match s.passes[p]? with
      | some .created => some (s.advance p 0 settings.maxBatches)
      | _ => none
  | .batchReturned p removed =>
      match s.passes[p]? with
      | some (.purging count left) => some (s.batchReturned settings p count left removed)
      | _ => none
  | .batchFailed p e =>
      match s.passes[p]? with
      | some (.purging _ _) => some { s with passes := s.passes.set p (.done (.error e)) }
      | _ => none
  | .timerBegins k =>
      match s.timers[k]? with
      | some .created => some (s.runTimer k)
      | _ => none
  | .timerFires k =>
      match s.timers[k]? with
      | some (.waiting _) => some (s.timerSweeps k)
      | _ => none
  | .timerWoken k =>
      match s.timers[k]? with
      | some (.waiting true) => some (s.runTimer k)
      | _ => none
  | .timerCancelled k =>
      match s.timers[k]? with
      | some .created => some { s with timers := s.timers.set k (.ended true) }
      | some (.waiting _) => some { s with timers := s.timers.set k (.ended true) }
      | _ => none

end Service

/-- Every run of one service. -/
def cleanupSystem (settings : CleanupSettings) : System Service Event where
  init s := s = .new
  next := Service.next settings

end QuickApi.Cleanup
