/-
  QuickApi.Readiness.Service

  The readiness of the database (`DatabaseReadiness` in
  `app/common/handlers/database_readiness.py`), its coroutines cut at their
  awaits: the tasks of `_probe`, and the calls of `check` and `stop`.  Tasks
  and calls are named by their place in the order of creation.
-/

import Mathlib.Data.Rat.Defs
import QuickApi.Lib.Transition

namespace QuickApi.Readiness

open QuickApi.Lib

-- ============================================================================
-- State
-- ============================================================================

/-- How a task of `_probe` ends: it returns, or it is cancelled. -/
inductive Outcome where
  | returned (healthy : Bool)
  | cancelled
deriving DecidableEq, Repr

inductive Phase where
  | running
  /-- done, its callback `_finished` still to come -/
  | ended (r : Outcome)
  /-- `_finished` ran at the time `time` -/
  | settled (r : Outcome) (time : ℚ)
deriving DecidableEq, Repr

def Phase.outcome : Phase → Option Outcome
  | .running => none
  | .ended r => some r
  | .settled r _ => some r

/-- A task of `_probe`. -/
structure Probe where
  phase : Phase
  /-- `task.cancel()` was called -/
  cancelRequested : Bool
  /-- ghost: the task ended after a call of `stop`, before the next `resume` -/
  late : Bool
deriving DecidableEq, Repr

/-- `task.cancel()`; of a task that is done it does nothing -/
def cancel (probes : List Probe) (p : Nat) : List Probe :=
  probes.modify p fun probe =>
    if probe.phase = .running then { probe with cancelRequested := true } else probe

/-- A call of `check`. -/
inductive CheckCall where
  /-- at `await asyncio.shield(task)` -/
  | waiting (p : Nat)
  | returned (healthy : Bool)
  | cancelled
deriving DecidableEq, Repr

/-- What a call of `check` makes of the probe that it awaits. -/
def Outcome.answer : Outcome → CheckCall
  | .returned healthy => .returned healthy
  | .cancelled => .cancelled

/-- A call of `stop`. -/
inductive StopCall where
  /-- at `await task` -/
  | awaiting (p : Nat)
  /-- returned, with the task that it found -/
  | returned (found : Option Nat)
deriving DecidableEq, Repr

/-- `self._cached` -/
structure Cached where
  healthy : Bool
  expires : ℚ
  /-- ghost: the probe whose callback stored it -/
  probe : Nat
deriving DecidableEq, Repr

structure DatabaseReadiness where
  stopped : Bool
  active : Option Nat
  cached : Option Cached
  /-- `time.monotonic()` -/
  now : ℚ
  probes : List Probe
  checks : List CheckCall
  stops : List StopCall

namespace DatabaseReadiness

/-- `DatabaseReadiness(engine)` at the time `now` -/
def new (now : ℚ) : DatabaseReadiness where
  stopped := true
  active := none
  cached := none
  now := now
  probes := []
  checks := []
  stops := []

variable (s : DatabaseReadiness)

def phase (p : Nat) : Option Phase := s.probes[p]?.map Probe.phase

/-- `task.done()`, with the outcome. -/
def outcome (p : Nat) : Option Outcome := (s.phase p).bind Phase.outcome

/-- Some task of `_probe` is not done. -/
def anyRunning : Bool := s.probes.any fun probe => probe.phase = .running

-- ============================================================================
-- resume, check, _finished, stop
-- ============================================================================

def resume : DatabaseReadiness := { s with stopped := false, cached := none }

/-- `check` from `asyncio.create_task` to `await asyncio.shield(task)`. -/
def launch : DatabaseReadiness :=
  { s with
    active := some s.probes.length
    probes := s.probes ++ [⟨.running, false, false⟩]
    checks := s.checks ++ [.waiting s.probes.length] }

/-- `check` up to its first suspension; `shield` of a task that is done does not suspend. -/
def check : DatabaseReadiness :=
  if s.stopped then { s with checks := s.checks ++ [.returned false] }
  else
    match s.active with
    | some p =>
        match s.outcome p with
        | some r => { s with checks := s.checks ++ [r.answer] }
        | none => { s with checks := s.checks ++ [.waiting p] }
    | none =>
        match s.cached with
        | some cached =>
            if s.now < cached.expires then
              { s with checks := s.checks ++ [.returned cached.healthy] }
            else s.launch
        | none => s.launch

/-- `_finished(task)` -/
def finished (cache : ℚ) (p : Nat) (probe : Probe) (r : Outcome) : DatabaseReadiness :=
  { s with
    active := if s.active = some p then none else s.active
    cached :=
      match r with
      | .returned healthy => if s.stopped then s.cached else some ⟨healthy, s.now + cache, p⟩
      | .cancelled => s.cached
    probes := s.probes.set p { probe with phase := .settled r s.now } }

/-- `stop` up to its first suspension; a task that is done is not awaited. -/
def stop : DatabaseReadiness :=
  let s := { s with stopped := true, cached := none }
  match s.active with
  | none => { s with stops := s.stops ++ [.returned none] }
  | some p =>
      match s.outcome p with
      | some _ => { s with active := none, stops := s.stops ++ [.returned (some p)] }
      | none => { s with probes := cancel s.probes p, stops := s.stops ++ [.awaiting p] }

end DatabaseReadiness

-- ============================================================================
-- Runs
-- ============================================================================

inductive Event where
  /-- `check`, `stop` and `resume` are called -/
  | check
  | stop
  | resume
  /-- the call `c` of `check` continues behind `shield`; it is cancelled there -/
  | checkResumes (c : Nat)
  | checkCancelled (c : Nat)
  /-- the call `i` of `stop` continues behind `await task`; it is cancelled there -/
  | stopResumes (i : Nat)
  | stopCancelled (i : Nat)
  /-- the probe `p` ends; its callback runs -/
  | probeEnds (p : Nat) (r : Outcome)
  | finished (p : Nat)
  /-- time passes -/
  | tick (d : ℚ)
deriving DecidableEq, Repr

namespace DatabaseReadiness

/-- What an event leads to where it can happen. `resume` is called while the service is stopped
    and no probe is active. The callbacks of a task run in the order in which they were
    added, `_finished` before those of the calls that wait for it. -/
def next (cache : ℚ) (s : DatabaseReadiness) : Event → Option DatabaseReadiness
  | .check => some s.check
  | .stop => some s.stop
  | .resume => if s.stopped ∧ s.anyRunning = false then some s.resume else none
  | .checkResumes c =>
      match s.checks[c]? with
      | some (.waiting p) =>
          match s.phase p with
          | some (.settled r _) => some { s with checks := s.checks.set c r.answer }
          | _ => none
      | _ => none
  | .checkCancelled c =>
      match s.checks[c]? with
      | some (.waiting _) => some { s with checks := s.checks.set c .cancelled }
      | _ => none
  | .stopResumes i =>
      match s.stops[i]? with
      | some (.awaiting p) =>
          match s.phase p with
          | some (.settled _ _) =>
              some { s with active := none, stops := s.stops.set i (.returned (some p)) }
          | _ => none
      | _ => none
  | .stopCancelled i =>
      match s.stops[i]? with
      -- the task that is awaited is cancelled, and `stop` goes on when it is done
      | some (.awaiting p) => some { s with probes := cancel s.probes p }
      | _ => none
  | .probeEnds p r =>
      match s.probes[p]? with
      | some probe =>
          if probe.phase = .running then
            some { s with probes := s.probes.set p { probe with phase := .ended r, late := s.stopped } }
          else none
      | none => none
  | .finished p =>
      match s.probes[p]? with
      | some probe =>
          match probe.phase with
          | .ended r => some (s.finished cache p probe r)
          | _ => none
      | none => none
  | .tick d => if 0 ≤ d then some { s with now := s.now + d } else none

end DatabaseReadiness

/-- Every run of one service that keeps results for `cache` seconds. -/
def readinessSystem (cache : ℚ) : System DatabaseReadiness Event where
  init s := ∃ now, s = .new now
  next := DatabaseReadiness.next cache

end QuickApi.Readiness
