/-
  QuickApi.Lifecycle.Process

  One server process: requests and their work tasks, the lifespan of the
  application (`lifespan` in `app/config/application.py`) cut at its awaits,
  and stops that may come at any point
  (`ApplicationServer._begin_shutdown` in `app/common/handlers/http_server.py`).

  An admitted request and the work task it forwards to are tracked in one step:
  nothing suspends between `RequestAdmission` and `track_work`.
-/

import QuickApi.Lib.Transition
import QuickApi.Lifecycle.Handler
import QuickApi.Lifecycle.Work

namespace QuickApi.Lifecycle

open QuickApi.Lib

-- ============================================================================
-- State
-- ============================================================================

inductive TaskKind where
  /-- runs `RequestAdmission` -/
  | request
  /-- the work task of the timeout middleware -/
  | work
deriving DecidableEq, Repr

structure Task where
  kind : TaskKind
  /-- a request inside `RequestAdmission` -/
  inAdmission : Bool
  done : Bool
deriving DecidableEq, Repr

/-- `drain` at its awaits. -/
inductive Drain where
  /-- at `asyncio.wait`, with the time its timeout ends -/
  | waiting (pending : List Nat) (due : ℚ)
  /-- at `asyncio.gather` -/
  | gathering (unfinished : List Nat)
deriving DecidableEq, Repr

inductive Lifespan where
  /-- not begun, or over -/
  | idle
  /-- behind `request_work.resume()` -/
  | resumed
  /-- in `lifecycle.startup()`, with the services still to start -/
  | starting (rest : List LifecycleService)
  /-- in the rollback of a failed startup -/
  | rollingBack
  /-- at `yield` -/
  | serving
  /-- in front of the `finally` block; the flag is `runtime_failed` -/
  | leaving (failed : Bool)
  /-- at `await request_work.drain()` -/
  | draining (d : Drain)
  /-- behind it -/
  | drained
  /-- in `_stop_started_services` of `lifecycle.shutdown()` -/
  | stopping
deriving DecidableEq, Repr

structure Process where
  handler : LifecycleHandler
  work : RequestWork
  tasks : List Task
  lifespan : Lifespan
  /-- the `drain` of the server's `_wait_tasks_to_complete` -/
  serverDrain : Option Drain
  /-- `time.monotonic()` -/
  now : ℚ
  /-- ghost: a stop came, and no shutdown has completed since -/
  stopRequested : Bool
  /-- ghost: the tasks that a drain has cancelled since the last `resume` -/
  drainCancelled : List Nat

namespace Process

variable (p : Process)

/-- `task.done()` -/
def done (i : Nat) : Bool :=
  match p.tasks[i]? with
  | some t => t.done
  | none => true

def addTask (t : Task) : Process :=
  { p with tasks := p.tasks ++ [t], work := p.work.track p.tasks.length }

-- ============================================================================
-- Requests
-- ============================================================================

/-- An HTTP request arrives; `forwarded` says whether it gets as far as `track_work`. -/
def arrive (forwarded : Bool) : Process :=
  match p.work.reject with
  | some _ => p
  | none =>
      let p := p.addTask ⟨.request, true, false⟩
      if forwarded then p.addTask ⟨.work, false, false⟩ else p

/-- The `finally` block of `RequestAdmission`. -/
def leaveAdmission (i : Nat) : Option Process :=
  match p.tasks[i]? with
  | some t =>
      if t.inAdmission then
        some { p with
          tasks := p.tasks.set i { t with inAdmission := false }
          work := p.work.discard i }
      else none
  | none => none

/-- A task ends; a request has left `RequestAdmission` by then. -/
def finish (i : Nat) : Option Process :=
  match p.tasks[i]? with
  | some t =>
      if t.done ∨ t.inAdmission then none
      else some { p with tasks := p.tasks.set i { t with done := true } }
  | none => none

-- ============================================================================
-- Stops and drains
-- ============================================================================

/-- `_begin_shutdown` of a loaded application. -/
def beginShutdown (b : Behaviour) : Process :=
  { p with
    handler := p.handler.quiesce b
    work := p.work.quiesce p.now
    stopRequested := true }

/-- The head of the loop of `drain`; `none` where `drain` returns. -/
def drainLoop : Option Drain :=
  match p.work.pending p.done with
  | [] => none
  | i :: rest => some (.waiting (i :: rest) (p.now + p.work.remaining p.now))

/-- `drain` behind an await; `none` while the await has not returned. -/
def wake : Drain → Option (Process × Option Drain)
  | .waiting pending due =>
      match pending.filter fun i => !p.done i with
      | [] => some (p, p.drainLoop)
      | i :: rest =>
          if due ≤ p.now then
            some ({ p with
              work := { p.work with failed := true }
              drainCancelled := p.drainCancelled ++ (i :: rest) }, some (.gathering (i :: rest)))
          else none
  | .gathering unfinished =>
      if unfinished.all p.done then some (p, none) else none

/-- Where the lifespan is when its `drain` has got as far as `d`. -/
def Lifespan.afterDrain : Option Drain → Lifespan
  | none => .drained
  | some d => .draining d

/-- The `finally` block of the lifespan up to the first await in `drain`. -/
def beginDrain (b : Behaviour) (failed : Bool) : Process :=
  let handler := { p.handler with
    shutdownFailed := if failed then true else p.handler.shutdownFailed }
  let p := { p with handler := handler.quiesce b, work := p.work.quiesce p.now }
  { p with lifespan := Lifespan.afterDrain p.drainLoop }

end Process

-- ============================================================================
-- Steps
-- ============================================================================

inductive Event where
  /-- `time.monotonic()` reads `t` from now on -/
  | tick (t : ℚ)
  | stop (b : Behaviour)
  | arrive (forwarded : Bool)
  | leaveAdmission (i : Nat)
  | finish (i : Nat)
  /-- the done callback of a task -/
  | discard (i : Nat)
  /-- `request_work.resume()` -/
  | resume
  /-- `lifecycle.startup()` begins -/
  | startup
  /-- `await svc.start()` returns, raises, is cancelled -/
  | serviceStart (ok : Bool)
  | startCancelled
  | startupDone
  /-- a round of the rollback, or its end -/
  | rollback (b : Behaviour)
  /-- the `yield` returns or raises -/
  | leave (failed : Bool)
  | beginDrain (b : Behaviour)
  | drainWake
  /-- `lifecycle.shutdown()` begins -/
  | shutdown (b : Behaviour)
  /-- a round of the stops, or their end -/
  | stopService (b : Behaviour)
  | serverDrain
  | serverWake
  /-- the server's timeout or a cancellation ends its wait -/
  | serverGivesUp

namespace Process

/-- What an event leads to where it can happen. -/
def next (p : Process) : Event → Option Process
  | .tick t => if p.now ≤ t then some { p with now := t } else none
  | .stop b => some (p.beginShutdown b)
  | .arrive forwarded => some (p.arrive forwarded)
  | .leaveAdmission i => p.leaveAdmission i
  | .finish i => p.finish i
  | .discard i => if p.done i then some { p with work := p.work.discard i } else none
  | .resume =>
      match p.lifespan with
      | .idle =>
          match p.work.resume p.done with
          | some work => some { p with work, drainCancelled := [], lifespan := .resumed }
          | none => some { p with lifespan := .leaving true }
      | _ => none
  | .startup =>
      match p.lifespan with
      | .resumed =>
          if p.handler.startupStarted then some { p with lifespan := .serving }
          else
            some { p with
              handler := p.handler.beginStartup
              lifespan := .starting p.handler.services }
      | _ => none
  | .serviceStart ok =>
      match p.lifespan with
      | .starting (s :: rest) =>
          if ok then
            some { p with handler := p.handler.serviceStarted s, lifespan := .starting rest }
          else some { p with handler := p.handler.serviceFailed s, lifespan := .rollingBack }
      | _ => none
  | .startCancelled =>
      match p.lifespan with
      | .starting (_ :: _) => some { p with lifespan := .leaving false }
      | _ => none
  | .startupDone =>
      match p.lifespan with
      | .starting [] =>
          some { p with
            handler := { p.handler with startupCompleted := true }
            lifespan := .serving }
      | _ => none
  | .rollback b =>
      match p.lifespan, p.handler.startedServices.getLast? with
      | .rollingBack, some s => some { p with handler := p.handler.stopService b s }
      | .rollingBack, none =>
          some { p with
            handler := { p.handler with startupStarted := false }
            lifespan := .leaving true }
      | _, _ => none
  | .leave failed =>
      match p.lifespan with
      | .serving => some { p with lifespan := .leaving failed }
      | _ => none
  | .beginDrain b =>
      match p.lifespan with
      | .leaving failed => some (p.beginDrain b failed)
      | _ => none
  | .drainWake =>
      match p.lifespan with
      | .draining d =>
          (p.wake d).map fun r => { r.1 with lifespan := Lifespan.afterDrain r.2 }
      | _ => none
  | .shutdown b =>
      match p.lifespan with
      | .drained =>
          if p.handler.shutdownStarted then some { p with lifespan := .idle }
          else some { p with handler := p.handler.beginShutdown b, lifespan := .stopping }
      | _ => none
  | .stopService b =>
      match p.lifespan, p.handler.startedServices.getLast? with
      | .stopping, some s => some { p with handler := p.handler.stopService b s }
      | .stopping, none =>
          some { p with
            handler := { p.handler with startupStarted := false, startupCompleted := false }
            lifespan := .idle
            stopRequested := false }
      | _, _ => none
  | .serverDrain =>
      let p := { p with work := p.work.quiesce p.now }
      some { p with serverDrain := p.drainLoop }
  | .serverWake =>
      match p.serverDrain with
      | some d => (p.wake d).map fun r => { r.1 with serverDrain := r.2 }
      | none => none
  | .serverGivesUp =>
      match p.serverDrain with
      | some _ => some { p with work := { p.work with failed := true }, serverDrain := none }
      | none => none

/-- `create_app()`: the services are registered, nothing has run. -/
def created (services : List LifecycleService) (drainSeconds now : ℚ) : Process where
  handler := LifecycleHandler.new.register services
  work := .new drainSeconds
  tasks := []
  lifespan := .idle
  serverDrain := none
  now := now
  stopRequested := false
  drainCancelled := []

end Process

/-- Every process. -/
def processSystem : System Process Event where
  init p := ∃ services drainSeconds now, p = .created services drainSeconds now
  next := Process.next

end QuickApi.Lifecycle
