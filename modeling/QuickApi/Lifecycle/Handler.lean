/-
  QuickApi.Lifecycle.Handler

  The owner of the services (`LifecycleHandler` in
  `app/common/handlers/lifecycle_handler.py`): registration, startup with
  rollback, quiesce and shutdown.  What each service does when it is called is
  an argument of the call; the log of these calls is ghost state.
-/

import Mathlib.Data.List.Basic

namespace QuickApi.Lifecycle

/-- A `LifecycleService`: the object, its name, and whether it has a `quiesce` to call. -/
structure LifecycleService where
  object : Nat
  name : String
  canQuiesce : Bool
deriving DecidableEq, Repr

/-- A call of a service; `ok` is false if it raised an `Exception`. -/
inductive Invocation where
  | start (s : LifecycleService) (ok : Bool)
  | stop (s : LifecycleService) (ok : Bool)
  | quiesce (s : LifecycleService) (ok : Bool)
deriving DecidableEq, Repr

/-- Which services return from a call during one call of the handler; a call of the handler
    starts, stops and quiesces each service at most once. -/
structure Behaviour where
  starts : LifecycleService → Bool
  stops : LifecycleService → Bool
  quiesces : LifecycleService → Bool

structure LifecycleHandler where
  services : List LifecycleService
  serviceNames : List String
  startedServices : List LifecycleService
  startupStarted : Bool
  startupCompleted : Bool
  shutdownStarted : Bool
  quiescing : Bool
  shutdownFailed : Bool
  /-- ghost: the calls of services so far -/
  log : List Invocation
deriving DecidableEq, Repr

namespace LifecycleHandler

/-- `LifecycleHandler()` -/
def new : LifecycleHandler where
  services := []
  serviceNames := []
  startedServices := []
  startupStarted := false
  startupCompleted := false
  shutdownStarted := false
  quiescing := false
  shutdownFailed := false
  log := []

variable (b : Behaviour) (h : LifecycleHandler)

/-- `is_alive` -/
def isAlive : Bool := !h.shutdownStarted

/-- `is_ready` -/
def isReady : Bool := h.startupCompleted && !h.shutdownStarted && !h.quiescing

-- ============================================================================
-- register
-- ============================================================================

/-- One round of the loop of `register`. -/
def registerService (s : LifecycleService) : LifecycleHandler :=
  if s.name ∈ h.serviceNames then h
  else
    { h with
      services := h.services ++ [s]
      serviceNames := s.name :: h.serviceNames }

/-- `register` -/
def register (services : List LifecycleService) : LifecycleHandler :=
  services.foldl registerService h

-- ============================================================================
-- quiesce
-- ============================================================================

/-- One round of the loop of `quiesce`. -/
def quiesceService (s : LifecycleService) : LifecycleHandler :=
  if s.canQuiesce then
    { h with
      log := h.log ++ [.quiesce s (b.quiesces s)]
      shutdownFailed := if b.quiesces s then h.shutdownFailed else true }
  else h

/-- `quiesce` -/
def quiesce : LifecycleHandler :=
  h.startedServices.foldl (quiesceService b) { h with quiescing := true }

-- ============================================================================
-- _stop_started_services
-- ============================================================================

/-- One round of the loop of `_stop_started_services`. -/
def stopService (s : LifecycleService) : LifecycleHandler :=
  { h with
    startedServices := h.startedServices.dropLast
    log := h.log ++ [.stop s (b.stops s)]
    shutdownFailed := if b.stops s then h.shutdownFailed else true }

/-- The loop of `_stop_started_services`, cut off after a number of rounds. -/
def stopRounds : Nat → LifecycleHandler → LifecycleHandler
  | 0, h => h
  | n + 1, h =>
      match h.startedServices.getLast? with
      | none => h
      | some s => stopRounds n (h.stopService b s)

/-- `_stop_started_services`: every round takes one service off the list. -/
def stopStartedServices : LifecycleHandler := stopRounds b h.startedServices.length h

-- ============================================================================
-- startup
-- ============================================================================

/-- The flags at the start of a startup that runs. -/
def beginStartup : LifecycleHandler :=
  { h with
    startupStarted := true
    quiescing := false
    shutdownFailed := false
    shutdownStarted := false
    startupCompleted := false
    startedServices := [] }

/-- `await svc.start()` returned. -/
def serviceStarted (s : LifecycleService) : LifecycleHandler :=
  { h with
    startedServices := h.startedServices ++ [s]
    log := h.log ++ [.start s true] }

/-- `await svc.start()` raised. -/
def serviceFailed (s : LifecycleService) : LifecycleHandler :=
  { h with log := h.log ++ [.start s false] }

/-- The loop of `startup`; the flag says whether every service started. -/
def startLoop : List LifecycleService → LifecycleHandler → Bool × LifecycleHandler
  | [], h => (true, h)
  | s :: rest, h =>
      if b.starts s then startLoop rest (h.serviceStarted s) else (false, h.serviceFailed s)

/-- `startup`; the flag says whether it returned rather than raised. -/
def startup : Bool × LifecycleHandler :=
  if h.startupStarted then (true, h)
  else
    match startLoop b h.services h.beginStartup with
    | (true, h) => (true, { h with startupCompleted := true })
    | (false, h) => (false, { h.stopStartedServices b with startupStarted := false })

-- ============================================================================
-- shutdown
-- ============================================================================

/-- `shutdown` up to `_stop_started_services`. -/
def beginShutdown : LifecycleHandler := { h with shutdownStarted := true }.quiesce b

/-- `shutdown` -/
def shutdown : LifecycleHandler :=
  if h.shutdownStarted then h
  else
    { (h.beginShutdown b).stopStartedServices b with
      startupStarted := false
      startupCompleted := false }

end LifecycleHandler

end QuickApi.Lifecycle
