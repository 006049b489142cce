/-
  QuickApi.Telemetry.System

  One HTTP request under `RequestOutcomeASGIMiddleware`, `observe_request` and
  `PrometheusASGIMiddleware`: the observers that enter its scope, nested in any
  way, and the messages, failures and calls that reach the observation, from
  whatever task, in any order.
-/

import QuickApi.Lib.Transition
import QuickApi.Telemetry.Observation
import QuickApi.RequestTimeout.Response

namespace QuickApi.Telemetry

open QuickApi.Lib
open QuickApi.RequestTimeout (Message)

-- ============================================================================
-- Metrics
-- ============================================================================

/-- The increments and samples of the metrics, with their labels. -/
structure Metrics where
  /-- `REQUEST_COUNT`: method, route, status -/
  requestCount : List (String × String × String)
  /-- `REQUEST_DURATION` -/
  requestDuration : List ((String × String × String) × ℚ)
  /-- `REQUEST_ABORTED`: method, route -/
  requestAborted : List (String × String)
deriving DecidableEq, Repr

def Metrics.empty : Metrics := ⟨[], [], []⟩

/-- `str(result.status)` -/
def statusText : Option Nat → String
  | some status => toString status
  | none => "None"

/-- `record` of `PrometheusASGIMiddleware` -/
def Metrics.record (m : Metrics) (result : RequestOutcome) : Metrics :=
  match result.outcome with
  | .aborted => { m with requestAborted := m.requestAborted ++ [(result.method, result.route)] }
  | .completed =>
      let labels := (result.method, result.route, statusText result.status)
      { m with
        requestCount := m.requestCount ++ [labels]
        requestDuration := m.requestDuration ++ [(labels, result.durationMs)] }

/-- `_excluded_paths` -/
def excludedPaths : List String := ["/health", "/ready", "/info", "/system", "/metrics"]

/-- A callback; those of other subscribers do not touch the metrics. -/
inductive Callback where
  | prometheus
  | other (object : Nat)
deriving DecidableEq, Repr

def Callback.call (m : Metrics) : Callback → RequestOutcome → Metrics
  | .prometheus, result => m.record result
  | .other _, _ => m

-- ============================================================================
-- Requests
-- ============================================================================

/-- What `send` and `receive` can raise, as far as the observation tells it apart. -/
inductive Failure where
  | timeoutError
  | osError
  | other
deriving DecidableEq, Repr

/-- How the observed application ends. -/
inductive Ending where
  | returned
  | raised
  | cancelled
deriving DecidableEq, Repr

inductive Event where
  /-- `time.perf_counter()` reads `t` from now on -/
  | tick (t : ℚ)
  /-- `RequestOutcomeASGIMiddleware` is called -/
  | enter
  /-- `observe_request` is called -/
  | observe (key : String) (callback : Nat)
  /-- `PrometheusASGIMiddleware` is called -/
  | prometheus
  /-- the router sets `route` and `endpoint` of the scope -/
  | routed (terminal : Terminal)
  /-- `await send(message)` returns, raises -/
  | accepted (m : Message)
  | sendFailed (e : Failure)
  /-- `await receive()` returns a body, a disconnect, raises -/
  | received
  | disconnected
  | receiveFailed (e : Failure)
  /-- `abort_request(scope)` -/
  | abort
  /-- the application under the observation ends -/
  | leave (ending : Ending)
deriving Repr

/-- A request; its observation is the entry `_KEY` of its scope. -/
structure Request (σ : Type) where
  method : String
  path : String
  incoming : σ
  routes : List BaseRoute
  terminal : Terminal
  observation : Option (RequestObservation Callback)
  metrics : Metrics
  now : ℚ
  /-- ghost: the calls of callbacks, and the results `settle` has set -/
  calls : List (String × Callback × RequestOutcome)
  settlements : List RequestOutcome
  /-- ghost: the events since there is an observation -/
  history : List Event

namespace Request

variable {σ : Type} (routeMatches : BaseRoute → σ → Match × σ) (r : Request σ)

/-- Carry out what the observation did, with the callbacks it called. -/
def withObservation
    (o : RequestObservation Callback × List (String × Callback × RequestOutcome)) : Request σ :=
  { r with
    observation := some o.1
    metrics := o.2.foldl (fun m call => call.2.1.call m call.2.2) r.metrics
    calls := r.calls ++ o.2 }

/-- `settle` of the observation of the scope. -/
def settle (outcome : Outcome) : Request σ :=
  match r.observation with
  | none => r
  | some o =>
      let route := routeTemplate routeMatches r.terminal r.incoming "" none r.routes
      let o' := o.settle r.method route r.now outcome
      { r.withObservation o' with
        settlements := match o.result with
          | none => r.settlements ++ o'.1.result.toList
          | some _ => r.settlements }

/-- The scope gets an observation unless it has one. -/
def enter : Request σ :=
  match r.observation with
  | none => { r with observation := some (.new r.now) }
  | some _ => r

/-- `observe_request`: without an observation it wraps itself in the middleware that makes one. -/
def observe (key : String) (callback : Callback) : Request σ :=
  let r := r.enter
  match r.observation with
  | none => r
  | some o => r.withObservation (o.subscribe key callback)

/-- `send_observed` behind `await send(message)`. -/
def accepted (m : Message) : Request σ :=
  match m with
  | .start status =>
      { r with observation := r.observation.map fun o => { o with status := some status } }
  | .body _ moreBody => if moreBody then r else r.settle routeMatches .completed

/-- The exception branches of `send_observed` and `receive_observed`. -/
def failed (e : Failure) : Request σ :=
  match e with
  | .osError => r.settle routeMatches .aborted
  | .timeoutError => r
  | .other => r

/-- What an event does; messages reach the observation only once there is one. -/
def handle (e : Event) : Option (Request σ) :=
  match e with
  | .tick t => if r.now ≤ t then some { r with now := t } else none
  | .enter => some r.enter
  | .observe key callback => some (r.observe key (.other callback))
  | .prometheus =>
      some (if r.path ∈ excludedPaths then r else r.observe "metrics" .prometheus)
  | .routed terminal => some { r with terminal }
  | .abort => some (r.settle routeMatches .aborted)
  | .accepted m => if r.observation.isSome then some (r.accepted routeMatches m) else none
  | .sendFailed e => if r.observation.isSome then some (r.failed routeMatches e) else none
  | .received => some r
  | .disconnected =>
      if r.observation.isSome then some (r.settle routeMatches .aborted) else none
  | .receiveFailed e => if r.observation.isSome then some (r.failed routeMatches e) else none
  | .leave _ => if r.observation.isSome then some (r.settle routeMatches .aborted) else none

/-- The event in the history, once there is an observation. -/
def recorded (e : Event) : Request σ :=
  if r.observation.isSome then { r with history := r.history ++ [e] } else r

def next (e : Event) : Option (Request σ) := (r.handle routeMatches e).map fun r => r.recorded e

/-- A request that no observer has seen yet. -/
def arrived (method path : String) (incoming : σ) (routes : List BaseRoute) (now : ℚ) :
    Request σ where
  method
  path
  incoming
  routes
  terminal := ⟨none, none⟩
  observation := none
  metrics := .empty
  now
  calls := []
  settlements := []
  history := []

end Request

/-- Every HTTP request. -/
def requestSystem {σ : Type} (routeMatches : BaseRoute → σ → Match × σ) :
    System (Request σ) Event where
  init r := ∃ method path incoming routes now, r = .arrived method path incoming routes now
  next r e := r.next routeMatches e

end QuickApi.Telemetry
