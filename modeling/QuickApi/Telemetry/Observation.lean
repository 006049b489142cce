/-
  QuickApi.Telemetry.Observation

  The observation of one request (`RequestObservation` and `route_template` in
  `app/common/middleware/request_outcome.py`).  How a route matches a scope is
  Starlette's, and a parameter; objects that the source compares with `is` are
  numbered.
-/

import QuickApi.Lib.OrderedDict
import Mathlib.Algebra.Field.Rat

namespace QuickApi.Telemetry

open QuickApi.Lib

-- ============================================================================
-- route_template
-- ============================================================================

/-- `starlette.routing.Match` -/
inductive Match where
  | none
  | partial_
  | full
deriving DecidableEq, Repr

/-- A route; `canonicalPath` is there for a `FlexibleRoute`. -/
inductive BaseRoute where
  | mount (path : String) (routes : List BaseRoute)
  | route (object endpoint : Nat) (path : String) (canonicalPath : Option String)
  | other (object : Nat)

/-- The entries `route` and `endpoint` of the scope. -/
structure Terminal where
  route : Option Nat
  endpoint : Option Nat
deriving DecidableEq, Repr

/-- `"<unmatched>"` -/
def unmatched : String := "<unmatched>"

/-- The label of a route that the terminal scope names. -/
def BaseRoute.label? (terminal : Terminal) (pathPrefix : String) : BaseRoute → Option String
  | .route object endpoint path canonicalPath =>
      if terminal.route = some object ∨ terminal.endpoint = some endpoint then
        some (pathPrefix ++ canonicalPath.getD path)
      else none
  | _ => none

section
variable {σ : Type} (routeMatches : BaseRoute → σ → Match × σ) (terminal : Terminal)

mutual
/-- What `route_template` returns for a route that matches fully; `incoming` is the scope
    updated with what the match adds. -/
def fullTemplate (incoming : σ) (pathPrefix : String) : BaseRoute → String
  | .mount path routes => routeTemplate incoming (pathPrefix ++ path) none routes
  | .route object endpoint path canonicalPath =>
      ((BaseRoute.route object endpoint path canonicalPath).label? terminal pathPrefix).getD
        unmatched
  | .other _ => unmatched

/-- `route_template` behind some routes, with the first that matched partially. -/
def routeTemplate (incoming : σ) (pathPrefix : String) (partial_ : Option BaseRoute) :
    List BaseRoute → String
  | [] => (partial_.bind fun route => route.label? terminal pathPrefix).getD unmatched
  | route :: rest =>
      match routeMatches route incoming with
      | (.full, child) => fullTemplate child pathPrefix route
      | (.partial_, _) => routeTemplate incoming pathPrefix (partial_.or (some route)) rest
      | (.none, _) => routeTemplate incoming pathPrefix partial_ rest
end

end

-- ============================================================================
-- RequestOutcome
-- ============================================================================

inductive Outcome where
  | completed
  | aborted
deriving DecidableEq, Repr

structure RequestOutcome where
  outcome : Outcome
  method : String
  route : String
  durationMs : ℚ
  headersSent : Bool
  status : Option Nat
deriving DecidableEq, Repr

/-- `_METHODS` -/
def methods : List String := ["GET", "POST", "PUT", "PATCH", "DELETE", "HEAD", "OPTIONS"]

/-- `method if method in _METHODS else "<other>"` -/
def methodLabel (method : String) : String := if method ∈ methods then method else "<other>"

-- ============================================================================
-- RequestObservation
-- ============================================================================

/-- An observation with callbacks of type `κ`. -/
structure RequestObservation (κ : Type) where
  startedAt : ℚ
  status : Option Nat
  result : Option RequestOutcome
  callbacks : OrderedDict String κ
  /-- a set -/
  subscribers : List String

namespace RequestObservation

variable {κ : Type}

/-- `RequestObservation(scope, routes)` -/
def new (now : ℚ) : RequestObservation κ := ⟨now, none, none, .empty, []⟩

variable (o : RequestObservation κ)

/-- `subscribe`, with the call of the callback it makes, if any. -/
def subscribe (key : String) (callback : κ) :
    RequestObservation κ × List (String × κ × RequestOutcome) :=
  if key ∈ o.subscribers then (o, [])
  else
    let o := { o with subscribers := key :: o.subscribers }
    match o.result with
    | some result => (o, [(key, callback, result)])
    | none => ({ o with callbacks := o.callbacks.set key callback }, [])

/-- `settle`, with the calls of callbacks it makes; `method` and `route` are what it reads off
    the scope. -/
def settle (method route : String) (now : ℚ) (outcome : Outcome) :
    RequestObservation κ × List (String × κ × RequestOutcome) :=
  match o.result with
  | some _ => (o, [])
  | none =>
      let result : RequestOutcome :=
        { outcome
          method := methodLabel method
          route
          durationMs := (now - o.startedAt) * 1000
          headersSent := o.status.isSome
          status := o.status }
      ({ o with result := some result, callbacks := .empty },
        o.callbacks.entries.map fun e => (e.1, e.2, result))

variable {o} (key : String) (callback : κ)

@[simp] theorem subscribe_result : (o.subscribe key callback).1.result = o.result := by
  unfold subscribe
  split
  · rfl
  · dsimp only
    split <;> rfl

theorem subscribe_subscribers (k : String) :
    k ∈ (o.subscribe key callback).1.subscribers ↔ k ∈ o.subscribers ∨ k = key := by
  unfold subscribe
  split
  · next h =>
      refine ⟨Or.inl, ?_⟩
      rintro (hk | rfl)
      · exact hk
      · exact h
  · dsimp only
    split <;> simp [or_comm]

@[simp] theorem settle_subscribers (method route : String) (now : ℚ) (outcome : Outcome) :
    (o.settle method route now outcome).1.subscribers = o.subscribers := by
  unfold settle
  split <;> rfl

end RequestObservation

end QuickApi.Telemetry
