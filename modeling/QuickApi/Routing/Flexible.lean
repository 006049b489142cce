/-
  QuickApi.Routing.Flexible

  `FlexibleRoute` (`app/common/handlers/flexible_router.py`): a `HEAD` request
  falls back to a `GET` route, and an explicit `HEAD` handler is respected also
  when it is registered later.

  The router is the one of Starlette: it takes the first route that matches in
  full, and otherwise the first that matches in part.  Where none matches, it
  redirects if a route would match the path with the slash at its end added or
  removed, unless that is switched off.  A route that restricts no method (an
  empty set) matches every request to its path in full.
-/

import Mathlib.Data.List.DropRight
import Mathlib.Data.List.Find

namespace QuickApi.Routing

-- ============================================================================
-- The choice of the router
-- ============================================================================

/-- `Match.NONE`, `Match.PARTIAL` and `Match.FULL` -/
inductive Match where
  | none
  | partly
  | full
deriving DecidableEq, Repr

section

variable {α : Type}

/-- The first route that matches in full, and otherwise the first that matches in part. -/
def select (matchOf : α → Match) (routes : List α) : Option α :=
  (routes.find? fun route => matchOf route = .full).or
    (routes.find? fun route => matchOf route = .partly)

/-- The loop of `Router.app`, with the first route so far that matches in part. -/
def selectLoop (matchOf : α → Option Match) : Option α → List α → Option (Option α)
  | partly, [] => some partly
  | partly, route :: routes =>
      (matchOf route).bind fun
        | .full => some (some route)
        | .partly => selectLoop matchOf (partly.or (some route)) routes
        | .none => selectLoop matchOf partly routes

theorem selectLoop_eq {matchOf : α → Option Match} {result : α → Match}
    (h : ∀ route, matchOf route = some (result route)) (partly : Option α) (routes : List α) :
    selectLoop matchOf partly routes =
      some ((routes.find? fun route => result route = .full).or
        (partly.or (routes.find? fun route => result route = .partly))) := by
  induction routes generalizing partly with
  | nil => simp [selectLoop]
  | cons route routes ih =>
      rw [selectLoop, h, Option.bind_some]
      cases hresult : result route with
      | full => simp [hresult]
      | partly => simp [ih, hresult]
      | none => simp [ih, hresult]

/-- The loop ends with the choice, where every answer is known. -/
theorem selectLoop_none {matchOf : α → Option Match} {result : α → Match}
    (h : ∀ route, matchOf route = some (result route)) (routes : List α) :
    selectLoop matchOf none routes = some (select result routes) := by
  rw [selectLoop_eq h, Option.none_or, select]

end

-- ============================================================================
-- The routes
-- ============================================================================

/-- The identity of an object. -/
abbrev Ref := Nat

/-- `path_regex` as the paths that it matches, and the methods that are declared. -/
structure FlexibleRoute where
  pattern : List Char → Bool
  methods : List String

/-- What the routes read of an ASGI scope; `router` has the routes of the router in it. -/
structure Scope where
  method : String
  path : List Char
  router : List Ref

/-- The objects behind the references. -/
abbrev Heap := Ref → FlexibleRoute

namespace FlexibleRoute

/-- `super().matches(scope)` -/
def superMatches (route : FlexibleRoute) (scope : Scope) : Match :=
  if route.pattern scope.path then
    if route.methods ≠ [] ∧ scope.method ∉ route.methods then .partly else .full
  else .none

/-- `matches`, with a bound on the depth of the nested calls. -/
def matchesWithin (heap : Heap) : Nat → Ref → Scope → Option Match
  | 0, _, _ => none
  | depth + 1, self, scope =>
      let result := (heap self).superMatches scope
      if result = .partly ∧ scope.method = "HEAD" ∧ "GET" ∈ (heap self).methods then
        (scope.router.anyM fun route =>
          if route ≠ self ∧ "HEAD" ∈ (heap route).methods then
            (matchesWithin heap depth route scope).map (· = .full)
          else some false).map fun explicit => if explicit then .partly else .full
      else some result

/-- Whether `self.app` is called; otherwise the answer is 405. -/
def superHandles (route : FlexibleRoute) (scope : Scope) : Bool :=
  !(route.methods ≠ [] ∧ scope.method ∉ route.methods)

/-- `handle` -/
def handles (route : FlexibleRoute) (scope : Scope) : Bool :=
  if scope.method = "HEAD" ∧ "HEAD" ∉ route.methods ∧ "GET" ∈ route.methods then true
  else route.superHandles scope

end FlexibleRoute

/-- A router with a flat table of flexible routes. -/
structure Router where
  heap : Heap
  routes : List Ref
  redirectSlashes : Bool

/-- What becomes of a request; all but a call of a handler is an answer of the framework: 405, 307
    and 404. -/
inductive Answer where
  | handler (route : Ref)
  | methodNotAllowed
  | redirect
  | notFound
deriving DecidableEq, Repr

/-- A path with the slash at its end added, or all of them removed. -/
def flipSlash (path : List Char) : List Char :=
  if path.getLast? = some '/' then path.rdropWhile (· == '/') else path ++ ['/']

/-- `redirect_scope` -/
def Scope.redirect (scope : Scope) : Scope := { scope with path := flipSlash scope.path }

namespace Router

variable (router : Router)

/-- The scope of a request that arrives at the router. -/
def scope (method : String) (path : List Char) : Scope := ⟨method, path, router.routes⟩

/-- The router calls the route that it has chosen. -/
def answer (handles : FlexibleRoute → Bool) (route : Ref) : Answer :=
  if handles (router.heap route) then .handler route else .methodNotAllowed

/-- Whether the router looks for a route to redirect to. -/
def mayRedirect (scope : Scope) : Bool := router.redirectSlashes && scope.path != ['/']

/-- Whether the second loop of `Router.app` finds a route. -/
def redirectLoop (matchOf : Ref → Scope → Option Match) (scope : Scope) : Option Bool :=
  if router.mayRedirect scope then
    router.routes.anyM fun route => (matchOf route scope.redirect).map (· ≠ .none)
  else some false

/-- The answer where no route was chosen. -/
def missed (redirects : Bool) : Answer := if redirects then .redirect else .notFound

/-- A request on the routes as they are, with a bound on the depth of the nested calls. -/
def dispatch (depth : Nat) (method : String) (path : List Char) : Option Answer :=
  let scope := router.scope method path
  let matchOf := FlexibleRoute.matchesWithin router.heap depth
  (selectLoop (matchOf · scope) none router.routes).bind fun
    | some route => some (router.answer (·.handles scope) route)
    | none => (router.redirectLoop matchOf scope).map missed

/-- Some route to redirect to matches. -/
def redirects (matchOf : Ref → Scope → Match) (scope : Scope) : Bool :=
  router.mayRedirect scope && router.routes.any fun route => matchOf route scope.redirect ≠ .none

/-- A request on the same routes without what `FlexibleRoute` overrides. -/
def plainDispatch (method : String) (path : List Char) : Answer :=
  let scope := router.scope method path
  let matchOf := fun route => (router.heap route).superMatches
  (select (matchOf · scope) router.routes).elim (missed (router.redirects matchOf scope))
    (router.answer (·.superHandles scope))

end Router

-- ============================================================================
-- The nested calls
-- ============================================================================

namespace FlexibleRoute

/-- Another route in the router declares `HEAD` and its pattern matches. -/
def explicitHead (heap : Heap) (self : Ref) (scope : Scope) : Bool :=
  scope.router.any fun route =>
    route ≠ self && decide ("HEAD" ∈ (heap route).methods) && (heap route).pattern scope.path

/-- What a route answers once the nested calls have returned. -/
def matchOf (heap : Heap) (self : Ref) (scope : Scope) : Match :=
  let result := (heap self).superMatches scope
  if result = .partly ∧ scope.method = "HEAD" ∧ "GET" ∈ (heap self).methods ∧
      explicitHead heap self scope = false then .full
  else result

/-- A route that declares the method matches in full or not at all. -/
theorem superMatches_of_mem {route : FlexibleRoute} {scope : Scope}
    (h : scope.method ∈ route.methods) :
    route.superMatches scope = if route.pattern scope.path then .full else .none := by
  rw [superMatches, if_neg (c := _ ∧ _) (by simp [h])]

/-- A route that declares `HEAD` asks no other route. -/
theorem matchesWithin_of_head {heap : Heap} {route : Ref} {scope : Scope}
    (hmethod : scope.method = "HEAD") (h : "HEAD" ∈ (heap route).methods) (depth : Nat) :
    matchesWithin heap (depth + 1) route scope =
      some (if (heap route).pattern scope.path then .full else .none) := by
  have hsuper := superMatches_of_mem (hmethod ▸ h : scope.method ∈ (heap route).methods)
  have hpartly : (heap route).superMatches scope ≠ .partly := by
    rw [hsuper]
    split
    · intro h
      cases h
    · intro h
      cases h
  rw [matchesWithin, if_neg fun hfallback => hpartly hfallback.1, hsuper]

theorem explicitHead_eq_anyM {heap : Heap} {self : Ref} {scope : Scope}
    (hmethod : scope.method = "HEAD") (depth : Nat) :
    (scope.router.anyM fun route =>
      if route ≠ self ∧ "HEAD" ∈ (heap route).methods then
        (matchesWithin heap (depth + 1) route scope).map (· = .full)
      else some false) = some (explicitHead heap self scope) := by
  have hroute : (fun route => if route ≠ self ∧ "HEAD" ∈ (heap route).methods then
        (matchesWithin heap (depth + 1) route scope).map fun result => decide (result = .full)
      else some false) = fun route => pure (route ≠ self &&
        decide ("HEAD" ∈ (heap route).methods) && (heap route).pattern scope.path) := by
    funext route
    by_cases h : route ≠ self ∧ "HEAD" ∈ (heap route).methods
    · rw [if_pos h, matchesWithin_of_head hmethod h.2]
      by_cases hpattern : (heap route).pattern scope.path
      · simp [h.1, h.2, hpattern]
      · simp [hpattern]
    · rw [if_neg h]
      by_cases hself : route = self
      · simp [hself]
      · have hhead : "HEAD" ∉ (heap route).methods := fun hmem => h ⟨hself, hmem⟩
        simp [hhead]
  rw [hroute]
  exact List.anyM_pure

/-- Two nested calls suffice. -/
theorem matchesWithin_eq (heap : Heap) {depth : Nat} (h : 2 ≤ depth) (self : Ref)
    (scope : Scope) : matchesWithin heap depth self scope = some (matchOf heap self scope) := by
  obtain ⟨depth, rfl⟩ : ∃ n, depth = n + 2 := ⟨depth - 2, by omega⟩
  rw [matchesWithin]
  by_cases hfallback : (heap self).superMatches scope = .partly ∧ scope.method = "HEAD" ∧
      "GET" ∈ (heap self).methods
  · rw [if_pos hfallback, explicitHead_eq_anyM hfallback.2.1, matchOf]
    cases hexplicit : explicitHead heap self scope with
    | true => simp [hfallback.1]
    | false => simp [hfallback]
  · rw [if_neg hfallback, matchOf, if_neg fun h => hfallback ⟨h.1, h.2.1, h.2.2.1⟩]

theorem superMatches_ne_none {route : FlexibleRoute} {scope : Scope} :
    route.superMatches scope ≠ .none ↔ route.pattern scope.path = true := by
  unfold superMatches
  split
  · next h =>
      split
      · simp [h]
      · simp [h]
  · next h => simp [h]

/-- A route matches in some way exactly where its pattern does. -/
theorem matchOf_ne_none {heap : Heap} {self : Ref} {scope : Scope} :
    matchOf heap self scope ≠ .none ↔ (heap self).pattern scope.path = true := by
  rw [← superMatches_ne_none, matchOf]
  split
  · next h => simp [h.1]
  · rfl

end FlexibleRoute

-- ============================================================================
-- HEAD requests
-- ============================================================================

namespace Router

variable {router : Router}

/-- Some route declares `HEAD` and its pattern matches. -/
def hasExplicitHead (router : Router) (path : List Char) : Bool :=
  router.routes.any fun route =>
    decide ("HEAD" ∈ (router.heap route).methods) && (router.heap route).pattern path

/-- The first route that declares the method and whose pattern matches. -/
def firstDeclaring (router : Router) (method : String) (path : List Char) : Option Ref :=
  router.routes.find? fun route => (router.heap route).pattern path &&
    decide (method ∈ (router.heap route).methods)

/-- The first route that declares the method, or restricts none, and whose pattern matches. -/
def firstTaking (router : Router) (method : String) (path : List Char) : Option Ref :=
  router.routes.find? fun route => (router.heap route).pattern path &&
    decide (method ∈ (router.heap route).methods ∨ (router.heap route).methods = [])

/-- The first route for `HEAD` if one declares it, and otherwise the first for `GET`. -/
def headRoute (router : Router) (path : List Char) : Option Ref :=
  if router.hasExplicitHead path then router.firstTaking "HEAD" path
  else router.firstTaking "GET" path

/-- No handler: 405 where a pattern matches, a redirect where only one of the path with the other
    end does, and otherwise 404. -/
def refusal (router : Router) (path : List Char) : Answer :=
  if router.routes.any fun route => (router.heap route).pattern path then .methodNotAllowed
  else if router.redirectSlashes ∧ path ≠ ['/'] ∧
      router.routes.any fun route => (router.heap route).pattern (flipSlash path) then .redirect
  else .notFound

theorem redirectLoop_eq (router : Router) {matchOf : Ref → Scope → Option Match}
    {result : Ref → Scope → Match} (h : ∀ route scope, matchOf route scope = some (result route scope))
    (scope : Scope) : router.redirectLoop matchOf scope = some (router.redirects result scope) := by
  have hany : (fun route => (matchOf route scope.redirect).map fun m => decide (m ≠ .none)) =
      fun route => pure (decide (result route scope.redirect ≠ .none)) := by
    funext route
    rw [h]
    rfl
  rw [redirectLoop, redirects, hany]
  cases router.mayRedirect scope with
  | true => exact List.anyM_pure
  | false => rfl

/-- What a request comes to, once the nested calls have returned. -/
theorem dispatch_eq (router : Router) {depth : Nat} (hdepth : 2 ≤ depth) (method : String)
    (path : List Char) :
    router.dispatch depth method path =
      some ((select (FlexibleRoute.matchOf router.heap · (router.scope method path))
        router.routes).elim
          (missed (router.redirects (FlexibleRoute.matchOf router.heap)
            (router.scope method path)))
          (router.answer (·.handles (router.scope method path)))) := by
  have hmatch := FlexibleRoute.matchesWithin_eq router.heap hdepth
  have hselect := selectLoop_none (fun route => hmatch route (router.scope method path))
    router.routes
  have hredirect := redirectLoop_eq router hmatch (router.scope method path)
  rw [dispatch, hselect, Option.bind_some]
  cases select (FlexibleRoute.matchOf router.heap · (router.scope method path)) router.routes with
  | some route => rfl
  | none => rw [hredirect]; rfl

/-- Which routes a request may be redirected to depends on their patterns only. -/
theorem redirects_eq (router : Router) {result : Ref → Scope → Match}
    (h : ∀ route scope, result route scope ≠ .none ↔
      (router.heap route).pattern scope.path = true) (method : String) (path : List Char) :
    router.redirects result (router.scope method path) = true ↔
      router.redirectSlashes ∧ path ≠ ['/'] ∧
        router.routes.any fun route => (router.heap route).pattern (flipSlash path) := by
  rw [redirects, Bool.and_eq_true, mayRedirect, Bool.and_eq_true, bne_iff_ne, and_assoc,
    List.any_eq_true, List.any_eq_true]
  simp only [decide_eq_true_eq, h]
  rfl

theorem explicitHead_scope {self : Ref} (path : List Char)
    (h : "HEAD" ∉ (router.heap self).methods) :
    FlexibleRoute.explicitHead router.heap self (router.scope "HEAD" path) =
      router.hasExplicitHead path := by
  unfold FlexibleRoute.explicitHead hasExplicitHead
  refine congrArg (router.routes.any ·) (funext fun route => ?_)
  by_cases hself : route = self
  · subst hself
    simp [h]
  · simp [hself, scope]

/-- The answer of a route to a `HEAD` request. -/
theorem matchOf_head (self : Ref) (path : List Char) :
    FlexibleRoute.matchOf router.heap self (router.scope "HEAD" path) =
      if (router.heap self).pattern path then
        if (if router.hasExplicitHead path then "HEAD" else "GET") ∈ (router.heap self).methods ∨
            "HEAD" ∈ (router.heap self).methods ∨ (router.heap self).methods = [] then .full
        else .partly
      else .none := by
  unfold FlexibleRoute.matchOf FlexibleRoute.superMatches
  by_cases hpattern : (router.heap self).pattern path
  · by_cases hhead : "HEAD" ∈ (router.heap self).methods
    · simp [scope, hpattern, hhead]
    · by_cases hempty : (router.heap self).methods = []
      · simp [scope, hpattern, hempty]
      · have hexplicit := explicitHead_scope path hhead
        rw [scope] at hexplicit
        cases h : router.hasExplicitHead path with
        | true => simp [scope, hpattern, hhead, hempty, hexplicit, h]
        | false => simp [scope, hpattern, hhead, hempty, hexplicit, h]
  · simp [scope, hpattern]

/-- The first full match of a `HEAD` request. -/
theorem find_full (path : List Char) :
    (router.routes.find? fun route =>
      FlexibleRoute.matchOf router.heap route (router.scope "HEAD" path) = .full) =
      router.headRoute path := by
  have hcongr : ∀ method, (if router.hasExplicitHead path then "HEAD" else "GET") = method →
      (router.routes.find? fun route =>
        FlexibleRoute.matchOf router.heap route (router.scope "HEAD" path) = .full) =
        router.firstTaking method path := by
    intro method hmethod
    refine List.find?_congr fun route hroute => ?_
    rw [matchOf_head, hmethod]
    by_cases hpattern : (router.heap route).pattern path
    · by_cases hhead : "HEAD" ∈ (router.heap route).methods
      · -- the route itself is explicit
        have hexplicit : router.hasExplicitHead path = true :=
          List.any_eq_true.mpr ⟨route, hroute, by simp [hhead, hpattern]⟩
        rw [if_pos hexplicit] at hmethod
        simp [hpattern, hhead, ← hmethod]
      · simp [hpattern, hhead]
    · simp [hpattern]
  unfold headRoute
  split
  · next h => exact hcongr "HEAD" (if_pos h)
  · next h => exact hcongr "GET" (if_neg h)

/-- A full match is handled. -/
theorem handles_of_full {self : Ref} {path : List Char}
    (h : FlexibleRoute.matchOf router.heap self (router.scope "HEAD" path) = .full) :
    (router.heap self).handles (router.scope "HEAD" path) = true := by
  rw [matchOf_head] at h
  have hpattern : (router.heap self).pattern path = true := by
    by_contra hpattern
    simp [hpattern] at h
  unfold FlexibleRoute.handles FlexibleRoute.superHandles
  by_cases hhead : "HEAD" ∈ (router.heap self).methods
  · simp [scope, hhead]
  · by_cases hempty : (router.heap self).methods = []
    · simp [scope, hempty]
    · have hget : "GET" ∈ (router.heap self).methods := by
        by_contra hget
        cases hexplicit : router.hasExplicitHead path with
        | true => simp [hpattern, hexplicit, hhead, hempty] at h
        | false => simp [hpattern, hexplicit, hhead, hget, hempty] at h
      simp [scope, hhead, hget]

/-- A partial match is refused where there is no full one. -/
theorem not_handles_of_partly {self : Ref} {path : List Char}
    (hnone : router.headRoute path = none)
    (h : FlexibleRoute.matchOf router.heap self (router.scope "HEAD" path) = .partly) :
    (router.heap self).handles (router.scope "HEAD" path) = false := by
  have hexplicit : router.hasExplicitHead path = false := by
    by_contra hexplicit
    rw [Bool.not_eq_false] at hexplicit
    rw [headRoute, if_pos hexplicit, firstTaking, List.find?_eq_none] at hnone
    obtain ⟨route, hroute, hdeclares⟩ := List.any_eq_true.mp hexplicit
    simp only [Bool.and_eq_true, decide_eq_true_eq] at hdeclares
    exact hnone route hroute (by simp [hdeclares])
  rw [matchOf_head, hexplicit] at h
  have hpattern : (router.heap self).pattern path = true := by
    by_contra hpattern
    simp [hpattern] at h
  have hmethods : "GET" ∉ (router.heap self).methods ∧ "HEAD" ∉ (router.heap self).methods ∧
      (router.heap self).methods ≠ [] := by
    simpa [hpattern] using h
  unfold FlexibleRoute.handles FlexibleRoute.superHandles
  simp [scope, hmethods]

/-- Where no route matches in full, some pattern matches if and only if some route matches in
    part. -/
theorem find_partly (path : List Char) (hnone : router.headRoute path = none) :
    (router.routes.find? fun route =>
      FlexibleRoute.matchOf router.heap route (router.scope "HEAD" path) = .partly) =
      router.routes.find? fun route => (router.heap route).pattern path := by
  refine List.find?_congr fun route hroute => ?_
  have hfull : FlexibleRoute.matchOf router.heap route (router.scope "HEAD" path) ≠ .full := by
    rw [← find_full, List.find?_eq_none] at hnone
    simpa using hnone route hroute
  rw [matchOf_head] at hfull ⊢
  by_cases hpattern : (router.heap route).pattern path
  · rw [if_pos hpattern] at hfull ⊢
    by_cases hmethods : (if router.hasExplicitHead path then "HEAD" else "GET") ∈
        (router.heap route).methods ∨ "HEAD" ∈ (router.heap route).methods ∨
        (router.heap route).methods = []
    · rw [if_pos hmethods] at hfull
      exact absurd rfl hfull
    · rw [if_neg hmethods]
      simp [hpattern]
  · simp [hpattern]

theorem answer_head (router : Router) (path : List Char) :
    (select (FlexibleRoute.matchOf router.heap · (router.scope "HEAD" path)) router.routes).elim
        (missed (router.redirects (FlexibleRoute.matchOf router.heap)
          (router.scope "HEAD" path)))
        (router.answer (·.handles (router.scope "HEAD" path))) =
      (router.headRoute path).elim (router.refusal path) .handler := by
  unfold select
  rw [find_full]
  cases hhead : router.headRoute path with
  | some route =>
      have hfull := List.find?_some ((find_full path).trans hhead)
      rw [decide_eq_true_eq] at hfull
      simp [answer, handles_of_full hfull]
  | none =>
      rw [Option.none_or, find_partly path hhead]
      cases hpartly : router.routes.find? fun route => (router.heap route).pattern path with
      | some route =>
          have hmatch := List.find?_some ((find_partly path hhead).trans hpartly)
          rw [decide_eq_true_eq] at hmatch
          have hpattern := List.find?_eq_some_iff_append.mp hpartly
          have hany : (router.routes.any fun route => (router.heap route).pattern path) = true :=
            List.any_eq_true.mpr ⟨route, List.mem_of_find?_eq_some hpartly, hpattern.1⟩
          simp [answer, refusal, not_handles_of_partly hhead hmatch, hany]
      | none =>
          have hany : (router.routes.any fun route => (router.heap route).pattern path) = false := by
            rw [List.any_eq_false]
            exact List.find?_eq_none.mp hpartly
          have hredirects := redirects_eq router (fun _ _ => FlexibleRoute.matchOf_ne_none)
            "HEAD" path
          rw [Option.elim_none, Option.elim_none, missed, refusal, hany,
            if_neg Bool.false_ne_true]
          exact if_congr hredirects rfl rfl

/-- For any other method a flexible route answers and handles as the route that it extends. -/
theorem dispatch_other (router : Router) {depth : Nat} (hdepth : 2 ≤ depth) {method : String}
    (hmethod : method ≠ "HEAD") (path : List Char) :
    router.dispatch depth method path = some (router.plainDispatch method path) := by
  have hmatch : ∀ route, FlexibleRoute.matchOf router.heap route (router.scope method path) =
      (router.heap route).superMatches (router.scope method path) := by
    intro route
    rw [FlexibleRoute.matchOf, if_neg fun h => hmethod h.2.1]
  have hhandles : ∀ route : FlexibleRoute, route.handles (router.scope method path) =
      route.superHandles (router.scope method path) := by
    intro route
    rw [FlexibleRoute.handles, if_neg fun h => hmethod h.1]
  have hredirects : router.redirects (FlexibleRoute.matchOf router.heap)
        (router.scope method path) =
      router.redirects (fun route => (router.heap route).superMatches)
        (router.scope method path) := by
    rw [Bool.eq_iff_iff, redirects_eq router fun _ _ => FlexibleRoute.matchOf_ne_none,
      redirects_eq router fun _ _ => FlexibleRoute.superMatches_ne_none]
  rw [dispatch_eq router hdepth, hredirects]
  simp only [hmatch, hhandles]
  rfl

/-- A table in which every matching route declares a method has no other takers. -/
theorem headRoute_of_declared {path : List Char}
    (h : ∀ route ∈ router.routes, (router.heap route).pattern path = true →
      (router.heap route).methods ≠ []) :
    router.headRoute path =
      (router.firstDeclaring "HEAD" path).or (router.firstDeclaring "GET" path) := by
  have htaking : ∀ method, router.firstTaking method path = router.firstDeclaring method path := by
    intro method
    refine List.find?_congr fun route hroute => ?_
    by_cases hpattern : (router.heap route).pattern path
    · simp [h route hroute hpattern]
    · simp [hpattern]
  have hexplicit : router.hasExplicitHead path = (router.firstDeclaring "HEAD" path).isSome := by
    rw [Bool.eq_iff_iff, firstDeclaring, List.find?_isSome, hasExplicitHead, List.any_eq_true]
    simp [and_comm]
  rw [headRoute, htaking, htaking, hexplicit]
  cases router.firstDeclaring "HEAD" path with
  | none => rfl
  | some route => rfl

/-- `HEAD` requests go to the first explicit handler, wherever it is registered, otherwise to the
    first route for `GET`, and otherwise to none; routes that restrict no method count among
    either.  The other methods are dispatched as by the plain router. -/
theorem head_dispatch (router : Router) (depth : Nat) (hdepth : 2 ≤ depth) (path : List Char) :
    router.dispatch depth "HEAD" path =
        some ((router.headRoute path).elim (router.refusal path) .handler) ∧
      ((∀ route ∈ router.routes, (router.heap route).pattern path = true →
          (router.heap route).methods ≠ []) →
        router.headRoute path =
          (router.firstDeclaring "HEAD" path).or (router.firstDeclaring "GET" path)) ∧
      (∀ method ≠ "HEAD",
        router.dispatch depth method path = some (router.plainDispatch method path)) ∧
      ∀ self scope, (FlexibleRoute.matchesWithin router.heap depth self scope).isSome := by
  refine ⟨?_, headRoute_of_declared, fun method hmethod => dispatch_other router hdepth hmethod path,
    fun self scope => ?_⟩
  · rw [dispatch_eq router hdepth, answer_head]
  · rw [FlexibleRoute.matchesWithin_eq router.heap hdepth self scope]
    rfl

/-- `GET /a`, then `HEAD` of every path. -/
private def explicitRouter : Router where
  heap route := if route = 0 then ⟨(· = "/a".toList), ["GET"]⟩ else ⟨fun _ => true, ["HEAD"]⟩
  routes := [0, 1]
  redirectSlashes := true

theorem head_dispatch_explicit :
    explicitRouter.dispatch 2 "HEAD" "/a".toList = some (.handler 1) :=
  (head_dispatch explicitRouter 2 (by decide) "/a".toList).1

/-- A route with an empty set of methods. -/
private def unrestrictedRouter : Router where
  heap _ := ⟨fun _ => true, []⟩
  routes := [0]
  redirectSlashes := true

/-- `GET /a` -/
private def slashlessRouter : Router where
  heap _ := ⟨(· = "/a".toList), ["GET"]⟩
  routes := [0]
  redirectSlashes := true

/-- A `HEAD` request goes to the first route that declares `HEAD`, otherwise to the first that
    declares `GET`, and otherwise it is answered 405 or 404. -/
def DispatchesHead (router : Router) (path : List Char) : Prop :=
  ∃ refused, (refused = .methodNotAllowed ∨ refused = .notFound) ∧
    router.dispatch 2 "HEAD" path =
      some (((router.firstDeclaring "HEAD" path).or (router.firstDeclaring "GET" path)).elim
        refused .handler)

/-- A route that declares neither `HEAD` nor `GET` is called for a `HEAD` request; and where no
    route is, the answer may be a redirect. -/
theorem unrestricted_takes_head :
    ¬ unrestrictedRouter.DispatchesHead "/a".toList ∧
      ¬ slashlessRouter.DispatchesHead "/a/".toList := by
  constructor
  · rintro ⟨refused, hrefused, heq⟩
    have hhandler : unrestrictedRouter.dispatch 2 "HEAD" "/a".toList = some (.handler 0) := by
      decide
    obtain rfl | rfl := hrefused
    · exact absurd (hhandler.symm.trans heq) (by decide)
    · exact absurd (hhandler.symm.trans heq) (by decide)
  · rintro ⟨refused, hrefused, heq⟩
    have hredirect : slashlessRouter.dispatch 2 "HEAD" "/a/".toList = some .redirect := by
      decide
    obtain rfl | rfl := hrefused
    · exact absurd (hredirect.symm.trans heq) (by decide)
    · exact absurd (hredirect.symm.trans heq) (by decide)

end Router

end QuickApi.Routing
