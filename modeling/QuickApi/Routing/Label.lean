/-
  QuickApi.Routing.Label

  `route_template` (`app/common/middleware/request_outcome.py`): the route label
  of a metric is found again after the request, by a second traversal that
  follows the declared mounts.

  What each route answers on the scope is given (`Matching`); the scope counts
  only as far as `matches` reads it.
-/

import QuickApi.Routing.Flexible
import Mathlib.Data.List.DropRight

namespace QuickApi.Routing

inductive RouteKind where
  | starlette
  | api
  | flexible
deriving DecidableEq, Repr

/-- A leaf: a `Route` of Starlette, an `APIRoute` or a `FlexibleRoute`. -/
structure Route where
  ref : Ref
  endpoint : Ref
  kind : RouteKind
  path : List Char
deriving DecidableEq, Repr

structure Mount where
  ref : Ref
  path : List Char
deriving DecidableEq, Repr

/-- A tree of routes and mounts; a mount of an opaque application has no routes. -/
inductive BaseRoute where
  | route (route : Route)
  | mount (mount : Mount) (routes : List BaseRoute)

/-- `self.path.rstrip('/') or '/'` of a flexible route, and the path of any other. -/
def Route.canonicalPath (route : Route) : List Char :=
  if route.kind = .flexible then
    let stripped := route.path.rdropWhile (· == '/')
    if stripped = [] then ['/'] else stripped
  else route.path

/-- The entries of a scope that name the route that was chosen. -/
structure Terminal where
  route : Option Ref
  endpoint : Option Ref
deriving DecidableEq, Repr

/-- What the routes and mounts answer: a mount matches in full, with the scope behind it, or not
    at all. -/
structure Matching (Scope : Type) where
  route : Route → Scope → Match
  mount : Mount → Scope → Option Scope

variable {Scope : Type}

-- ============================================================================
-- The router
-- ============================================================================

namespace Matching

def matchOf (answers : Matching Scope) (scope : Scope) : BaseRoute → Match
  | .route route => answers.route route scope
  | .mount mount _ => if (answers.mount mount scope).isSome then .full else .none

/-- The router takes a request through the mounts to the leaf. -/
inductive Dispatched (answers : Matching Scope) :
    List BaseRoute → Scope → List Mount → Route → Prop
  | leaf {routes scope route} (hselect : select (answers.matchOf scope) routes = some (.route route)) :
      Dispatched answers routes scope [] route
  | mount {routes scope mount children child mounts route}
      (hselect : select (answers.matchOf scope) routes = some (.mount mount children))
      (hchild : answers.mount mount scope = some child)
      (hinner : Dispatched answers children child mounts route) :
      Dispatched answers routes scope (mount :: mounts) route

end Matching

/-- The entries that a request leaves in the scope on its way to the leaf: every route enters its
    endpoint, and the routes of FastAPI also enter themselves. -/
def Route.record (route : Route) (before : Terminal) : Terminal where
  route := if route.kind = .starlette then before.route else some route.ref
  endpoint := some route.endpoint

-- ============================================================================
-- The label
-- ============================================================================

/-- `"<unmatched>"` -/
def unmatched : List Char := "<unmatched>".toList

/-- `terminal.get("route") is route or terminal.get("endpoint") is route.endpoint` -/
def Terminal.names (terminal : Terminal) (route : Route) : Bool :=
  terminal.route = some route.ref || terminal.endpoint = some route.endpoint

/-- `route_template`, with the first route so far that matches in part. -/
def routeTemplate (answers : Matching Scope) (terminal : Terminal) :
    List BaseRoute → Scope → List Char → Option Route → List Char
  | [], _, mounted, partly =>
      match partly with
      | some route => if terminal.names route then mounted ++ route.canonicalPath else unmatched
      | none => unmatched
  | .route route :: routes, incoming, mounted, partly =>
      match answers.route route incoming with
      | .full => if terminal.names route then mounted ++ route.canonicalPath else unmatched
      | .partly => routeTemplate answers terminal routes incoming mounted (partly.or (some route))
      | .none => routeTemplate answers terminal routes incoming mounted partly
  | .mount mount children :: routes, incoming, mounted, partly =>
      match answers.mount mount incoming with
      | some child => routeTemplate answers terminal children child (mounted ++ mount.path) none
      | none => routeTemplate answers terminal routes incoming mounted partly

-- ============================================================================
-- One level of the traversal
-- ============================================================================

theorem names_record (route : Route) (before : Terminal) :
    (route.record before).names route = true := by
  simp [Terminal.names, Route.record]

/-- The label once the choice at this level is known. -/
def levelLabel (answers : Matching Scope) (terminal : Terminal) (incoming : Scope)
    (mounted : List Char) : Option BaseRoute → List Char
  | some (.route route) =>
      if terminal.names route then mounted ++ route.canonicalPath else unmatched
  | some (.mount mount children) =>
      match answers.mount mount incoming with
      | some child => routeTemplate answers terminal children child (mounted ++ mount.path) none
      | none => unmatched
  | none => unmatched

/-- The traversal chooses at each level as the router does. -/
theorem routeTemplate_level (answers : Matching Scope) (terminal : Terminal)
    (routes : List BaseRoute) (incoming : Scope) (mounted : List Char) (partly : Option Route) :
    routeTemplate answers terminal routes incoming mounted partly =
      levelLabel answers terminal incoming mounted
        ((routes.find? fun route => answers.matchOf incoming route = .full).or
          ((partly.map .route).or
            (routes.find? fun route => answers.matchOf incoming route = .partly))) := by
  induction routes generalizing partly with
  | nil =>
      cases partly with
      | none => simp [routeTemplate, levelLabel]
      | some route => simp [routeTemplate, levelLabel]
  | cons head routes ih =>
      cases head with
      | route route =>
          rw [routeTemplate, List.find?_cons, List.find?_cons]
          cases hresult : answers.route route incoming with
          | full => simp [Matching.matchOf, hresult, levelLabel]
          | partly =>
              cases partly with
              | none => simp [Matching.matchOf, hresult, ih]
              | some first => simp [Matching.matchOf, hresult, ih]
          | none => simp [Matching.matchOf, hresult, ih]
      | mount mount children =>
          rw [routeTemplate, List.find?_cons, List.find?_cons]
          cases hresult : answers.mount mount incoming with
          | some child => simp [Matching.matchOf, hresult, levelLabel]
          | none => simp [Matching.matchOf, hresult, ih]

theorem routeTemplate_select (answers : Matching Scope) (terminal : Terminal)
    (routes : List BaseRoute) (incoming : Scope) (mounted : List Char) :
    routeTemplate answers terminal routes incoming mounted none =
      levelLabel answers terminal incoming mounted
        (select (answers.matchOf incoming) routes) := by
  rw [routeTemplate_level, Option.map_none, Option.none_or, select]

theorem mem_of_select {α : Type} {matchOf : α → Match} {routes : List α} {route : α}
    (h : select matchOf routes = some route) : route ∈ routes := by
  rw [select, Option.or_eq_some_iff] at h
  obtain h | ⟨-, h⟩ := h
  · exact List.mem_of_find?_eq_some h
  · exact List.mem_of_find?_eq_some h

/-- What holds of a table once it holds of the tables of its mounts holds of every table. -/
theorem forest_induction {P : List BaseRoute → Prop}
    (step : ∀ routes, (∀ mount children, BaseRoute.mount mount children ∈ routes → P children) →
      P routes) (routes : List BaseRoute) : P routes :=
  step routes fun mount children hmem =>
    have : sizeOf children < sizeOf routes := by
      have hlt := List.sizeOf_lt_of_mem hmem
      rw [BaseRoute.mount.sizeOf_spec] at hlt
      omega
    forest_induction step children
termination_by sizeOf routes

-- ============================================================================
-- The label of a request
-- ============================================================================

/-- The labels that a table declares. -/
def templates : List BaseRoute → List (List Char)
  | [] => []
  | .route route :: routes => route.canonicalPath :: templates routes
  | .mount mount children :: routes =>
      (templates children).map (mount.path ++ ·) ++ templates routes

theorem canonicalPath_mem_templates {routes : List BaseRoute} {route : Route}
    (h : .route route ∈ routes) : route.canonicalPath ∈ templates routes := by
  induction routes with
  | nil => cases h
  | cons head routes ih =>
      obtain rfl | htail := List.mem_cons.mp h
      · rw [templates]
        exact List.mem_cons_self
      · cases head with
        | route first =>
            rw [templates]
            exact List.mem_cons_of_mem _ (ih htail)
        | mount mount children =>
            rw [templates]
            exact List.mem_append_right _ (ih htail)

theorem append_mem_templates {routes : List BaseRoute} {mount : Mount}
    {children : List BaseRoute} {template : List Char} (h : .mount mount children ∈ routes)
    (htemplate : template ∈ templates children) : mount.path ++ template ∈ templates routes := by
  induction routes with
  | nil => cases h
  | cons head routes ih =>
      obtain rfl | htail := List.mem_cons.mp h
      · rw [templates]
        exact List.mem_append_left _ (List.mem_map_of_mem htemplate)
      · cases head with
        | route first =>
            rw [templates]
            exact List.mem_cons_of_mem _ (ih htail)
        | mount other others =>
            rw [templates]
            exact List.mem_append_right _ (ih htail)

theorem routeTemplate_of_dispatched {answers : Matching Scope} {routes : List BaseRoute}
    {incoming : Scope} {mounts : List Mount} {route : Route}
    (h : answers.Dispatched routes incoming mounts route) {terminal : Terminal}
    (hnames : terminal.names route = true) (mounted : List Char) :
    routeTemplate answers terminal routes incoming mounted none =
      mounted ++ mounts.flatMap Mount.path ++ route.canonicalPath := by
  induction h generalizing mounted with
  | leaf hselect => simp [routeTemplate_select, hselect, levelLabel, hnames]
  | mount hselect hchild _ ih =>
      simp [routeTemplate_select, hselect, levelLabel, hchild, ih hnames, List.append_assoc]

/-- A mount that is chosen has answered with a scope. -/
theorem mount_isSome_of_select {answers : Matching Scope} {routes : List BaseRoute}
    {incoming : Scope} {mount : Mount} {children : List BaseRoute}
    (h : select (answers.matchOf incoming) routes = some (.mount mount children)) :
    ∃ child, answers.mount mount incoming = some child := by
  cases hresult : answers.mount mount incoming with
  | some child => exact ⟨child, rfl⟩
  | none =>
      have hnone : answers.matchOf incoming (.mount mount children) = .none := by
        simp [Matching.matchOf, hresult]
      rw [select, Option.or_eq_some_iff] at h
      obtain h | ⟨-, h⟩ := h
      · have hfull := (List.find?_eq_some_iff_append.mp h).1
        simp [hnone] at hfull
      · have hpartly := (List.find?_eq_some_iff_append.mp h).1
        simp [hnone] at hpartly

theorem routeTemplate_of_not_dispatched {answers : Matching Scope} (terminal : Terminal)
    (routes : List BaseRoute) (incoming : Scope) (mounted : List Char)
    (h : ¬ ∃ mounts route, answers.Dispatched routes incoming mounts route) :
    routeTemplate answers terminal routes incoming mounted none = unmatched := by
  induction routes using forest_induction generalizing incoming mounted with
  | step routes ih =>
      rw [routeTemplate_select]
      cases hselect : select (answers.matchOf incoming) routes with
      | none => rfl
      | some chosen =>
          cases chosen with
          | route route => exact absurd ⟨[], route, .leaf hselect⟩ h
          | mount mount children =>
              obtain ⟨child, hchild⟩ := mount_isSome_of_select hselect
              rw [levelLabel, hchild]
              refine ih mount children (mem_of_select hselect) child _ ?_
              rintro ⟨mounts, route, hinner⟩
              exact h ⟨mount :: mounts, route, .mount hselect hchild hinner⟩

theorem routeTemplate_of_unnamed {answers : Matching Scope} {terminal : Terminal}
    (h : ∀ route, terminal.names route = false) (routes : List BaseRoute) (incoming : Scope)
    (mounted : List Char) :
    routeTemplate answers terminal routes incoming mounted none = unmatched := by
  induction routes using forest_induction generalizing incoming mounted with
  | step routes ih =>
      rw [routeTemplate_select]
      cases hselect : select (answers.matchOf incoming) routes with
      | none => rfl
      | some chosen =>
          cases chosen with
          | route route => simp [levelLabel, h]
          | mount mount children =>
              obtain ⟨child, hchild⟩ := mount_isSome_of_select hselect
              rw [levelLabel, hchild]
              exact ih mount children (mem_of_select hselect) child _

/-- The label is one that the table declares, whatever the request. -/
theorem routeTemplate_declared (answers : Matching Scope) (terminal : Terminal)
    (routes : List BaseRoute) (incoming : Scope) (mounted : List Char) :
    routeTemplate answers terminal routes incoming mounted none = unmatched ∨
      ∃ template ∈ templates routes,
        routeTemplate answers terminal routes incoming mounted none = mounted ++ template := by
  induction routes using forest_induction generalizing incoming mounted with
  | step routes ih =>
      rw [routeTemplate_select]
      cases hselect : select (answers.matchOf incoming) routes with
      | none => exact .inl rfl
      | some chosen =>
          cases chosen with
          | route route =>
              rw [levelLabel]
              split
              · exact .inr ⟨_, canonicalPath_mem_templates (mem_of_select hselect), rfl⟩
              · exact .inl rfl
          | mount mount children =>
              obtain ⟨child, hchild⟩ := mount_isSome_of_select hselect
              rw [levelLabel, hchild]
              obtain hnone | ⟨template, hmem, heq⟩ :=
                ih mount children (mem_of_select hselect) child (mounted ++ mount.path)
              · exact .inl hnone
              · refine .inr ⟨mount.path ++ template,
                  append_mem_templates (mem_of_select hselect) hmem, ?_⟩
                rw [← List.append_assoc]
                exact heq

/-- The label names the route that ran through the mounts on the way to it, a request without a
    route is labelled as such, and a label is always one that the table declares. -/
theorem label_names_route (answers : Matching Scope) (routes : List BaseRoute) (incoming : Scope)
    (terminal : Terminal) :
    (∀ mounts route, answers.Dispatched routes incoming mounts route →
        terminal.names route = true →
        routeTemplate answers terminal routes incoming [] none =
          mounts.flatMap Mount.path ++ route.canonicalPath) ∧
      ((¬ ∃ mounts route, answers.Dispatched routes incoming mounts route) ∨
          terminal = ⟨none, none⟩ →
        routeTemplate answers terminal routes incoming [] none = unmatched) ∧
      routeTemplate answers terminal routes incoming [] none ∈ unmatched :: templates routes := by
  refine ⟨fun mounts route hdispatched hnames => ?_, ?_, ?_⟩
  · rw [routeTemplate_of_dispatched hdispatched hnames, List.nil_append]
  · rintro (hnone | rfl)
    · exact routeTemplate_of_not_dispatched terminal routes incoming [] hnone
    · exact routeTemplate_of_unnamed (fun route => by simp [Terminal.names]) routes incoming []
  · obtain hnone | ⟨template, hmem, heq⟩ :=
      routeTemplate_declared answers terminal routes incoming []
    · exact hnone ▸ List.mem_cons_self
    · exact heq ▸ List.mem_cons_of_mem _ hmem

private def entryRoute : Route := ⟨2, 12, .flexible, "/entries/{id}/".toList⟩

/-- `/teams/{team}` with `/entries/{id}` in it, behind a route that matches nothing. -/
private def teamRoutes : List BaseRoute :=
  [.route ⟨0, 10, .flexible, "/health/".toList⟩,
    .mount ⟨1, "/teams/{team}".toList⟩ [.route entryRoute]]

/-- `DELETE /teams/secret/entries/123`: the mount matches in full, its route in part. -/
private def teamAnswers : Matching Unit where
  route route _ := if route.ref = 2 then .partly else .none
  mount _ _ := some ()

theorem label_names_route_team :
    routeTemplate teamAnswers (entryRoute.record ⟨none, none⟩) teamRoutes () [] none =
      "/teams/{team}/entries/{id}".toList :=
  (label_names_route teamAnswers teamRoutes () (entryRoute.record ⟨none, none⟩)).1
    [⟨1, "/teams/{team}".toList⟩] entryRoute (.mount rfl rfl (.leaf rfl)) (names_record _ _)

end QuickApi.Routing
