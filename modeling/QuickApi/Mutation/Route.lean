/-
  QuickApi.Mutation.Route

  The handler of a transactional route (`ApplicationRoute.get_route_handler` in
  `app/common/handlers/application_route.py`), around the code of its
  dependencies and its endpoint, and one batch of the cleanup sweep
  (`app/common/services/idempotency_cleanup_service.py`).
-/

import QuickApi.Mutation.Execution

namespace QuickApi.Mutation

open QuickApi.Fingerprint (Text)
open QuickApi.RequestTimeout (RequestActivity)
open QuickApi.Lib

-- ============================================================================
-- The code of a route
-- ============================================================================

/-- What dependencies and endpoints do with the session, and any other await. -/
inductive Work (W : Type) where
  | execute (w : W)
  | query (w : W)
  | add (w : W)
  | flush
  | pause

def Work.Ans {W : Type} (D : Type) : Work W → Type
  | .execute _ => Except Exc D
  | .query _ => Except Exc D
  | .add _ => Unit
  | .flush => Except Exc Unit
  | .pause => Except Exc D

/-- Code of a route: it sees how each piece of work ends, exceptions included, and goes on as
    it likes. -/
abbrev Code (W D α : Type) : Type := Coro (Work W) (Work.Ans D) Unit (Except Exc α)

section Run

variable {W D α : Type}

def Work.run : (x : Work W) → Task W D (x.Ans D)
  | .execute w => Program.attempt (Task.sessionExecute (Stmt.write w))
  | .query w => Program.attempt (Task.sessionExecute (Stmt.read w))
  | .add w => Task.add (.domain w)
  | .flush => Program.attempt Task.flush
  | .pause => Program.attempt Task.pause

def runCode : Code W D α → Task W D α
  | .ret _ r => Task.ofExcept r
  | .call _ x k => do
      let a ← x.run
      runCode (k a ())

/-- Work that changes nothing in the database. -/
def Work.ReadOnly : Work W → Prop
  | .execute _ => False
  | .add _ => False
  | _ => True

/-- Code that changes nothing in the database. -/
def ReadOnly : Code W D α → Prop
  | .ret _ _ => True
  | .call _ x k => x.ReadOnly ∧ ∀ a s, ReadOnly (k a s)

end Run

/-- What the dependencies hand to the endpoint. -/
structure Solved (D : Type) where
  inputs : Inputs
  values : D
  /-- a dependency has added a background task -/
  background : Bool

/-- A request of a transactional route.  Nothing checks that dependencies only provide
    authorization and services; `guarded` tells of those that do. -/
structure Request (W D : Type) where
  /-- the values of its `Idempotency-Key` headers -/
  idempotencyKeys : List Text
  policy : Option Policy
  dependencies : Code W D (Solved D)
  endpoint : D → Code W D Response
  guarded : Bool
  dependencies_readOnly : guarded = true → ReadOnly dependencies

-- ============================================================================
-- handle
-- ============================================================================

namespace Request

variable {W D : Type} (cfg : Config) (req : Request W D)

/-- `prepare(request)`, with `validated_endpoint` for an idempotent route. -/
def prepare : Task W D Response := do
  let solved ← runCode req.dependencies
  let v ← Task.vars
  match v.context, req.policy with
  | some key, some policy => do
      match ← IdempotencyExecution.begin cfg policy key solved.inputs with
      | some (status, body) => pure ⟨true, solved.background, status, body⟩
      | none => runCode (req.endpoint solved.values)
  | _, _ => runCode (req.endpoint solved.values)

/-- The body of `async with session.begin()`. -/
def transaction (execution : Option Text) : Task W D Response := do
  Task.assertActive
  let response ← prepare cfg req
  Task.modifyVars fun v => { v with response := some response }
  if ¬ response.json ∨ response.background then
    Program.raise
      (.runtimeError "Transactional routes require buffered JSON without background tasks.")
  else if 400 ≤ response.status then do
    Task.sessionRollback
    pure response
  else do
    if execution.isSome then IdempotencyExecution.complete cfg response
    Task.flush
    Task.assertActive
    pure response

/-- `handle` between the opening of its resources and their closing. -/
def owned (execution : Option Text) : Task W D Response := do
  let token := (← Task.vars).context
  Task.modifyVars fun v => { v with context := execution, sessionKey := true, listening := true }
  Task.thenAlways (Task.withBegin (transaction cfg req execution))
    (Task.modifyVars fun v => { v with context := token, sessionKey := false, listening := false })

/-- `read_key(request) if policy is not None else None` -/
def key : Except Exc (Option Text) :=
  if req.policy.isSome then readKey req.idempotencyKeys else .ok none

end Request

namespace Task

variable {W D : Type}

/-- `SessionLocal(autobegin=False)` -/
def newSession : Task W D Unit :=
  modifySession fun o =>
    { o with bind := .engine, transaction := .none, connected := false, unflushed := [] }

/-- The end of `async with SessionLocal(…)`, which awaits a shielded task. -/
def closeSession : Task W D Unit := do
  sessionRollback
  let _ ← pause
  pure ()

end Task

variable {W D : Type}

/-- `handle` of a marked route. -/
def handle (cfg : Config) (req : Request W D) : Task W D Response := do
  let v ← Task.vars
  if v.sessionKey then
    Program.raise (.runtimeError "A mutation transaction already owns this request.")
  else do
    Task.assertActive
    Program.modify fun s => { s with activity := { s.activity with ownsMutation := true } }
    let key ← Task.ofExcept req.key
    Task.thenAlways
      (do
        Task.newSession
        let o ← Task.session
        if o.transaction ≠ .none then
          Program.raise (.runtimeError "A mutation requires a fresh transaction owner.")
        else
          match key with
          | some key => pinnedExecution (req.owned cfg (some key))
          | none => req.owned cfg none)
      Task.closeSession

/-- One batch of `_sweep`. -/
def sweepBatch (limit : Nat) : Task W D Nat :=
  Task.thenAlways
    (do
      Task.newSession
      Task.withBegin (IdempotencyRepository.purgeExpiredBatch limit))
    Task.closeSession

/-- The state of a request when it reaches `handle`. -/
def Local.arrive (activity : RequestActivity) (sessionKey : Bool) (context : Option Text) :
    Local W where
  activity := activity
  session :=
    { bind := .engine, transaction := .none, connected := false, unflushed := [],
      invalidated := false, inTransaction := false }
  vars :=
    { sessionKey := sessionKey, context := context, listening := false, scopeHash := none,
      locked := false, uncertain := false, claimed := false, fingerprint := none,
      failed := false, response := none }

end QuickApi.Mutation
