/-
  QuickApi.Mutation.Execution

  The keyed execution of a mutation: `IdempotencyRepository`
  (`app/database/repositories/idempotency_repo.py`), `IdempotencyExecution` and
  `pinned_execution` (`app/common/services/idempotency_service.py`).
-/

import QuickApi.Mutation.Session

namespace QuickApi.Mutation

open QuickApi.Fingerprint (Text Value)
open QuickApi.Lib

-- ============================================================================
-- IdempotencyRepository
-- ============================================================================

namespace IdempotencyRepository

variable {W D : Type}

/-- `require_transaction` -/
def requireTransaction : Task W D Unit := do
  let o ← Task.session
  if o.transaction = .none then
    Program.raise (.runtimeError "Idempotency writes require an active transaction.")
  else pure ()

/-- `find` -/
def find (scopeHash : Text) : Task W D (Option (IdempotencyORM × Bool)) := do
  requireTransaction
  Task.sessionExecute (.find scopeHash)

/-- `claim` -/
def claim (record : IdempotencyORM) : Task W D Unit := do
  requireTransaction
  Task.add (.claim record)
  Task.flush

/-- `delete_expired` -/
def deleteExpired (scopeHash : Text) : Task W D Unit := do
  requireTransaction
  Task.sessionExecute (.deleteExpired scopeHash)

/-- `complete` -/
def complete (scopeHash : Text) (status : Nat) (body : List UInt8) : Task W D Unit := do
  requireTransaction
  let (rowcount : Nat) ← Task.sessionExecute (.complete scopeHash status body)
  if rowcount = 1 then pure ()
  else Program.raise (.runtimeError "Only a processing idempotency claim can be completed.")

/-- `purge_expired_batch` -/
def purgeExpiredBatch (limit : Nat) : Task W D Nat := do
  requireTransaction
  if 1 ≤ limit ∧ limit ≤ 1000 then Task.sessionExecute (.purgeExpired limit)
  else Program.raise (.valueError "Idempotency cleanup batch must contain 1–1000 rows.")

end IdempotencyRepository

-- ============================================================================
-- IdempotencyExecution
-- ============================================================================

/-- The validated inputs of a keyed endpoint, normalized. -/
structure Inputs where
  body : Value
  params : Value
  query : Value

def Inputs.value (i : Inputs) : Value :=
  .dict [("body".toList, i.body), ("params".toList, i.params), ("query".toList, i.query)]

namespace IdempotencyExecution

variable {W D : Type}

/-- The block `if existing:` of `begin`: a response to replay, or an expired record that is
    deleted. -/
def examine (cfg : Config) (scopeHash fingerprint : Text) :
    Option (IdempotencyORM × Bool) → Task W D (Option (Nat × List UInt8))
  | none => pure none
  | some (record, unexpired) => do
      match ← Task.ofExcept (checkRecord cfg record unexpired fingerprint) with
      | some replay => pure (some replay)
      | none => do
          IdempotencyRepository.deleteExpired scopeHash
          pure none

/-- The part of `begin` behind the lock: replays the record it finds, or claims the scope. -/
def beginLocked (cfg : Config) (policy : Policy) (identity : Identity) (fingerprint : Text) :
    Task W D (Option (Nat × List UInt8)) := do
  Task.assertActive
  let existing ← IdempotencyRepository.find identity.scopeHash
  match ← examine cfg identity.scopeHash fingerprint existing with
  | some replay => pure (some replay)
  | none => do
      IdempotencyRepository.claim (.claim policy identity fingerprint)
      Task.modifyVars fun v => { v with claimed := true }
      Task.assertActive
      pure none

/-- `begin` -/
def begin (cfg : Config) (policy : Policy) (key : Text) (inputs : Inputs) :
    Task W D (Option (Nat × List UInt8)) := do
  Task.assertActive
  let identity ← Task.ofExcept (identify cfg policy key)
  Task.modifyVars fun v => { v with scopeHash := some identity.scopeHash }
  let fingerprint ← Task.ofExcept (digest cfg inputs.value)
  Task.modifyVars fun v => { v with fingerprint := some fingerprint, uncertain := true }
  let (acquired : Option Int) ← Task.sessionExecute (.getLock identity.scopeHash)
  if acquired ≠ some 0 ∧ acquired ≠ some 1 then
    Program.raise (.runtimeError "Unable to establish idempotency lock ownership.")
  else do
    Task.modifyVars fun v => { v with uncertain := false }
    if acquired = some 0 then
      Program.raise (.http 409 "This idempotent request is already processing.")
    else do
      Task.modifyVars fun v => { v with locked := true }
      beginLocked cfg policy identity fingerprint

/-- `complete` -/
def complete (cfg : Config) (response : Response) : Task W D Unit := do
  let v ← Task.vars
  if v.claimed then do
    Task.assertActive
    match v.scopeHash with
    | none => Program.raise (.runtimeError "Missing idempotency scope.")
    | some scopeHash => do
        Task.ofExcept
          (validateResponse cfg response.status response.body cfg.maxResponseBytes)
        IdempotencyRepository.complete scopeHash response.status response.body
  else pure ()

/-- `connection.scalar(RELEASE_LOCK)`; a statement of the connection begins a transaction. -/
def releaseLock (name : Text) : Task W D Unit := do
  Task.modifySession fun o => { o with inTransaction := true }
  let (released : Option Int) ← Task.execute (.releaseLock name)
  if released = some 1 then pure ()
  else Program.raise (.runtimeError "Unable to confirm idempotency lock release.")

/-- `release` -/
def release (failed : Bool) : Task W D Unit :=
  Task.thenAlways
    (Program.handle
      (do
        let v ← Task.vars
        let o ← Task.session
        if v.uncertain ∨ o.invalidated ∨ o.inTransaction then Task.invalidate
        else if v.locked then releaseLock (v.scopeHash.getD [])
        else pure ())
      fun e => do
        Task.invalidate
        if failed then pure () else Program.raise e)
    (do
      let o ← Task.session
      if failed ∧ ¬ o.invalidated then Task.invalidate else pure ())

end IdempotencyExecution

-- ============================================================================
-- pinned_execution
-- ============================================================================

variable {W D α : Type}

/-- `async with pinned_execution(…)` around `body`.  The connection is closed by
    `engine.connect()`. -/
def pinnedExecution (body : Task W D α) : Task W D α := do
  let o ← Task.session
  if o.bind ≠ .engine then
    Program.raise
      (.runtimeError "Idempotent HTTP execution requires a request-owned engine session.")
  else do
    Task.checkout
    Task.thenAlways
      (do
        Task.modifySession fun o => { o with bind := .connection }
        Task.modifyVars fun v =>
          { v with scopeHash := none, locked := false, uncertain := false, claimed := false,
                   failed := true }
        Program.finallyDo
          (do
            let a ← body
            Task.modifyVars fun v => { v with failed := false }
            pure a)
          fun _ => do
            let v ← Task.vars
            Task.thenAlways (IdempotencyExecution.release v.failed)
              (Task.modifySession fun o => { o with bind := .engine }))
      Task.close

end QuickApi.Mutation
