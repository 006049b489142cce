/-
  QuickApi.Mutation.Session

  What a mutation awaits, the state it has of its own, and the database session
  it works with: the documented behaviour of SQLAlchemy's `AsyncSession`
  (`autobegin=False`, `autoflush=False`) and `AsyncConnection`, as far as
  `ApplicationRoute` and `IdempotencyExecution` rely on it.  `W` are the domain's
  SQL statements, `D` the data they and other awaits give back.
-/

import QuickApi.Lib.Coroutine
import QuickApi.Mutation.Record
import QuickApi.RequestTimeout.Activity

namespace QuickApi.Mutation

open QuickApi.Fingerprint (Text)
open QuickApi.RequestTimeout (RequestActivity responseDeadlineMessage)
open QuickApi.Lib

-- ============================================================================
-- Operations
-- ============================================================================

/-- Statements on a connection. -/
inductive Stmt (W : Type) where
  /-- `SELECT GET_LOCK(:name, 0)` -/
  | getLock (name : Text)
  /-- `SELECT RELEASE_LOCK(:name)` -/
  | releaseLock (name : Text)
  /-- `find`: the record and `expires_at > UTC_TIMESTAMP(3)`, `FOR UPDATE` -/
  | find (scopeHash : Text)
  | deleteExpired (scopeHash : Text)
  | insert (record : IdempotencyORM)
  /-- the `UPDATE` of `complete` -/
  | complete (scopeHash : Text) (status : Nat) (body : List UInt8)
  /-- the `DELETE` of `purge_expired_batch` -/
  | purgeExpired (limit : Nat)
  /-- statements of the domain, which change rows or only read them -/
  | write (w : W)
  | read (w : W)
  | commit
  | rollback
deriving DecidableEq

/-- The result of a statement. -/
def Stmt.Value {W : Type} (D : Type) : Stmt W → Type
  | .getLock _ => Option Int
  | .releaseLock _ => Option Int
  | .find _ => Option (IdempotencyORM × Bool)
  | .complete _ _ _ => Nat
  | .purgeExpired _ => Nat
  | .write _ => D
  | .read _ => D
  | _ => Unit

/-- The operations of a mutation.  All but `clock` suspend the task. -/
inductive Op (W : Type) where
  /-- `time.monotonic()` -/
  | clock
  /-- a connection from the pool -/
  | checkout
  | stmt (st : Stmt W)
  /-- `AsyncConnection.invalidate()` -/
  | invalidate
  /-- the connection goes back to the pool, or is discarded if it is invalid -/
  | close
  /-- any other await: a body message, another service, a thread -/
  | pause
deriving DecidableEq

/-- What an await comes back with.  `lost` is a cancellation or a lost connection during the
    exchange with the server: it is not known whether the server has acted. -/
inductive Reply (α : Type) where
  | ok (a : α)
  | failed (e : Exc)
  | lost (e : Exc)

def Op.Ans {W : Type} (D : Type) : Op W → Type
  | .clock => ℚ
  | .stmt st => Reply (st.Value D)
  | .pause => Reply D
  | _ => Reply Unit

-- ============================================================================
-- State
-- ============================================================================

inductive Bind where
  | engine
  | connection
deriving DecidableEq, Repr

/-- `session._transaction`: absent, active, or waiting for a rollback behind a failed flush. -/
inductive SessionTransaction where
  | none
  | active
  | deactive
deriving DecidableEq, Repr

/-- An object that the next flush inserts or updates. -/
inductive Pending (W : Type) where
  | domain (w : W)
  | claim (record : IdempotencyORM)

/-- The session of a mutation and the connection it works on. -/
structure SessionState (W : Type) where
  bind : Bind
  transaction : SessionTransaction
  /-- the session's transaction has begun on a connection -/
  connected : Bool
  unflushed : List (Pending W)
  /-- `connection.invalidated` -/
  invalidated : Bool
  /-- `connection.in_transaction()` -/
  inTransaction : Bool

/-- What else a mutation keeps. -/
structure Vars where
  /-- `TRANSACTION_SESSION_KEY in request.scope` -/
  sessionKey : Bool
  /-- `execution_context`: the key of the execution -/
  context : Option Text
  /-- the `after_begin` listener is registered -/
  listening : Bool
  /-- the fields of `IdempotencyExecution` -/
  scopeHash : Option Text
  locked : Bool
  uncertain : Bool
  claimed : Bool
  /-- the local variables `fingerprint` of `begin`, `failed` of `pinned_execution` and
      `response` of `handle` -/
  fingerprint : Option Text
  failed : Bool
  response : Option Response

/-- The state of a mutation: the activity it shares with the transport, and its own. -/
structure Local (W : Type) where
  activity : RequestActivity
  session : SessionState W
  vars : Vars

/-- A program of a mutation. -/
abbrev Task (W D α : Type) : Type := Program (Op W) (Op.Ans D) (Local W) Exc α

namespace Task

variable {W D α : Type}

def session : Task W D (SessionState W) := do
  let s ← Program.get
  return s.session

def vars : Task W D Vars := do
  let s ← Program.get
  return s.vars

def modifySession (f : SessionState W → SessionState W) : Task W D Unit :=
  Program.modify fun s => { s with session := f s.session }

def modifyVars (f : Vars → Vars) : Task W D Unit :=
  Program.modify fun s => { s with vars := f s.vars }

def ofExcept : Except Exc α → Task W D α
  | .ok a => pure a
  | .error e => Program.raise e

/-- `p`, then `q` also where `p` raises. -/
def thenAlways (p : Task W D α) (q : Task W D Unit) : Task W D α := p.finallyDo fun _ => q

/-- Takes a reply; `onLost` is what happens where it is lost. -/
def settle (onLost : Task W D Unit) (p : Task W D (Reply α)) : Task W D α := do
  match ← p with
  | .ok a => pure a
  | .failed e => Program.raise e
  | .lost e => do
      onLost
      Program.raise e

/-- Any other await. -/
def pause : Task W D D := settle (pure ()) (Program.perform Op.pause)

-- ============================================================================
-- request_activity
-- ============================================================================

/-- `time.monotonic()` -/
def monotonic : Task W D ℚ := Program.perform Op.clock

/-- `assert_active` behind the reading `now` of the clock. -/
def assertActiveAt (now : ℚ) : Task W D Unit := do
  let s ← Program.get
  let (detail, activity) := s.activity.assertActive now
  Program.modify fun s => { s with activity := activity }
  match detail with
  | none => pure ()
  | some detail => Program.raise (.requestExpired detail)

/-- `activity.assert_active()` -/
def assertActive : Task W D Unit := do
  let s ← Program.get
  match s.activity.abandoned with
  | some reason => Program.raise (.requestExpired reason)
  | none => do
      let now ← monotonic
      assertActiveAt now

-- ============================================================================
-- AsyncConnection
-- ============================================================================

/-- A connection of the pool. -/
def checkout : Task W D Unit := do
  settle (pure ()) (Program.perform Op.checkout)
  modifySession fun o => { o with invalidated := false, inTransaction := false }

/-- A statement on the connection; a lost exchange invalidates it, and an invalid connection
    takes no more statements. -/
def execute (st : Stmt W) : Task W D (st.Value D) := do
  let o ← session
  if o.invalidated then
    Program.raise (.invalidRequest "Can't reconnect until invalid transaction is rolled back.")
  else settle (modifySession fun o => { o with invalidated := true }) (Program.perform (Op.stmt st))

/-- `connection.invalidate()` -/
def invalidate : Task W D Unit := do
  let o ← session
  if o.invalidated then pure ()
  else
    settle (modifySession fun o => { o with invalidated := true }) (Program.perform Op.invalidate)
    modifySession fun o => { o with invalidated := true }

/-- `connection.close()` -/
def close : Task W D Unit := settle (pure ()) (Program.perform Op.close)

/-- The rollback of the connection's transaction; it is over for the connection also where the
    statement raises, and an invalid connection has nothing to roll back. -/
def rollbackConnection : Task W D Unit :=
  thenAlways
    (do
      let o ← session
      if o.invalidated then pure () else execute .rollback)
    (modifySession fun o => { o with inTransaction := false })

-- ============================================================================
-- AsyncSession
-- ============================================================================

/-- `Session._connection_for_bind`: the first use of a transaction takes a connection, begins
    on it and dispatches `after_begin`. -/
def connect : Task W D Unit := do
  let o ← session
  match o.transaction with
  | .none => Program.raise (.invalidRequest "Autobegin is disabled on this Session.")
  | .deactive =>
      Program.raise (.invalidRequest "This Session's transaction has been rolled back.")
  | .active =>
      if o.connected then pure ()
      else do
        if o.bind = .engine then checkout
        modifySession fun o => { o with connected := true, inTransaction := true }
        let v ← vars
        if v.listening then assertActive

/-- `session.execute(…)` -/
def sessionExecute (st : Stmt W) : Task W D (st.Value D) := do
  connect
  execute st

/-- The end of the session's transaction: a connection of its own is closed. -/
def leave : Task W D Unit := do
  let o ← session
  modifySession fun o => { o with transaction := .none, connected := false, unflushed := [] }
  if o.connected ∧ o.bind = .engine then close

/-- `session.rollback()` -/
def sessionRollback : Task W D Unit := do
  let o ← session
  match o.transaction with
  | .none => pure ()
  | .deactive => leave
  | .active => thenAlways (if o.connected then rollbackConnection else pure ()) leave

/-- `session.commit()`; where it fails, the transaction is given up. -/
def sessionCommit : Task W D Unit := do
  let o ← session
  thenAlways
    (if o.connected then
      thenAlways (execute .commit) (modifySession fun o => { o with inTransaction := false })
    else pure ())
    leave

/-- What one object emits. -/
def emit : Pending W → Task W D Unit
  | .domain w => do
      let _ ← sessionExecute (.write w)
      pure ()
  | .claim record => sessionExecute (.insert record)

def emitAll : List (Pending W) → Task W D Unit
  | [] => pure ()
  | p :: ps => do
      emit p
      emitAll ps

/-- `session.flush()`; a flush that fails rolls the transaction back and leaves it deactive. -/
def flush : Task W D Unit := do
  let o ← session
  if o.unflushed.isEmpty then pure ()
  else
    match o.transaction with
    | .none => Program.raise (.invalidRequest "Autobegin is disabled on this Session.")
    | .deactive =>
        Program.raise (.invalidRequest "This Session's transaction has been rolled back.")
    | .active =>
        Program.handle
          (do
            emitAll o.unflushed
            modifySession fun o => { o with unflushed := [] })
          fun e => do
            let o ← session
            thenAlways (if o.connected then rollbackConnection else pure ())
              (modifySession fun o => { o with transaction := .deactive, unflushed := [] })
            Program.raise e

/-- `session.add(…)` -/
def add (p : Pending W) : Task W D Unit :=
  modifySession fun o => { o with unflushed := o.unflushed ++ [p] }

/-- `async with session.begin()`: commits behind a body that returns in an active transaction,
    rolls back behind one that raises. -/
def withBegin (body : Task W D α) : Task W D α := do
  modifySession fun o => { o with transaction := .active }
  body.finallyDo fun r => do
    let o ← session
    match r, o.transaction with
    | .ok _, .active => sessionCommit
    | _, _ => sessionRollback

end Task

end QuickApi.Mutation
