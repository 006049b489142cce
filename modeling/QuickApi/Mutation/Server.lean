/-
  QuickApi.Mutation.Server

  The database server and the connection pool, as mutations meet them.  Of
  MySQL: transactions are atomic, a locking read sees the latest committed row
  and waits for a row that another transaction has changed, an advisory lock
  belongs to one connection until it is released or the connection ends, which
  rolls back its open transaction, a statement that is refused leaves the
  transaction as it was, and `UTC_TIMESTAMP` does not go backwards.  Of the pool:
  a connection that goes back is rolled back, and one that was invalidated is
  closed.

  Left out is the refusal of InnoDB that ends a transaction, the deadlock
  (`ER_LOCK_DEADLOCK`): code of a route that catches one and goes on would commit
  what it writes behind it without what it wrote before.
-/

import QuickApi.Lib.RowStore
import QuickApi.Mutation.Contract

namespace QuickApi.Mutation

open QuickApi.Fingerprint (Text)
open QuickApi.Lib

-- ============================================================================
-- The database
-- ============================================================================

/-- The database.  Transactions and advisory locks belong to connections, which are numbered. -/
structure Database (W : Type) where
  /-- `UTC_TIMESTAMP(3)`, in milliseconds -/
  now : Nat
  /-- `request_idempotency` -/
  rows : RowStore Text IdempotencyORM Nat
  locks : Text → Option Nat
  /-- a statement was executed since the last commit or rollback -/
  begun : Nat → Bool
  /-- the domain's writes in the open transaction -/
  writes : Nat → List W

/-- What the environment decides about an operation that comes back. -/
inductive Answer (D : Type) where
  /-- the ordinary answer -/
  | done
  /-- an ordinary answer with data of the domain -/
  | data (d : D)
  /-- the rows that a purge has deleted -/
  | purged (scopeHashes : List Text)
  /-- an answer that leaves open whether the connection has the advisory lock -/
  | unconfirmed (value : Option Int) (has : Bool)
  /-- the connection that the pool gives out -/
  | connection (c : Nat)
  | failed (e : Exc)
  | lost (e : Exc)

namespace Database

variable {W D : Type} (db : Database W) (c : Nat)

/-- Connection `c` can have the lock without waiting. -/
def Available (name : Text) : Prop := db.locks name = none ∨ db.locks name = some c

instance (name : Text) : Decidable (db.Available c name) := inferInstanceAs (Decidable (_ ∨ _))

/-- An expired record that no other transaction has changed. -/
def Purgeable (k : Text) : Prop :=
  db.rows.Lockable c k ∧ (db.rows.latest k).any (fun r => decide (r.Expired db.now)) = true

instance (k : Text) : Decidable (db.Purgeable c k) := inferInstanceAs (Decidable (_ ∧ _))

def touch : Database W := { db with begun := Function.update db.begun c true }

def setLock (name : Text) (owner : Option Nat) : Database W :=
  { db with locks := Function.update db.locks name owner }

/-- Locks row `k` and writes or deletes it. -/
def put (k : Text) (row : Option IdempotencyORM) : Database W :=
  { db with rows := (db.rows.lock c k).write k row }

def addWrite (w : W) : Database W :=
  { db with writes := Function.update db.writes c (db.writes c ++ [w]) }

def commit : Database W :=
  { db with
    rows := db.rows.commit c
    begun := Function.update db.begun c false
    writes := Function.update db.writes c [] }

def rollback : Database W :=
  { db with
    rows := db.rows.rollback c
    begun := Function.update db.begun c false
    writes := Function.update db.writes c [] }

/-- The end of the connection. -/
def drop : Database W :=
  { db.rollback c with
    locks := fun name => if db.locks name = some c then none else db.locks name }

/-- `GET_LOCK(name, 0)` -/
def getLock (name : Text) : Option Int × Database W :=
  if db.Available c name then (some 1, (db.touch c).setLock name (some c))
  else (some 0, db.touch c)

/-- `RELEASE_LOCK(name)` -/
def releaseLock (name : Text) : Option Int × Database W :=
  if db.locks name = some c then (some 1, (db.touch c).setLock name none)
  else ((db.locks name).map fun _ => 0, db.touch c)

/-- The locking read; a row that is there stays locked. -/
def find (k : Text) : Option (IdempotencyORM × Bool) × Database W :=
  match db.rows.latest k with
  | none => (none, db.touch c)
  | some r =>
      (some (r, decide (r.Unexpired db.now)), { db.touch c with rows := db.rows.lock c k })

def deleteExpired (k : Text) : Database W :=
  match db.rows.latest k with
  | none => db.touch c
  | some r => if r.Expired db.now then (db.touch c).put c k none else db.touch c

/-- The `UPDATE` of `complete`: how many rows it has changed. -/
def complete (k : Text) (status : Nat) (body : List UInt8) : Nat × Database W :=
  match db.rows.latest k with
  | none => (0, db.touch c)
  | some r =>
      if r.state = .processing then (1, (db.touch c).put c k (some (r.complete status body db.now)))
      else (0, db.touch c)

def purge (ks : List Text) : Database W := ks.foldl (fun db k => db.put c k none) (db.touch c)

/-- A statement that is executed on connection `c`: its value and the database behind it.  One
    that has to wait for a row lock is not executed; which rows a purge deletes is left open. -/
def execute : (st : Stmt W) → Answer D → Option (st.Value D × Database W)
  | .getLock name, .done => some (db.getLock c name)
  | .getLock name, .unconfirmed value has =>
      if value = some 0 ∨ value = some 1 ∨ has = true ∧ ¬ db.Available c name then none
      else some (value, if has then (db.getLock c name).2 else db.touch c)
  | .releaseLock name, .done => some (db.releaseLock c name)
  | .releaseLock name, .unconfirmed value has =>
      if value = some 1 then none
      else some (value, if has then db.touch c else (db.releaseLock c name).2)
  | .find k, .done => if db.rows.Lockable c k then some (db.find c k) else none
  | .deleteExpired k, .done =>
      if db.rows.Lockable c k then some ((), db.deleteExpired c k) else none
  | .insert r, .done =>
      if db.rows.Lockable c r.scopeHash ∧ db.rows.latest r.scopeHash = none then
        some ((), (db.touch c).put c r.scopeHash (some r))
      else none
  | .complete k status body, .done =>
      if db.rows.Lockable c k then some (db.complete c k status body) else none
  | .purgeExpired limit, .purged ks =>
      if ks.Nodup ∧ ks.length ≤ limit ∧ ∀ k ∈ ks, db.Purgeable c k then
        some (ks.length, db.purge c ks)
      else none
  | .write w, .data d => some (d, (db.touch c).addWrite c w)
  | .read _, .data d => some (d, db.touch c)
  | .commit, .done => some ((), db.commit c)
  | .rollback, .done => some ((), db.rollback c)
  | _, _ => none

/-- A statement that the server refuses changes nothing (no deadlock is among these), but a
    commit or rollback that fails ends the transaction without its changes. -/
def refuse : Stmt W → Database W
  | .commit => db.rollback c
  | .rollback => db.rollback c
  | _ => db.touch c

@[simp] theorem touch_begun : (db.touch c).begun c = true := by
  show Function.update db.begun c true c = true
  rw [Function.update_self]

@[simp] theorem addWrite_writes (w : W) : (db.addWrite c w).writes c = db.writes c ++ [w] := by
  show Function.update db.writes c (db.writes c ++ [w]) c = db.writes c ++ [w]
  rw [Function.update_self]

@[simp] theorem commit_begun : (db.commit c).begun c = false := by
  show Function.update db.begun c false c = false
  rw [Function.update_self]

@[simp] theorem commit_writes : (db.commit c).writes c = [] := by
  show Function.update db.writes c [] c = []
  rw [Function.update_self]

@[simp] theorem rollback_begun : (db.rollback c).begun c = false := by
  show Function.update db.begun c false c = false
  rw [Function.update_self]

@[simp] theorem rollback_writes : (db.rollback c).writes c = [] := by
  show Function.update db.writes c [] c = []
  rw [Function.update_self]

theorem setLock_locks (name : Text) (owner : Option Nat) (j : Text) :
    (db.setLock name owner).locks j = if j = name then owner else db.locks j :=
  Function.update_apply ..

theorem put_owner (k : Text) (row : Option IdempotencyORM) (j : Text) :
    (db.put c k row).rows.owner j = if j = k then some c else db.rows.owner j :=
  RowStore.lock_owner c k j

theorem put_latest (k : Text) (row : Option IdempotencyORM) (j : Text) :
    (db.put c k row).rows.latest j = if j = k then row else db.rows.latest j :=
  RowStore.write_latest k j row

end Database

-- ============================================================================
-- Connections
-- ============================================================================

/-- Who has a physical connection. -/
inductive Holder (W : Type) where
  | pool
  /-- the mutation with number `i` -/
  | mutation (i : Nat)
  /-- nobody: mutation `i` has lost or invalidated it; a statement may still be on its way -/
  | orphan (i : Nat) (sent : Option (Stmt W))

/-- A physical connection; the server may have ended it before its holder notices. -/
structure Connection (W : Type) where
  holder : Holder W
  alive : Bool

/-- A transaction that was committed, and the records before and behind it. -/
structure Commit (W : Type) where
  mutation : Nat
  time : Nat
  writes : List W
  before : Text → Option IdempotencyORM
  after : Text → Option IdempotencyORM

/-- The server, the pool and the clock. -/
structure Server (W : Type) where
  db : Database W
  connections : List (Connection W)
  /-- `time.monotonic()` -/
  monotonic : ℚ
  history : List (Commit W)

namespace Server

variable {W D : Type} (sv : Server W) (i c : Nat)

def setDatabase (db : Database W) : Server W := { sv with db := db }

def setConnection (k : Connection W) : Server W :=
  { sv with connections := sv.connections.set c k }

/-- Executes a statement of mutation `i` on connection `c`; a commit is recorded. -/
def execute (st : Stmt W) (a : Answer D) : Option (st.Value D × Server W) :=
  (sv.db.execute c st a).map fun (v, db) =>
    (v,
      match st with
      | .commit =>
          { sv with
            db := db
            history := sv.history ++
              [⟨i, db.now, sv.db.writes c, sv.db.rows.committed, db.rows.committed⟩] }
      | _ => sv.setDatabase db)

/-- A statement sent by its holder: lost, or refused or executed by a live connection. -/
def exchange (st : Stmt W) (k : Connection W) :
    Answer D → Option (Reply (st.Value D) × Server W)
  | .lost e => some (.lost e, sv.setConnection c { k with holder := .orphan i (some st) })
  | .failed e =>
      if k.alive then some (.failed e, sv.setDatabase (sv.db.refuse c st)) else none
  | a => if k.alive then (sv.execute i c st a).map fun (v, sv) => (.ok v, sv) else none

/-- The mutation no longer uses the connection. -/
def invalidate (k : Connection W) : Server W :=
  match k.holder with
  | .mutation i => sv.setConnection c { k with holder := .orphan i none }
  | _ => sv

/-- The connection goes back to the pool, unless it is an orphan. -/
def release (k : Connection W) : Server W :=
  match k.holder with
  | .mutation _ =>
      (sv.setConnection c { k with holder := .pool }).setDatabase (sv.db.rollback c)
  | _ => sv

/-- The pool gives out a connection of its own or a new one. -/
def checkout : Option (Server W) :=
  match sv.connections[c]? with
  | none =>
      if c = sv.connections.length then
        some { sv with connections := sv.connections ++ [⟨.mutation i, true⟩] }
      else none
  | some k =>
      match k.holder with
      | .pool => some (sv.setConnection c { k with holder := .mutation i })
      | _ => none

/-- How an operation that is not a statement comes back, if not by a value. -/
def reply : Answer D → Option (Reply Unit)
  | .done => some (.ok ())
  | .failed e => some (.failed e)
  | .lost e => some (.lost e)
  | _ => none

/-- An operation of mutation `i`, which works on the connection `conn`: its answer, the
    connection behind it and the server. -/
def perform (conn : Option Nat) : (op : Op W) → Answer D → Option (op.Ans D × Option Nat × Server W)
  | .clock, .done => some (sv.monotonic, conn, sv)
  | .checkout, .connection c => (sv.checkout i c).map fun sv => (.ok (), some c, sv)
  | .checkout, .failed e => some (.failed e, conn, sv)
  | .checkout, .lost e => some (.lost e, conn, sv)
  | .stmt st, a => do
      let c ← conn
      let k ← sv.connections[c]?
      match k.holder with
      | .mutation _ => (sv.exchange i c st k a).map fun (r, sv) => (r, some c, sv)
      | _ => none
  | .invalidate, a => do
      let c ← conn
      let k ← sv.connections[c]?
      let r ← reply a
      return (r, some c, sv.invalidate c k)
  | .close, a => do
      let c ← conn
      let k ← sv.connections[c]?
      let r ← reply a
      return (r, none, sv.release c k)
  | .pause, .data d => some (.ok d, conn, sv)
  | .pause, .failed e => some (.failed e, conn, sv)
  | .pause, .lost e => some (.lost e, conn, sv)
  | _, _ => none

/-- The server executes what an orphan has still sent. -/
def late (a : Answer D) : Option (Server W) := do
  let k ← sv.connections[c]?
  match k.holder, k.alive with
  | .orphan i (some st), true =>
      (sv.execute i c st a).map fun (_, sv) =>
        sv.setConnection c { k with holder := .orphan i none }
  | _, _ => none

/-- The server ends a connection. -/
def drop : Option (Server W) := do
  let k ← sv.connections[c]?
  return (sv.setConnection c { k with alive := false }).setDatabase (sv.db.drop c)

end Server

end QuickApi.Mutation
