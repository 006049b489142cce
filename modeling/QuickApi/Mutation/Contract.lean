/-
  QuickApi.Mutation.Contract

  The contract between a mutation and the database: which statements it may
  send, given what the answers so far tell of its connection, and what an
  answer adds to that.  Everything that is proved about the database rests on
  the contract alone, not on the programs that keep it.
-/

import QuickApi.Mutation.Route

namespace QuickApi.Mutation

open QuickApi.Fingerprint (Text)
open QuickApi.RequestTimeout (RequestActivity)
open QuickApi.Lib

-- ============================================================================
-- What the answers tell
-- ============================================================================

/-- What is known of the advisory lock of a connection. -/
inductive LockView where
  | free
  /-- an answer left it open whether the connection has the lock -/
  | asked (name : Text)
  | held (name : Text)
deriving DecidableEq, Repr

/-- A claim of the open transaction: the record inserted, and the response stored in it. -/
structure Claim where
  record : IdempotencyORM
  response : Option (Nat × List UInt8)

/-- What is known of a connection. -/
structure View (W : Type) where
  lock : LockView
  /-- a statement was sent since the last commit or rollback -/
  active : Bool
  claim : Option Claim
  /-- an expired record may have been deleted in the open transaction -/
  cleared : Bool
  /-- the domain's writes in the open transaction -/
  writes : List W

namespace View

variable {W : Type}

def fresh : View W := ⟨.free, false, none, false, []⟩

/-- The transaction is over. -/
def ended (v : View W) : View W :=
  { v with active := false, claim := none, cleared := false, writes := [] }

/-- Behind the answer to a statement. -/
def answered {D : Type} (v : View W) : (st : Stmt W) → st.Value D → View W
  | .getLock name, (acquired : Option Int) =>
      { v with
        active := true
        lock := if acquired = some 1 then .held name
          else if acquired = some 0 then v.lock else .asked name }
  | .releaseLock name, (released : Option Int) =>
      { v with active := true, lock := if released = some 1 then .free else .asked name }
  | .deleteExpired _, _ => { v with active := true, cleared := true }
  | .insert record, _ => { v with active := true, claim := some ⟨record, none⟩ }
  | .complete _ status body, (rowcount : Nat) =>
      { v with
        active := true
        claim := if rowcount = 1
          then v.claim.map fun c => { c with response := some (status, body) } else v.claim }
  | .write w, _ => { v with active := true, writes := v.writes ++ [w] }
  | .commit, _ => v.ended
  | .rollback, _ => v.ended
  | _, _ => { v with active := true }

/-- Behind an error the server gave to a statement: a transaction whose commit or rollback
    fails is over all the same. -/
def failed (v : View W) : Stmt W → View W
  | .getLock name => { v with active := true, lock := .asked name }
  | .releaseLock name => { v with active := true, lock := .asked name }
  | .commit => v.ended
  | .rollback => v.ended
  | _ => { v with active := true }

end View

/-- What a mutation does with the database: one with a key (`scopeHash` is `none` where no
    scope can be computed), one without, or the cleanup sweep. -/
inductive Role where
  | keyed (scopeHash : Option Text)
  | plain
  | sweep
deriving DecidableEq, Repr

def Role.isKeyed : Role → Bool
  | .keyed _ => true
  | _ => false

/-- The scope a request works in. -/
def Request.scope {W D : Type} (cfg : Config) (req : Request W D) : Option Text :=
  match req.key, req.policy with
  | .ok (some key), some policy => (identify cfg policy key).toOption.map Identity.scopeHash
  | _, _ => none

def Request.role {W D : Type} (cfg : Config) (req : Request W D) : Role :=
  match req.key with
  | .ok (some _) => .keyed (req.scope cfg)
  | _ => .plain

/-- What a mutation and its connection have come to. -/
structure Core (W : Type) where
  role : Role
  /-- what runs before the claim changes nothing -/
  guarded : Bool
  /-- a connection was checked out -/
  taken : Bool
  /-- a connection is checked out -/
  out : Bool
  /-- the connection was lost, or its invalidation was started -/
  doomed : Bool
  view : View W
  /-- the domain's writes that were answered, whatever became of them -/
  written : List W
  /-- the last record read by `find` -/
  found : Option (IdempotencyORM × Bool)
  /-- what a commit has made durable: the claim and the writes of the transaction -/
  committed : Option (Option Claim × List W)

namespace Core

variable {W D : Type}

def init (role : Role) (guarded : Bool) : Core W where
  role := role
  guarded := guarded
  taken := false
  out := false
  doomed := false
  view := .fresh
  written := []
  found := none
  committed := none

def answered (c : Core W) (st : Stmt W) (v : st.Value D) : Core W :=
  { c with
    view := c.view.answered st v
    written := match st with
      | .write w => c.written ++ [w]
      | _ => c.written
    found := match st, v with
      | .find _, (found : Option (IdempotencyORM × Bool)) => found
      | _, _ => c.found
    committed := match st with
      | .commit => some (c.view.claim, c.view.writes)
      | _ => c.committed }

def failed (c : Core W) (st : Stmt W) : Core W := { c with view := c.view.failed st }

def lost (c : Core W) : Core W := { c with doomed := true }

/-- A connection that the pool has given out. -/
def connected (c : Core W) : Core W :=
  { c with taken := true, out := true, doomed := false, view := .fresh }

def closed (c : Core W) : Core W := { c with out := false }

end Core

-- ============================================================================
-- What is allowed
-- ============================================================================

/-- A response whose transaction may be committed, given the claim and the writes of it: without
    a claim a keyed transaction has deleted no record. -/
structure Committable {W : Type} (c : Core W) (r : Response) : Prop where
  json : r.json = true
  background : r.background = false
  status : r.status < 400
  claimed : ∀ claim, c.view.claim = some claim → claim.response = some (r.status, r.body)
  kept : c.role.isKeyed = true → c.view.claim = none → c.view.cleared = false
  unclaimed : c.role.isKeyed = true → c.guarded = true → c.view.claim = none → c.view.writes = []
  whole : c.view.writes = c.written

section Allowed

variable {W D : Type}

/-- The statements a mutation may send; `fresh` says that the operation before was a check of
    the activity that passed. -/
def Stmt.Allowed (cfg : Config) (c : Core W) (fresh : Bool) (v : Vars) : Stmt W → Prop
  | .getLock name =>
      c.role = .keyed (some name) ∧ c.view.lock = .free ∧ c.view.claim = none
  | .releaseLock name => c.view.lock = .held name ∧ c.view.active = false
  | .find scopeHash => c.view.lock = .held scopeHash ∧ c.view.claim = none
  | .deleteExpired scopeHash => c.view.lock = .held scopeHash ∧ c.view.claim = none
  | .insert record =>
      c.view.lock = .held record.scopeHash ∧ c.view.claim = none ∧ record.state = .processing
  | .complete scopeHash status body =>
      c.view.lock = .held scopeHash ∧
        (∃ claim, c.view.claim = some claim ∧ claim.record.scopeHash = scopeHash ∧
          claim.response = none) ∧
        validateResponse cfg status body cfg.maxResponseBytes = .ok ()
  | .purgeExpired _ => c.role = .sweep
  | .write _ =>
      c.role ≠ .sweep ∧ c.committed = none ∧
        (c.role.isKeyed = true → c.guarded = true → c.view.claim ≠ none)
  | .read _ => True
  | .commit =>
      c.committed = none ∧
        (c.role = .sweep ∨ fresh = true ∧ ∃ r, v.response = some r ∧ Committable c r)
  | .rollback => True

/-- The operations a mutation may perform. -/
def Op.Allowed (cfg : Config) (c : Core W) (fresh : Bool) (v : Vars) : Op W → Prop
  | .clock => True
  | .checkout => c.taken = false
  | .stmt st => c.out = true ∧ c.doomed = false ∧ st.Allowed cfg c fresh v
  | .invalidate => c.out = true
  | .close =>
      c.out = true ∧
        (c.doomed = false → c.view.lock = .free ∧ (c.role.isKeyed = true → v.failed = false))
  | .pause => True

/-- What the contract follows of a mutation: the activity as it last saw it, whether the
    operation before was a check that passed, the response it had when it sent a commit, and
    the rest. -/
structure Ghost (W : Type) where
  seen : RequestActivity
  fresh : Bool
  sent : Option Response
  core : Core W

/-- Behind the answer `a` to `op`, received in the state `s`. -/
def Ghost.after (g : Ghost W) (op : Op W) (a : op.Ans D) (s : Local W) : Ghost W where
  seen := s.activity
  fresh :=
    match op, a with
    | .clock, (t : ℚ) => decide (s.activity.Active t)
    | _, _ => false
  sent :=
    match op with
    | .stmt .commit => s.vars.response
    | _ => g.sent
  core :=
    match op, a with
    | .checkout, (.ok _ : Reply Unit) => g.core.connected
    | .stmt st, (.ok v : Reply (st.Value D)) => g.core.answered st v
    | .stmt st, (.failed _ : Reply _) => g.core.failed st
    | .stmt _, (.lost _ : Reply _) => g.core.lost
    | .invalidate, _ => g.core.lost
    | .close, _ => g.core.closed
    | _, _ => g.core

/-- During an await others may abandon the activity; nobody touches the rest. -/
def Rely (op : Op W) (s s' : Local W) : Prop :=
  s'.session = s.session ∧ s'.vars = s.vars ∧ s.activity.Later s'.activity ∧
    (op = .clock → s'.activity = s.activity)

/-- The contract of a mutation.  A commit leaves nothing behind that is not flushed. -/
def contract (cfg : Config) : Contract (Op W) (Op.Ans D) (Local W) (Ghost W) where
  allowed g s op :=
    g.seen.Later s.activity ∧ op.Allowed cfg g.core g.fresh s.vars ∧
      (op = .stmt .commit → s.session.unflushed = [])
  rely := Rely
  after := Ghost.after

end Allowed

end QuickApi.Mutation
