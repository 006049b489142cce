/-
  QuickApi.Mutation.System

  Any number of requests and batches of the cleanup sweep on one database, in
  any order of their steps: an await of one of them comes back, the time
  passes, a request is abandoned, a connection ends, or the server executes
  what a lost connection has still sent.
-/

import QuickApi.Lib.Transition
import QuickApi.Mutation.Server

namespace QuickApi.Mutation

open QuickApi.Fingerprint (Text)
open QuickApi.RequestTimeout (RequestActivity)
open QuickApi.Lib

-- ============================================================================
-- Processes
-- ============================================================================

inductive Job (W D : Type) where
  | request (req : Request W D)
  | sweep (limit : Nat)

namespace Job

variable {W D : Type} (cfg : Config)

def role : Job W D → Role
  | .request req => req.role cfg
  | .sweep _ => .sweep

def guarded : Job W D → Bool
  | .request req => req.guarded
  | .sweep _ => true

def program : Job W D → Task W D (Option Response)
  | .request req => do
      let response ← handle cfg req
      return some response
  | .sweep limit => do
      let _ ← sweepBatch limit
      return none

end Job

/-- A job and what it has come to, with the scope it has arrived in.  `ghost` is what the
    contract follows of it. -/
structure Process (W D : Type) where
  job : Job W D
  /-- `TRANSACTION_SESSION_KEY in request.scope` and the key of the context, on arrival -/
  sessionKey : Bool
  context : Option Text
  tree : Coro (Op W) (Op.Ans D) (Local W) (Except Exc (Option Response))
  /-- the activity, which the transport may abandon during an await -/
  activity : RequestActivity
  connection : Option Nat
  ghost : Ghost W

namespace Process

variable {W D : Type}

/-- A job that arrives with the activity, and a scope, of its request. -/
def start (cfg : Config) (job : Job W D) (activity : RequestActivity) (sessionKey : Bool)
    (context : Option Text) : Process W D where
  job := job
  sessionKey := sessionKey
  context := context
  tree := job.program cfg (.arrive activity sessionKey context)
  activity :=
    (job.program cfg (.arrive activity sessionKey context)).state.activity
  connection := none
  ghost := ⟨activity, false, none, .init (job.role cfg) job.guarded⟩

/-- The transport abandons the request; reading the clock is no await. -/
def abandon (p : Process W D) (reason : String) : Option (Process W D) :=
  match p.tree with
  | .call _ .clock _ => none
  | _ => some { p with activity := p.activity.abandon reason }

/-- Behind the answer to its operation. -/
def resume (p : Process W D) (op : Op W) (a : op.Ans D) (s : Local W)
    (tree : Coro (Op W) (Op.Ans D) (Local W) (Except Exc (Option Response)))
    (connection : Option Nat) : Process W D :=
  { p with
    tree := tree
    activity := tree.state.activity
    connection := connection
    ghost := p.ghost.after op a s }

end Process

-- ============================================================================
-- The system
-- ============================================================================

structure State (W D : Type) where
  server : Server W
  processes : List (Process W D)

inductive Event (W D : Type) where
  | arrive (job : Job W D) (activity : RequestActivity) (sessionKey : Bool)
      (context : Option Text)
  | pass (elapsed : ℚ) (milliseconds : Nat)
  | abandon (i : Nat) (reason : String)
  /-- the operation that mutation `i` awaits comes back -/
  | resume (i : Nat) (a : Answer D)
  | late (c : Nat) (a : Answer D)
  | drop (c : Nat)

namespace State

variable {W D : Type}

def setProcess (s : State W D) (i : Nat) (p : Process W D) : State W D :=
  { s with processes := s.processes.set i p }

def pass (s : State W D) (elapsed : ℚ) (milliseconds : Nat) : State W D :=
  { s with
    server :=
      { s.server with
        monotonic := s.server.monotonic + elapsed
        db := { s.server.db with now := s.server.db.now + milliseconds } } }

/-- The operation of process `p`, with number `i`, comes back. -/
def resume (s : State W D) (i : Nat) (p : Process W D) (a : Answer D) : Option (State W D) :=
  match p.tree with
  | .ret _ _ => none
  | .call l op k =>
      (s.server.perform i p.connection op a).map fun (v, connection, server) =>
        let l := { l with activity := p.activity }
        { server := server
          processes := s.processes.set i (p.resume op v l (k v l) connection) }

def next (cfg : Config) (s : State W D) : Event W D → Option (State W D)
  | .arrive job activity sessionKey context =>
      some
        { s with
          processes := s.processes ++ [Process.start cfg job activity sessionKey context] }
  | .pass elapsed milliseconds =>
      if 0 ≤ elapsed then some (s.pass elapsed milliseconds) else none
  | .abandon i reason =>
      s.processes[i]?.bind fun p => (p.abandon reason).map (s.setProcess i)
  | .resume i a => s.processes[i]?.bind fun p => s.resume i p a
  | .late c a => (s.server.late c a).map fun server => { s with server := server }
  | .drop c => (s.server.drop c).map fun server => { s with server := server }

end State

/-- A server without connections, and records that were stored earlier. -/
def Server.start {W : Type} (now : Nat) (rows : Text → Option IdempotencyORM) (monotonic : ℚ) :
    Server W where
  db := ⟨now, .ofRows rows, fun _ => none, fun _ => false, fun _ => []⟩
  connections := []
  monotonic := monotonic
  history := []

/-- Stored records, each under its key and replayable, and nobody at work yet. -/
def mutationSystem (cfg : Config) (W D : Type) : System (State W D) (Event W D) where
  init s := ∃ now rows monotonic,
    (∀ k r, rows k = some r → Replayable cfg r ∧ r.scopeHash = k) ∧
      s = ⟨.start now rows monotonic, []⟩
  next := State.next cfg

-- ============================================================================
-- A sample
-- ============================================================================

/-- Settings under which all texts have one hash. -/
def sampleConfig : Config where
  appName := ['a']
  database := ['d']
  maxResponseBytes := 65536
  one_le_maxResponseBytes := by decide
  maxResponseBytes_le := le_rfl
  sha256 _ := ['h']
  jsonLoads _ := true

/-- A request with a key, whose endpoint writes once. -/
def sampleRequest : Request Unit Unit where
  idempotencyKeys := [['k']]
  policy := some ⟨['o'], .ok ['p'], .ok ['r']⟩
  dependencies := .ret () (.ok ⟨⟨.null, .null, .null⟩, (), false⟩)
  endpoint _ := .call () (.execute ()) fun _ _ => .ret () (.ok ⟨true, false, 201, []⟩)
  guarded := true
  dependencies_readOnly _ := trivial

/-- The record of its claim. -/
def sampleRecord : IdempotencyORM :=
  .claim ⟨['o'], .ok ['p'], .ok ['r']⟩ ⟨['h'], ['p'], ['r'], ['h']⟩ ['h']

/-- No records, no connections, and nobody at work. -/
def sampleStart : State Unit Unit := ⟨.start 0 (fun _ => none) 0, []⟩

/-- The request arrives and is answered up to its last check of the activity. -/
def sampleChecks : List (Event Unit Unit) :=
  .arrive (.request sampleRequest) .new false none :: .resume 0 .done :: .resume 0 (.connection 0) ::
    (List.replicate 8 (.resume 0 .done) ++ .resume 0 (.data ()) :: List.replicate 2 (.resume 0 .done))

/-- It passes the check, commits its claim and its write, and returns. -/
def sampleFirst : List (Event Unit Unit) :=
  sampleChecks ++ (List.replicate 4 (.resume 0 .done) ++ [.resume 0 (.data ())])

/-- A second request with the same key finds the record and replays it. -/
def sampleSecond : List (Event Unit Unit) :=
  .arrive (.request sampleRequest) .new false none :: .resume 1 .done :: .resume 1 (.connection 0) ::
    (List.replicate 10 (.resume 1 .done) ++ [.resume 1 (.data ())])

theorem sample_init : (mutationSystem sampleConfig Unit Unit).init sampleStart := by
  refine ⟨0, fun _ => none, 0, fun k r hr => ?_, rfl⟩
  cases hr

theorem sample_reachable {es : List (Event Unit Unit)} {s : State Unit Unit}
    (h : (mutationSystem sampleConfig Unit Unit).run sampleStart es = some s) :
    (mutationSystem sampleConfig Unit Unit).Reachable s := ⟨sampleStart, es, sample_init, h⟩

end QuickApi.Mutation
