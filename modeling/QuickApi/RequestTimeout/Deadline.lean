/-
  QuickApi.RequestTimeout.Deadline

  One request of the timeout middleware (`_RequestDeadline` in
  `app/common/middleware/request_timeout.py`): its fields, and its coroutines
  cut at their awaits.  The reader task and the owner (`run`) each have a
  program counter; the application may have any number of receives and sends
  pending.
-/

import QuickApi.RequestTimeout.Activity
import QuickApi.RequestTimeout.Response

namespace QuickApi.RequestTimeout

-- ============================================================================
-- State
-- ============================================================================

/-- What a coroutine can raise. -/
inductive Exc where
  | cancelled
  | timeoutError
  | osError
  /-- `_StreamDeadlineExceededError` -/
  | streamDeadlineExceeded (detail : String)
  | other (name : String)
deriving DecidableEq, Repr

/-- The outcome of a coroutine that returns nothing. -/
abbrev Outcome := Except Exc Unit

/-- Messages of the server to the application. -/
inductive Inbound where
  | request (body : List UInt8) (moreBody : Bool)
  | disconnect
deriving DecidableEq, Repr

/-- `read_messages` -/
inductive Reader where
  /-- at `await self.receive()` -/
  | receiving
  /-- at `await self.incoming.put(message)`, the queue being full -/
  | putting (m : Inbound)
  | ended (r : Outcome)
deriving Repr

/-- A pending call of `receive_body`. -/
inductive Receiving where
  /-- at `await self.incoming.get()`, with the time its timer fires -/
  | getting (due : ℚ)
  /-- at `await self.interrupted.wait()` -/
  | awaitingInterrupt
deriving DecidableEq, Repr

/-- `run` -/
inductive Owner where
  /-- at `asyncio.wait`, with the time its timer fires -/
  | waiting (due : ℚ)
  /-- at `await work` -/
  | awaitingWork
  /-- at `await self.send(message)` of the 408, with the messages still to be sent -/
  | responding (rest : List Message)
  /-- at `asyncio.gather` of the `finally` block -/
  | cleaning (r : Outcome)
  | ended (r : Outcome)
deriving Repr

inductive Origin where
  | application
  | timeout
deriving DecidableEq, Repr

/-- Who cancelled the work task, and what held then. -/
structure Cancellation where
  byBodyTimer : Bool
  ownsMutation : Bool
  completed : Bool
deriving DecidableEq, Repr

structure RequestDeadline where
  firstBodyTimeout : ℚ
  chunkTimeout : ℚ
  incoming : Option Inbound
  interrupted : Bool
  completed : Bool
  started : Bool
  closed : Bool
  disconnected : Bool
  bodyStarted : Bool
  bodyComplete : Bool
  timeoutDetail : Option String
  activity : RequestActivity
  /-- `abort_request(scope)` was called -/
  aborted : Bool
  reader : Reader
  receiving : List Receiving
  /-- the application's messages whose `await self.send(message)` is pending -/
  sending : List Message
  owner : Owner
  /-- the outcome of the work task once it is done -/
  work : Option Outcome
  /-- `work.cancelling()` -/
  cancelling : Nat
  /-- `time.monotonic()` -/
  now : ℚ
  /-- ghost: how far the application's attempt has come, and its messages -/
  stage : Stage
  attempted : List Message
  /-- ghost: the messages passed to the server -/
  sent : List (Origin × Message)
  /-- ghost: the cancellations of the work task -/
  cancellations : List Cancellation

namespace RequestDeadline

/-- `_RequestDeadline(…)` and the start of `run`. -/
def new (firstBodyTimeout chunkTimeout totalTimeout now : ℚ) (activity : RequestActivity) :
    RequestDeadline where
  firstBodyTimeout := firstBodyTimeout
  chunkTimeout := chunkTimeout
  incoming := none
  interrupted := false
  completed := false
  started := false
  closed := false
  disconnected := false
  bodyStarted := false
  bodyComplete := false
  timeoutDetail := none
  activity :=
    { activity with
      expiresAt := some (match activity.expiresAt with
        | none => now + totalTimeout
        | some e => min e (now + totalTimeout)) }
  aborted := false
  reader := .receiving
  receiving := []
  sending := []
  owner := .waiting (now + totalTimeout)
  work := none
  cancelling := 0
  now := now
  stage := .fresh
  attempted := []
  sent := []
  cancellations := []

variable (d : RequestDeadline)

-- ============================================================================
-- read_messages
-- ============================================================================

/-- `self.disconnected = True`, `abandon('Request disconnected.')`, `self.interrupted.set()` -/
def disconnect : RequestDeadline :=
  { d with
    disconnected := true
    activity := d.activity.abandon "Request disconnected."
    interrupted := true }

/-- The loop body behind `await self.receive()`. -/
def readMessage (m : Inbound) : RequestDeadline :=
  match m with
  | .disconnect =>
      let d := if d.completed then d else d.disconnect
      { d with reader := .ended (.ok ()) }
  | .request .. =>
      if d.incoming = none then { d with incoming := some m, reader := .receiving }
      else { d with reader := .putting m }

/-- `await self.receive()` raised. -/
def readFailed (e : Exc) : RequestDeadline :=
  match e with
  | .osError => { d.disconnect with reader := .ended (.ok ()) }
  | e => { d with reader := .ended (.error e) }

/-- `await self.incoming.put(message)` returned. -/
def putDone (m : Inbound) : RequestDeadline :=
  { d with incoming := some m, reader := .receiving }

-- ============================================================================
-- receive_body
-- ============================================================================

/-- The end of `receive_body` behind `message = await self.incoming.get()`. -/
def receiveGot (m : Inbound) : RequestDeadline :=
  { d with
    incoming := none
    bodyStarted := true
    bodyComplete := match m with
      | .request _ moreBody => !moreBody
      | .disconnect => true }

/-- `budget` -/
def bodyBudget : ℚ := if d.bodyStarted then d.chunkTimeout else d.firstBodyTimeout

/-- `receive_body` up to its first suspension; it returns a message or is pending. -/
def receiveBody : Option Inbound × RequestDeadline :=
  if d.closed ∨ d.disconnected then (some .disconnect, d)
  else if d.bodyComplete then
    if d.interrupted then (some .disconnect, d)
    else (none, { d with receiving := d.receiving ++ [.awaitingInterrupt] })
  else
    match d.incoming with
    | some m => (some m, d.receiveGot m)
    | none => (none, { d with receiving := d.receiving ++ [.getting (d.now + d.bodyBudget)] })

/-- A cancellation of the work task. -/
def noteCancellation (byBodyTimer : Bool) : RequestDeadline :=
  { d with
    cancellations := d.cancellations ++ [⟨byBodyTimer, d.activity.ownsMutation, d.completed⟩] }

/-- The `except TimeoutError` block: `asyncio.timeout` has cancelled the task that receives,
    and the block ends in `raise asyncio.CancelledError`. -/
def receiveTimedOut : RequestDeadline :=
  let detail :=
    if d.bodyStarted then "Request chunk timeout exceeded."
    else "Request first body timeout exceeded."
  { d.noteCancellation true with
    timeoutDetail := some detail
    activity := d.activity.abandon detail
    interrupted := true }

-- ============================================================================
-- send_response
-- ============================================================================

/-- `send_response` up to `await self.send(message)`. -/
def sendResponse (m : Message) : RequestDeadline :=
  if d.closed ∨ d.disconnected ∨ d.completed then d
  else
    { d with
      started := if m.isStart then true else d.started
      sending := d.sending ++ [m]
      sent := d.sent ++ [(.application, m)] }

/-- `await self.send(message)` returned. -/
def sendReturned (m : Message) : RequestDeadline :=
  { d with
    sending := d.sending.erase m
    completed := if m.isFinal then true else d.completed }

/-- `await self.send(message)` raised. -/
def sendFailed (m : Message) (e : Exc) : RequestDeadline :=
  match e with
  | .osError => { d.disconnect with sending := d.sending.erase m }
  | _ => { d with sending := d.sending.erase m }

-- ============================================================================
-- run
-- ============================================================================

/-- `work.cancel()`; a task that is done is not cancelled. -/
def cancelWork : RequestDeadline :=
  if d.work.isSome then d else { d.noteCancellation false with cancelling := d.cancelling + 1 }

/-- `if not self.activity.owns_mutation: work.cancel()` -/
def cancelUnlessOwned : RequestDeadline := if d.activity.ownsMutation then d else d.cancelWork

/-- The `finally` block up to `asyncio.gather`, left with the outcome `r`. -/
def finallyBlock (r : Outcome) : RequestDeadline :=
  let d := { d with closed := true }
  let d :=
    if d.work.isNone then { d with activity := d.activity.abandon "Request interrupted." } else d
  let d := if d.work.isNone ∧ d.cancelling = 0 ∧ ¬ d.activity.ownsMutation then d.cancelWork else d
  { d with
    owner := .cleaning r
    reader := match d.reader with
      | .ended r => .ended r
      | _ => .ended (.error .cancelled) }

/-- `await work` -/
def awaitWork : RequestDeadline :=
  match d.work with
  | some r => d.finallyBlock r
  | none => { d with owner := .awaitingWork }

/-- The branch of an interrupted request without a completed response, `detail` being the
    reason the deadline gives. -/
def expire (detail : String) : RequestDeadline :=
  let d := { d with closed := true, activity := d.activity.abandon detail }
  let d := d.cancelUnlessOwned
  if d.started then
    { d with aborted := true }.finallyBlock (.error (.streamDeadlineExceeded detail))
  else
    match errorResponse 408 detail with
    | [] => d.finallyBlock (.ok ())
    | m :: rest => { d with owner := .responding rest, sent := d.sent ++ [(.timeout, m)] }

/-- `run` behind `asyncio.wait`; `nothing` is `not done`. -/
def afterWait (nothing : Bool) : RequestDeadline :=
  if d.completed then d.awaitWork
  else if d.disconnected then
    let d := { d with aborted := true, closed := true }
    d.cancelUnlessOwned.finallyBlock (.ok ())
  else if d.timeoutDetail.isSome ∨ nothing then
    d.expire (d.timeoutDetail.getD responseDeadlineMessage)
  else
    match d.reader with
    | .ended (.error e) => d.finallyBlock (.error e)
    | _ => d.awaitWork

/-- `await self.send(message)` of the 408 returned. -/
def respondReturned (rest : List Message) : RequestDeadline :=
  match rest with
  | [] => d.finallyBlock (.ok ())
  | m :: rest => { d with owner := .responding rest, sent := d.sent ++ [(.timeout, m)] }

/-- `Task.cancel` of the task that runs `run`, at its current await.  Awaiting a task hands the
    cancellation on to it. -/
def interruptOwner : Option RequestDeadline :=
  match d.owner with
  | .waiting _ => some (d.finallyBlock (.error .cancelled))
  | .awaitingWork =>
      some (if d.work.isSome then d.finallyBlock (.error .cancelled) else d.cancelWork)
  | .responding _ => some (d.finallyBlock (.error .cancelled))
  | .cleaning _ => some { d with owner := .ended (.error .cancelled) }
  | .ended _ => none

end RequestDeadline

end QuickApi.RequestTimeout
