/-
  QuickApi.RequestTimeout.System

  The runs of one request of the timeout middleware: the server's messages and
  failures, every await of the application, the reader and the owner, the clock,
  and the cancellation of the owner may come in any order.
-/

import QuickApi.Lib.Transition
import QuickApi.RequestTimeout.Deadline

namespace QuickApi.RequestTimeout

open QuickApi.Lib

inductive Event where
  /-- `time.monotonic()` reads `t` from now on -/
  | tick (t : ℚ)
  /-- the reader's `await self.receive()` returns, raises; its `put` returns -/
  | serverMessage (m : Inbound)
  | readFailed (e : Exc)
  | putDone
  /-- the application calls `receive_body`; its pending call `i` goes on -/
  | receive
  | receiveGot (i : Nat)
  | receiveTimedOut (i : Nat)
  | interruptSeen (i : Nat)
  | receiveCancelled (i : Nat)
  /-- the application calls `send_response`; its pending send of `m` returns, raises -/
  | send (m : Message)
  | sendReturned (m : Message)
  | sendFailed (m : Message) (e : Exc)
  /-- the application calls `assert_active`, sets `owns_mutation`, is done -/
  | assertActive
  | ownMutation
  | finish (r : Outcome)
  /-- `asyncio.wait` returns; the flags say whether the two watchers are done -/
  | wake (interruptedDone completedDone : Bool)
  | workObserved
  | respondReturned
  | respondFailed (e : Exc)
  | interruptOwner
  | cleanupDone
deriving Repr

namespace RequestDeadline

/-- `done` is empty behind `asyncio.wait`. -/
def NothingDone (d : RequestDeadline) (interruptedDone completedDone : Bool) : Prop :=
  d.work = none ∧ (∀ r, d.reader ≠ .ended r) ∧ interruptedDone = false ∧ completedDone = false

instance (d : RequestDeadline) (i c : Bool) : Decidable (d.NothingDone i c) :=
  match hw : d.work, hr : d.reader with
  | some _, _ => isFalse (by simp [NothingDone, hw])
  | none, .ended _ => isFalse (by simp [NothingDone, hr])
  | none, .receiving => decidable_of_iff (i = false ∧ c = false) (by simp [NothingDone, hw, hr])
  | none, .putting _ => decidable_of_iff (i = false ∧ c = false) (by simp [NothingDone, hw, hr])

/-- What an event leads to where it can happen. -/
def next (d : RequestDeadline) : Event → Option RequestDeadline
  | .tick t => if d.now ≤ t then some { d with now := t } else none
  | .serverMessage m =>
      match d.reader with
      | .receiving => some (d.readMessage m)
      | _ => none
  | .readFailed e =>
      match d.reader with
      | .receiving => some (d.readFailed e)
      | _ => none
  | .putDone =>
      match d.reader, d.incoming with
      | .putting m, none => some (d.putDone m)
      | _, _ => none
  | .receive => some d.receiveBody.2
  | .receiveGot i =>
      match d.receiving[i]?, d.incoming with
      | some (.getting _), some m =>
          some { d.receiveGot m with receiving := d.receiving.eraseIdx i }
      | _, _ => none
  | .receiveTimedOut i =>
      match d.receiving[i]? with
      | some (.getting due) =>
          if due ≤ d.now then
            some { d.receiveTimedOut with receiving := d.receiving.eraseIdx i }
          else none
      | _ => none
  | .interruptSeen i =>
      match d.receiving[i]? with
      | some .awaitingInterrupt =>
          if d.interrupted then some { d with receiving := d.receiving.eraseIdx i } else none
      | _ => none
  | .receiveCancelled i =>
      if i < d.receiving.length then some { d with receiving := d.receiving.eraseIdx i } else none
  | .send m =>
      match d.stage.next m with
      | some s =>
          let d := { d with stage := s, attempted := d.attempted ++ [m] }
          some (d.sendResponse m)
      | none => none
  | .sendReturned m => if m ∈ d.sending then some (d.sendReturned m) else none
  | .sendFailed m e => if m ∈ d.sending then some (d.sendFailed m e) else none
  | .assertActive => some { d with activity := (d.activity.assertActive d.now).2 }
  | .ownMutation => some { d with activity := { d.activity with ownsMutation := true } }
  | .finish r => if d.work = none then some { d with work := some r } else none
  | .wake interruptedDone completedDone =>
      match d.owner with
      | .waiting due =>
          if (interruptedDone → d.interrupted) ∧ (completedDone → d.completed) then
            if d.NothingDone interruptedDone completedDone then
              if due ≤ d.now then some (d.afterWait true) else none
            else some (d.afterWait false)
          else none
      | _ => none
  | .workObserved =>
      match d.owner, d.work with
      | .awaitingWork, some r => some (d.finallyBlock r)
      | _, _ => none
  | .respondReturned =>
      match d.owner with
      | .responding rest => some (d.respondReturned rest)
      | _ => none
  | .respondFailed e =>
      match d.owner with
      | .responding _ => some (d.finallyBlock (.error e))
      | _ => none
  | .interruptOwner => d.interruptOwner
  | .cleanupDone =>
      match d.owner with
      | .cleaning r => some { d with owner := .ended r }
      | _ => none

end RequestDeadline

/-- The settings and the request that a run starts from. -/
structure Arrival where
  firstBodyTimeout : ℚ
  chunkTimeout : ℚ
  totalTimeout : ℚ
  now : ℚ
  activity : RequestActivity

def Arrival.start (a : Arrival) : RequestDeadline :=
  .new a.firstBodyTimeout a.chunkTimeout a.totalTimeout a.now a.activity

/-- Every request of the middleware. -/
def deadlineSystem : System RequestDeadline Event where
  init d := ∃ a : Arrival, d = a.start
  next := RequestDeadline.next

end QuickApi.RequestTimeout
