/-
  QuickApi.Stack.Pipeline

  The deadline around its work.  The work task is a program that awaits
  `receive_body` and `send_response`; between its steps the server, the reader,
  the owner and the clock take theirs, in any order.
-/

import QuickApi.RequestTimeout.Conclusion
import QuickApi.Stack.Admission

namespace QuickApi.Stack

open QuickApi.Lib
open QuickApi.RequestTimeout (Event RequestDeadline deadlineSystem)

/-- A message of the server, as the layers read it. -/
def inbound : RequestTimeout.Inbound → Inbound
  | .request body moreBody => .request (some body) (some moreBody)
  | .disconnect => .disconnect

/-- What an exception at a send is to the layers. -/
def sendFault : RequestTimeout.Exc → Fault
  | .cancelled => .cancelled
  | .timeoutError => .other "TimeoutError"
  | .osError => .other "OSError"
  | .streamDeadlineExceeded _ => .other "_StreamDeadlineExceededError"
  | .other name => .other name

/-- How a call ends for the task that runs it. -/
def taskOutcome : Except Exc Unit → RequestTimeout.Outcome
  | .ok () => .ok ()
  | .error (.http _ _) => .error (.other "HTTPException")
  | .error (.fault .cancelled) => .error .cancelled
  | .error (.fault (.other name)) => .error (.other name)

/-- `asyncio.CancelledError` -/
def cancelledError : Exc := .fault .cancelled

/-- The events of the deadline that the work task brings about at its awaits and its end. -/
def ofWork : Event → Bool
  | .receive => true
  | .receiveGot _ => true
  | .receiveTimedOut _ => true
  | .interruptSeen _ => true
  | .receiveCancelled _ => true
  | .send _ => true
  | .sendReturned _ => true
  | .sendFailed _ _ => true
  | .finish _ => true
  | _ => false

/-- A request of the deadline middleware: the deadline, what is left of `run_app`, and whether
    that is at the `await` of its operation. -/
structure Pipeline where
  deadline : RequestDeadline
  work : Coro Op Ans Vars (Except Exc Unit)
  awaiting : Bool

/-- Who takes the next step. -/
inductive Move where
  /-- the work task performs its operation; a clock that it asks reads `timestamp` -/
  | work (timestamp : Nat)
  /-- its pending `receive_body` goes on -/
  | received
  | receiveTimedOut
  | interruptSeen
  | receiveCancelled
  /-- its pending `send_response` goes on -/
  | sendReturned
  | sendFailed (e : RequestTimeout.Exc)
  /-- anybody else, and the hold of the router on its activity -/
  | elsewhere (e : Event)

namespace Pipeline

variable (p : Pipeline)

/-- The work task performs its operation: it goes on at once, or suspends. -/
def perform (timestamp : Nat) : Option Pipeline :=
  match p.work with
  | .ret _ r =>
      (p.deadline.next (.finish (taskOutcome r))).map fun d => { p with deadline := d }
  | .call s (.send message) k =>
      (p.deadline.next (.send (shape message))).map fun d =>
        if p.deadline.closed || p.deadline.disconnected || p.deadline.completed then
          ⟨d, k (Except.ok () : Except Fault Unit) s, false⟩
        else ⟨d, p.work, true⟩
  | .call s .receive k =>
      (p.deadline.next .receive).map fun d =>
        match p.deadline.receiveBody.1 with
        | some message => ⟨d, k (Except.ok (inbound message) : Except Exc Inbound) s, false⟩
        | none => ⟨d, p.work, true⟩
  | .call s .timestamp k => some { p with work := k timestamp s }
  | .call s (.log _) k => some { p with work := k () s }
  | .call _ (.admitRequest _) _ => none
  | .call _ .requestId _ => none

/-- The pending `receive_body` ends in the event `e`. -/
def receiveEnds (e : Event) (answer : Except Exc Inbound) : Option Pipeline :=
  match p.awaiting, p.work with
  | true, .call s .receive k => (p.deadline.next e).map fun d => ⟨d, k answer s, false⟩
  | _, _ => none

/-- The pending `send_response` ends in the event `e` of its message. -/
def sendEnds (e : RequestTimeout.Message → Event) (answer : Except Fault Unit) :
    Option Pipeline :=
  match p.awaiting, p.work with
  | true, .call s (.send message) k =>
      (p.deadline.next (e (shape message))).map fun d => ⟨d, k answer s, false⟩
  | _, _ => none

def next : Move → Option Pipeline
  | .work timestamp => if p.awaiting then none else p.perform timestamp
  | .received =>
      p.deadline.incoming.bind fun message =>
        p.receiveEnds (.receiveGot 0) (.ok (inbound message))
  | .receiveTimedOut => p.receiveEnds (.receiveTimedOut 0) (.error cancelledError)
  | .interruptSeen => p.receiveEnds (.interruptSeen 0) (.ok .disconnect)
  | .receiveCancelled => p.receiveEnds (.receiveCancelled 0) (.error cancelledError)
  | .sendReturned => p.sendEnds .sendReturned (.ok ())
  | .sendFailed e => p.sendEnds (.sendFailed · e) (.error (sendFault e))
  | .elsewhere e =>
      if ofWork e then none else (p.deadline.next e).map fun d => { p with deadline := d }

end Pipeline

/-- Every request of the middleware around `run`. -/
def pipelineSystem (run : Task Unit) : System Pipeline Move where
  init p := ∃ (arrival : RequestTimeout.Arrival) (s : Vars), p = ⟨arrival.start, run s, false⟩
  next := Pipeline.next

end QuickApi.Stack
