/-
  QuickApi.RequestTimeout.Response

  ASGI response messages and the order in which one response sends them.
  Headers are left out; the body of an error response keeps its status and its
  message and leaves out its timestamp.
-/

import Mathlib.Data.List.Basic

namespace QuickApi.RequestTimeout

/-- The data of a body message: bytes of the application, or a rendered `ErrorResponse`. -/
inductive Data where
  | bytes (b : List UInt8)
  | error (status : Nat) (message : String)
deriving DecidableEq, Repr

inductive Message where
  | start (status : Nat)
  | body (data : Data) (moreBody : Bool)
deriving DecidableEq, Repr

/-- `message["type"] == "http.response.start"` -/
def Message.isStart : Message → Bool
  | .start _ => true
  | .body .. => false

/-- A body without `more_body`. -/
def Message.isFinal : Message → Bool
  | .body _ moreBody => !moreBody
  | .start _ => false

/-- The messages of `error_response(status, message)`. -/
def errorResponse (status : Nat) (message : String) : List Message :=
  [.start status, .body (.error status message) false]

/-- One start, then bodies, the last of them with `more_body` false. -/
def WellFormed (l : List Message) : Prop :=
  ∃ (status : Nat) (chunks : List Data) (data : Data),
    l = .start status :: (chunks.map (.body · true) ++ [.body data false])

/-- How far a response has come. -/
inductive Stage where
  | fresh
  | streaming
  | finished
deriving DecidableEq, Repr

/-- The next message of a well-formed response. -/
def Stage.next : Stage → Message → Option Stage
  | .fresh, .start _ => some .streaming
  | .streaming, .body _ true => some .streaming
  | .streaming, .body _ false => some .finished
  | _, _ => none

/-- The messages sent up to a stage. -/
def Stage.Shape : Stage → List Message → Prop
  | .fresh, l => l = []
  | .streaming, l =>
      ∃ (status : Nat) (chunks : List Data), l = .start status :: chunks.map (.body · true)
  | .finished, l => WellFormed l

theorem Stage.Shape.next {s s' : Stage} {l : List Message} {m : Message} (h : s.Shape l)
    (hm : s.next m = some s') : s'.Shape (l ++ [m]) := by
  cases s with
  | fresh =>
      cases m with
      | start status =>
          obtain rfl := Option.some.inj hm
          exact ⟨status, [], by rw [show l = [] from h]; rfl⟩
      | body data more => cases hm
  | streaming =>
      obtain ⟨status, chunks, rfl⟩ := h
      cases m with
      | start status => cases hm
      | body data more =>
          cases more with
          | true =>
              obtain rfl := Option.some.inj hm
              exact ⟨status, chunks ++ [data], by simp⟩
          | false =>
              obtain rfl := Option.some.inj hm
              exact ⟨status, chunks, data, rfl⟩
  | finished => cases m <;> cases hm

/-- What a stage has seen can be continued to a whole response. -/
theorem Stage.Shape.extends {s : Stage} {l : List Message} (h : s.Shape l) :
    ∃ rest, WellFormed (l ++ rest) := by
  cases s with
  | fresh =>
      obtain rfl : l = [] := h
      exact ⟨errorResponse 408 "", 408, [], _, rfl⟩
  | streaming =>
      obtain ⟨status, chunks, rfl⟩ := h
      exact ⟨[.body (.bytes []) false], status, chunks, .bytes [], rfl⟩
  | finished => exact ⟨[], by rw [List.append_nil]; exact h⟩

theorem wellFormed_errorResponse (status : Nat) (message : String) :
    WellFormed (errorResponse status message) := ⟨status, [], _, rfl⟩

end QuickApi.RequestTimeout
