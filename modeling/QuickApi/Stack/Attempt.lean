/-
  QuickApi.Stack.Attempt

  The layers inside the deadline attempt one well-formed response, whatever the
  router does and however the two channels answer, and the router is called
  with admitted requests only (`gates_attempt_one_response`).
-/

import QuickApi.RequestTimeout.Response
import QuickApi.Stack.Gates

namespace QuickApi.Stack

open QuickApi.Lib
open QuickApi.Cors (Message)
open QuickApi.Exposure (OperationalExposure)
open QuickApi.Fingerprint (decodeUtf8)
open QuickApi.HttpPolicy (HTTPException)
open QuickApi.RequestBody (Channel RequestBodyLimit checkDeclared decodedHeaders limitedReceive)
open QuickApi.RequestTimeout (Stage)

-- ============================================================================
-- The contract of an application
-- ============================================================================

/-- What of a message counts for the order of a response. -/
def shape : Message → RequestTimeout.Message
  | .start status _ => .start status
  | .body data moreBody => .body (.bytes data) moreBody

/-- An application sends the messages of one response in order; nobody else has its variables. -/
def attempt : Contract Op Ans Vars Stage where
  allowed g _ op :=
    match op with
    | .send message => (g.next (shape message)).isSome = true
    | .admitRequest _ => False
    | .requestId => False
    | _ => True
  rely _ s s' := s' = s
  after g op _ _ :=
    match op with
    | .send message => (g.next (shape message)).getD g
    | _ => g

/-- How a router ends: behind a whole response, or with an exception, which is no
    `HTTPException` once the response has started. -/
def Routed : Stage → Vars → Except Exc Unit → Prop
  | g, _, .ok () => g = .finished
  | g, _, .error (.http _ _) => g = .fresh
  | _, _, .error (.fault _) => True

/-- The same, where only a cancellation ends a call without any response. -/
def Settled : Stage → Vars → Except Exc Unit → Prop
  | g, _, .ok () => g = .finished
  | g, _, .error (.http _ _) => g = .fresh
  | g, _, .error (.fault f) => f = .cancelled ∨ g ≠ .fresh

/-- The same without an `HTTPException`. -/
def Served : Stage → Vars → Except Exc Unit → Prop
  | g, _, .ok () => g = .finished
  | _, _, .error (.http _ _) => False
  | g, _, .error (.fault f) => f = .cancelled ∨ g ≠ .fresh

theorem Served.settled {g : Stage} {s : Vars} {r : Except Exc Unit} (h : Served g s r) :
    Settled g s r := by
  rcases r with (exc | f) | u
  · exact h.elim
  · exact h
  · exact h

variable {g n : Stage} {s : Vars}

theorem wp_send {message : Message} {Q : Stage → Vars → Except Exc Unit → Prop}
    (hnext : g.next (shape message) = some n) (hok : Q n s (.ok ()))
    (hfault : ∀ f, Q n s (.error (.fault f))) : (send message).wp attempt g s Q := by
  unfold send
  apply Program.wp_bind.mpr
  apply Program.wp_perform.mpr
  have hafter : attempt.after g (.send message) = fun _ _ => n := by
    show (fun _ _ => (g.next (shape message)).getD g) = _
    rw [hnext]
    rfl
  refine ⟨by show (g.next (shape message)).isSome = true; rw [hnext]; rfl, ?_⟩
  rintro a s' rfl
  rw [hafter]
  obtain f | u := (a : Except Fault Unit)
  · exact hfault f
  · exact hok

theorem wp_receive {Q : Stage → Vars → Except Exc Inbound → Prop}
    (hok : ∀ message, Q g s (.ok message)) (herror : ∀ exc, Q g s (.error exc)) :
    receive.wp attempt g s Q := by
  unfold receive
  apply Program.wp_bind.mpr
  apply Program.wp_perform.mpr
  refine ⟨trivial, ?_⟩
  rintro a s' rfl
  obtain exc | message := (a : Except Exc Inbound)
  · exact herror exc
  · exact hok message

/-- A response behind nothing else. -/
theorem Response.wp_call (response : Response) : response.call.wp attempt .fresh s Served := by
  unfold Response.call
  apply Program.wp_bind.mpr
  apply wp_send (n := .streaming) rfl
  · apply wp_send (n := .finished) rfl
    · exact rfl
    · intro f
      exact .inr nofun
  · intro f
    exact .inr nofun

/-- A router that reads one message and answers it. -/
def answering (response : Response) : Task Unit := do
  let _ ← receive
  response.call

theorem answering_routed (response : Response) : (answering response).wp attempt .fresh s Routed := by
  unfold answering
  apply Program.wp_bind.mpr
  apply wp_receive
  · intro message
    apply Program.wp_mono response.wp_call
    rintro g s ((exc | f) | u) hr
    · exact hr.elim
    · exact trivial
    · exact hr
  · rintro (exc | f)
    · exact rfl
    · exact trivial

/-- Neither the clock nor the log counts for the contract. -/
structure Quiet {γ : Type} (C : Contract Op Ans Vars γ) : Prop where
  rely : ∀ op s s', C.rely op s s' → s' = s
  timestamp : ∀ g s, C.allowed g s .timestamp ∧ ∀ a s', C.after g .timestamp a s' = g
  log : ∀ g s record, C.allowed g s (.log record) ∧ ∀ a s', C.after g (.log record) a s' = g

theorem quiet_attempt : Quiet attempt where
  rely _ _ _ h := h
  timestamp _ _ := ⟨trivial, fun _ _ => rfl⟩
  log _ _ _ := ⟨trivial, fun _ _ => rfl⟩

section Handlers

variable {γ : Type} {C : Contract Op Ans Vars γ} {e : γ}

theorem wp_log {record : LogRecord} {Q : γ → Vars → Except Exc Unit → Prop} (hC : Quiet C)
    (h : Q e s (.ok ())) : (log record).wp C e s Q := by
  obtain ⟨hallowed, hafter⟩ := hC.log e s record
  apply Program.wp_perform.mpr
  refine ⟨hallowed, ?_⟩
  intro a s' hs
  rw [hC.rely _ _ _ hs, hafter]
  exact h

theorem wp_errorResponse {status : Nat} {message : List Char}
    {headers : List (List Char × List Char)} {Q : γ → Vars → Except Exc Response → Prop}
    (hC : Quiet C) (h : ∀ body, Q e s (.ok ⟨status, jsonHeaders status headers body, body⟩)) :
    (errorResponse status message headers).wp C e s Q := by
  obtain ⟨hallowed, hafter⟩ := hC.timestamp e s
  apply Program.wp_bind.mpr
  apply Program.wp_perform.mpr
  refine ⟨hallowed, ?_⟩
  intro a s' hs
  rw [hC.rely _ _ _ hs, hafter]
  exact h _

theorem wp_httpExceptionHandler {exc : HTTPException} {headers : List (List Char × List Char)}
    {Q : γ → Vars → Except Exc Response → Prop} (hC : Quiet C)
    (h : ∀ body, Q e s
      (.ok ⟨exc.statusCode, jsonHeaders exc.statusCode headers body, body⟩)) :
    (httpExceptionHandler exc headers).wp C e s Q := by
  unfold httpExceptionHandler
  split
  · apply Program.wp_bind.mpr
    exact wp_log hC (wp_errorResponse hC h)
  · apply Program.wp_bind.mpr
    exact wp_log hC (wp_errorResponse hC h)

theorem wp_unhandledExceptionHandler {scope : Scope} {Q : γ → Vars → Except Exc Response → Prop}
    (hC : Quiet C) (h : ∀ response, Q e s (.ok response)) :
    (unhandledExceptionHandler scope).wp C e s Q := by
  apply Program.wp_bind.mpr
  exact wp_log hC (wp_errorResponse hC fun _ => h _)

end Handlers

/-- A response that a handler has rendered. -/
theorem wp_respond {p : Task Response}
    (hp : ∀ Q : Stage → Vars → Except Exc Response → Prop, (∀ response, Q .fresh s (.ok response)) →
      p.wp attempt .fresh s Q) : (p >>= Response.call).wp attempt .fresh s Served := by
  apply Program.wp_bind.mpr
  apply hp
  intro response
  exact response.wp_call

/-- The answer to a rejection. -/
theorem wp_rejection {exc : HTTPException} {headers : List (List Char × List Char)} :
    (httpExceptionHandler exc headers >>= Response.call).wp attempt .fresh s Served :=
  wp_respond fun _ hQ => wp_httpExceptionHandler quiet_attempt fun _ => hQ _

/-- A layer that answers rejections lets no `HTTPException` out. -/
theorem wp_answerRejections {run : Task Unit} {Q S : Stage → Vars → Except Exc Unit → Prop}
    (h : run.wp attempt g s Q)
    (hhttp : ∀ g s exc headers, Q g s (.error (.http exc headers)) → g = .fresh)
    (hserved : ∀ g s r, Served g s r → S g s r)
    (hok : ∀ g s, Q g s (.ok ()) → S g s (.ok ()))
    (hfault : ∀ g s f, Q g s (.error (.fault f)) → S g s (.error (.fault f))) :
    (answerRejections run).wp attempt g s S := by
  unfold answerRejections
  apply Program.wp_handle.mpr
  apply Program.wp_mono h
  rintro g s ((⟨exc, headers⟩ | f) | u) hr
  · obtain rfl := hhttp g s exc headers hr
    exact Program.wp_mono wp_rejection hserved
  · exact hfault g s f hr
  · exact hok g s hr

theorem wp_answerRejections_settled {run : Task Unit} (h : run.wp attempt g s Settled) :
    (answerRejections run).wp attempt g s Served :=
  wp_answerRejections h (fun _ _ _ _ hr => hr) (fun _ _ _ hr => hr) (fun _ _ hr => hr)
    fun _ _ _ hr => hr

-- ============================================================================
-- Wrappers keep the order
-- ============================================================================

/-- A wrapper that changes no shape, with `I` between the response and its variables. -/
structure Wrapper.Orderly {τ : Type} (w : Wrapper τ) (I : Stage → τ → Prop) : Prop where
  sameShape : ∀ t message, shape (w.send t message).1 = shape message
  send : ∀ g t message n, I g t → g.next (shape message) = some n → I n (w.send t message).2
  receive : ∀ g t answer, I g t → I g (w.receive t answer).2

variable {τ : Type} {w : Wrapper τ} {I : Stage → τ → Prop}

theorem Wrapper.Orderly.simulates (h : w.Orderly I) :
    w.layer.Simulates attempt attempt fun g' t g => g' = g ∧ I g t := by
  rintro g' t g s op ⟨rfl, hI⟩ hallowed
  cases op with
  | send message =>
      obtain ⟨n, hn⟩ := Option.isSome_iff_exists.mp
        (show (g'.next (shape message)).isSome = true from hallowed)
      refine ⟨?_, ?_⟩
      · show (g'.next (shape (w.send t message).1)).isSome = true
        rw [h.sameShape]
        exact hallowed
      · rintro a s' rfl
        refine ⟨rfl, ?_⟩
        show (g'.next (shape message)).getD g' =
            (g'.next (shape (w.send t message).1)).getD g' ∧
          I ((g'.next (shape (w.send t message).1)).getD g') (w.send t message).2
        rw [h.sameShape, hn]
        exact ⟨rfl, h.send g' t message n hI hn⟩
  | receive =>
      refine ⟨trivial, ?_⟩
      rintro a s' rfl
      exact ⟨rfl, rfl, h.receive g' t a hI⟩
  | admitRequest identity => exact absurd hallowed id
  | requestId => exact absurd hallowed id
  | timestamp =>
      refine ⟨trivial, ?_⟩
      rintro a s' rfl
      exact ⟨rfl, rfl, hI⟩
  | log record =>
      refine ⟨trivial, ?_⟩
      rintro a s' rfl
      exact ⟨rfl, rfl, hI⟩

/-- What holds behind a call holds behind it through a wrapper. -/
theorem wp_wrapped {run : Task Unit} {t : τ} {Q : Stage → Vars → Except Exc Unit → Prop}
    {S : Stage → Vars → Except Exc (Except Exc Unit × τ) → Prop} (h : w.Orderly I) (hI : I g t)
    (hrun : run.wp attempt g s Q) (hS : ∀ g s r t, I g t → Q g s r → S g s (.ok (r, t))) :
    (wrapped w t run).wp attempt g s S := by
  apply Program.wp_mono (Program.wp_through h.simulates hrun ⟨rfl, hI⟩)
  rintro g s r ⟨result, t', g', rfl, ⟨rfl, hI'⟩, hQ⟩
  exact hS g' s result t' hI' hQ

/-- The outcome of a call through a wrapper without variables that count. -/
theorem wp_wrapped_outcome {run : Task Unit} {t : τ}
    {Q : Stage → Vars → Except Exc Unit → Prop} (h : w.Orderly fun _ _ => True)
    (hrun : run.wp attempt g s Q) :
    (do
      let outcome ← wrapped w t run
      ofOutcome outcome.1).wp attempt g s Q := by
  apply Program.wp_bind.mpr
  apply wp_wrapped h trivial hrun
  intro g s r t _ hQ
  rcases r with e | u
  · exact hQ
  · exact hQ

theorem orderly_onSend {f : Message → Message} (hf : ∀ message, shape (f message) = shape message) :
    (Wrapper.onSend f).Orderly fun _ _ => True where
  sameShape _ message := hf message
  send _ _ _ _ _ _ := trivial
  receive _ _ _ _ := trivial

theorem orderly_limitWrapper (maxBytes : Nat) :
    (limitWrapper maxBytes).Orderly fun _ _ => True where
  sameShape t message := by cases message <;> rfl
  send _ _ _ _ _ _ := trivial
  receive _ _ _ _ := trivial

/-- `started` tells whether the response has begun. -/
theorem orderly_sendTracked :
    sendTracked.Orderly fun g started => started = false ↔ g = .fresh where
  sameShape _ _ := rfl
  send g started message n hI hn := by
    have hbegun : n ≠ .fresh := by
      rintro rfl
      cases g <;> cases message <;> rename_i more <;> cases more <;> cases hn
    refine iff_of_false ?_ hbegun
    intro hstarted
    obtain ⟨hbefore, hmessage⟩ : started = false ∧ isStart message = false := by
      simpa [sendTracked] using hstarted
    rw [hI.mp hbefore] at hn
    cases message with
    | start status headers => exact Bool.noConfusion hmessage
    | body data moreBody => cases moreBody <;> cases hn
  receive _ _ _ hI := hI

theorem shape_applyCors (policy : Option Cors.Policy) (method : Bytes) (message : Message) :
    shape (Cors.applyCorsResponseHeaders policy method message) = shape message := by
  cases message <;> rfl

-- ============================================================================
-- Headers that can be decoded
-- ============================================================================

theorem utf8EncodeChar_of_ascii {b : UInt8} (h : b < 128) :
    String.utf8EncodeChar (Char.ofNat b.toNat) = [b] := by
  have hbyte : ∀ n : Fin 128, String.utf8EncodeChar (Char.ofNat n.val) = [UInt8.ofNat n.val] := by
    decide +kernel
  have hb := hbyte ⟨b.toNat, h⟩
  simpa using hb

theorem utf8Encode_of_ascii {data : Bytes} (h : ∀ b ∈ data, b < 128) :
    (data.map fun b => Char.ofNat b.toNat).utf8Encode = ByteArray.mk data.toArray := by
  induction data with
  | nil => rfl
  | cons b data ih =>
      obtain ⟨hb, hrest⟩ := List.forall_mem_cons.mp h
      rw [List.map_cons, List.utf8Encode_cons, List.utf8Encode_singleton,
        utf8EncodeChar_of_ascii hb, ih hrest]
      apply ByteArray.ext
      simp

/-- ASCII is UTF-8. -/
theorem decodeUtf8_of_ascii {data : Bytes} (h : ∀ b ∈ data, b < 128) :
    decodeUtf8 data = some (data.map fun b => Char.ofNat b.toNat) := by
  unfold decodeUtf8
  rw [← utf8Encode_of_ascii h, List.utf8Decode?_utf8Encode]
  rfl

/-- No layer behind the sanitization fails to decode the headers. -/
theorem decodedHeaders_isSome (finalSigma : List Char → List Char → Bool) {scope : CleanScope}
    (http : scope.type = .http) : decodedHeaders finalSigma scope.headers ≠ none := by
  have hheader : ∀ e ∈ scope.headers,
      ((decodeUtf8 e.1).bind fun name =>
        (decodeUtf8 e.2).map fun value => (lower finalSigma name, value)).isSome := by
    intro e he
    have hascii : ∀ b ∈ e.1 ++ e.2, b < 128 := by
      intro b hb
      exact of_decide_eq_true (List.all_eq_true.mp (scope.ascii http e he) b hb)
    rw [decodeUtf8_of_ascii fun b hb => hascii b (List.mem_append_left _ hb),
      decodeUtf8_of_ascii fun b hb => hascii b (List.mem_append_right _ hb)]
    rfl
  unfold decodedHeaders
  rw [Ne, Option.map_eq_none_iff, ← Ne, Option.ne_none_iff_isSome, mapM_isSome_iff]
  exact hheader

end QuickApi.Stack
