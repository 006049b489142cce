/-
  QuickApi.RequestBody.Delivery

  The limit does not depend on how the body is split into messages: what the
  application receives is the body up to the message that crosses the limit,
  and the replay channel returns what was received, once.
-/

import QuickApi.RequestBody.Limit

namespace QuickApi.RequestBody

open QuickApi.Lib
open QuickApi.HttpPolicy (HTTPException)

-- ============================================================================
-- What went through
-- ============================================================================

/-- The messages that the server had for the application. -/
def messages (calls : List Call) : List Message :=
  calls.filterMap fun
    | .receive message => some message
    | .replay => none

/-- What `receive()` returned or raised. -/
def results (outcomes : List Outcome) : List (Except HTTPException Message) :=
  outcomes.filterMap fun
    | .received result => some result
    | .replayed _ => none

/-- The body, as far as the server has sent it. -/
def body (messages : List Message) : Bytes := messages.flatMap Message.chunk

/-- The bytes that the application received. -/
def delivered (outcomes : List Outcome) : Bytes :=
  (results outcomes).flatMap fun
    | .ok message => message.chunk
    | .error _ => []

/-- The bytes that the replay channel returned. -/
def replayed (outcomes : List Outcome) : Bytes :=
  outcomes.flatMap fun
    | .replayed message => message.chunk
    | .received _ => []

/-- What is promised of the calls of an application. -/
structure Delivery (maxBytes : Nat) (calls : List Call) (outcomes : List Outcome)
    (st : Channel) : Prop where
  /-- A message is refused if it has bytes and crosses the limit, or comes behind one that did. -/
  each : results outcomes = (messages calls).mapIdx fun i message =>
    if message.chunk = [] ∨ (body ((messages calls).take (i + 1))).length ≤ maxBytes
    then .ok message else .error (tooLarge maxBytes)
  unmodified : delivered outcomes <+: body (messages calls)
  bounded : (delivered outcomes).length ≤ maxBytes
  whole : delivered outcomes = body (messages calls) ↔ (body (messages calls)).length ≤ maxBytes
  /-- One more replay returns what was delivered and not yet replayed. -/
  replay : replayed outcomes ++ (replayBody st).1.chunk = delivered outcomes

-- ============================================================================
-- One call
-- ============================================================================

theorem limitedReceive_cases (maxBytes : Nat) (st : Channel) (message : Message) :
    (message.chunk = [] ∧ limitedReceive maxBytes st message = (.ok message, st)) ∨
    (message.chunk ≠ [] ∧ maxBytes < st.total + message.chunk.length ∧
      limitedReceive maxBytes st message =
        (.error (tooLarge maxBytes), ⟨st.total + message.chunk.length, st.bodyChunks⟩)) ∨
    (message.chunk ≠ [] ∧ st.total + message.chunk.length ≤ maxBytes ∧
      limitedReceive maxBytes st message =
        (.ok message, ⟨st.total + message.chunk.length, st.bodyChunks ++ [message.chunk]⟩)) := by
  unfold limitedReceive
  split
  · next h => exact .inl ⟨h, rfl⟩
  · next h =>
      dsimp only
      split
      · next hcrosses => exact .inr (.inl ⟨h, hcrosses, rfl⟩)
      · next hfits => exact .inr (.inr ⟨h, Nat.le_of_not_lt hfits, rfl⟩)

theorem replayBody_spec (st : Channel) :
    (replayBody st).1.chunk = st.bodyChunks.flatten ∧ (replayBody st).2 = ⟨st.total, []⟩ := by
  obtain ⟨total, chunks⟩ := st
  unfold replayBody
  split
  · next h =>
      obtain rfl : chunks = [] := h
      exact ⟨rfl, rfl⟩
  · exact ⟨rfl, rfl⟩

theorem serve_receive (maxBytes : Nat) (st : Channel) (message : Message) (calls : List Call) :
    serve maxBytes st (.receive message :: calls) =
      (.received (limitedReceive maxBytes st message).1 ::
        (serve maxBytes (limitedReceive maxBytes st message).2 calls).1,
      (serve maxBytes (limitedReceive maxBytes st message).2 calls).2) := rfl

theorem serve_replay (maxBytes : Nat) (st : Channel) (calls : List Call) :
    serve maxBytes st (.replay :: calls) =
      (.replayed (replayBody st).1 :: (serve maxBytes (replayBody st).2 calls).1,
      (serve maxBytes (replayBody st).2 calls).2) := rfl

@[simp] theorem messages_receive (message : Message) (calls : List Call) :
    messages (.receive message :: calls) = message :: messages calls := rfl

@[simp] theorem messages_replay (calls : List Call) :
    messages (.replay :: calls) = messages calls := rfl

@[simp] theorem results_received (result : Except HTTPException Message)
    (outcomes : List Outcome) :
    results (.received result :: outcomes) = result :: results outcomes := rfl

@[simp] theorem results_replayed (message : Message) (outcomes : List Outcome) :
    results (.replayed message :: outcomes) = results outcomes := rfl

@[simp] theorem body_cons (message : Message) (messages : List Message) :
    body (message :: messages) = message.chunk ++ body messages := List.flatMap_cons

@[simp] theorem delivered_ok (message : Message) (outcomes : List Outcome) :
    delivered (.received (.ok message) :: outcomes) = message.chunk ++ delivered outcomes :=
  List.flatMap_cons

@[simp] theorem delivered_error (exc : HTTPException) (outcomes : List Outcome) :
    delivered (.received (.error exc) :: outcomes) = delivered outcomes := rfl

@[simp] theorem delivered_replayed (message : Message) (outcomes : List Outcome) :
    delivered (.replayed message :: outcomes) = delivered outcomes := rfl

@[simp] theorem replayed_received (result : Except HTTPException Message)
    (outcomes : List Outcome) :
    replayed (.received result :: outcomes) = replayed outcomes := rfl

@[simp] theorem replayed_replayed (message : Message) (outcomes : List Outcome) :
    replayed (.replayed message :: outcomes) = message.chunk ++ replayed outcomes :=
  List.flatMap_cons

-- ============================================================================
-- All calls
-- ============================================================================

/-- Each message is judged by the size of everything up to it. -/
theorem results_serve (maxBytes : Nat) (st : Channel) (calls : List Call) :
    results (serve maxBytes st calls).1 = (messages calls).mapIdx fun i message =>
      if message.chunk = [] ∨ st.total + (body ((messages calls).take (i + 1))).length ≤ maxBytes
      then .ok message else .error (tooLarge maxBytes) := by
  induction calls generalizing st with
  | nil => rfl
  | cons call calls ih =>
      cases call with
      | replay =>
          rw [serve_replay, results_replayed, messages_replay, ih, (replayBody_spec st).2]
      | receive message =>
          rw [serve_receive, results_received, messages_receive, List.mapIdx_cons, ih]
          simp only [List.take_succ_cons, List.take_zero, body_cons, List.length_append]
          obtain ⟨hempty, heq⟩ | ⟨hne, hcrosses, heq⟩ | ⟨hne, hfits, heq⟩ :=
            limitedReceive_cases maxBytes st message
          · simp [heq, hempty]
          · have hhead : ¬ (st.total + (message.chunk.length + (body []).length) ≤ maxBytes) := by
              simp only [body, List.flatMap_nil, List.length_nil]
              omega
            simp [heq, hne, hhead, Nat.add_assoc]
          · have hhead : st.total + (message.chunk.length + (body []).length) ≤ maxBytes := by
              simp only [body, List.flatMap_nil, List.length_nil]
              omega
            simp [heq, hhead, Nat.add_assoc]

/-- Beyond the limit no byte is delivered any more. -/
theorem delivered_beyond {maxBytes : Nat} {st : Channel} (h : maxBytes < st.total)
    (calls : List Call) : delivered (serve maxBytes st calls).1 = [] := by
  induction calls generalizing st with
  | nil => rfl
  | cons call calls ih =>
      cases call with
      | replay =>
          rw [serve_replay, delivered_replayed]
          exact ih (by rwa [(replayBody_spec st).2])
      | receive message =>
          rw [serve_receive]
          obtain ⟨hempty, heq⟩ | ⟨-, hcrosses, heq⟩ | ⟨-, hfits, heq⟩ :=
            limitedReceive_cases maxBytes st message
          · rw [heq, delivered_ok, hempty, List.nil_append]
            exact ih h
          · rw [heq, delivered_error]
            exact ih hcrosses
          · omega

/-- Up to the limit the body is delivered without a gap, and all of it if and only if it fits. -/
theorem delivered_serve {maxBytes : Nat} {st : Channel} (h : st.total ≤ maxBytes)
    (calls : List Call) :
    delivered (serve maxBytes st calls).1 <+: body (messages calls) ∧
      st.total + (delivered (serve maxBytes st calls).1).length ≤ maxBytes ∧
      (delivered (serve maxBytes st calls).1 = body (messages calls) ↔
        st.total + (body (messages calls)).length ≤ maxBytes) := by
  induction calls generalizing st with
  | nil => exact ⟨List.prefix_rfl, h, by simp [serve, delivered, results, messages, body, h]⟩
  | cons call calls ih =>
      cases call with
      | replay =>
          rw [serve_replay, delivered_replayed, messages_replay, (replayBody_spec st).2]
          exact ih h
      | receive message =>
          rw [serve_receive, messages_receive, body_cons]
          obtain ⟨hempty, heq⟩ | ⟨hne, hcrosses, heq⟩ | ⟨-, hfits, heq⟩ :=
            limitedReceive_cases maxBytes st message
          · rw [heq, delivered_ok, hempty, List.nil_append, List.nil_append]
            exact ih h
          · rw [heq, delivered_error]
            have hnone : delivered (serve maxBytes
                ⟨st.total + message.chunk.length, st.bodyChunks⟩ calls).1 = [] :=
              delivered_beyond hcrosses calls
            rw [hnone]
            refine ⟨List.nil_prefix, h, ?_⟩
            constructor
            · intro heq
              exact absurd (List.append_eq_nil_iff.mp heq.symm).1 hne
            · intro hle
              rw [List.length_append] at hle
              omega
          · have hfits' : (Channel.mk (st.total + message.chunk.length)
                (st.bodyChunks ++ [message.chunk])).total ≤ maxBytes := hfits
            obtain ⟨hunmodified, hbounded, hwhole⟩ := ih hfits'
            rw [heq, delivered_ok]
            refine ⟨(List.prefix_append_right_inj _).mpr hunmodified, ?_, ?_⟩
            · rw [List.length_append]
              dsimp only at hbounded ⊢
              omega
            · rw [List.append_cancel_left_eq, List.length_append, hwhole, Nat.add_assoc]

/-- What was replayed and what is still buffered is what was buffered before and delivered. -/
theorem replayed_serve (maxBytes : Nat) (st : Channel) (calls : List Call) :
    replayed (serve maxBytes st calls).1 ++ (serve maxBytes st calls).2.bodyChunks.flatten =
      st.bodyChunks.flatten ++ delivered (serve maxBytes st calls).1 := by
  induction calls generalizing st with
  | nil => simp [serve, replayed, delivered, results]
  | cons call calls ih =>
      cases call with
      | replay =>
          rw [serve_replay, replayed_replayed, delivered_replayed, List.append_assoc, ih,
            (replayBody_spec st).1, (replayBody_spec st).2]
          rfl
      | receive message =>
          rw [serve_receive, replayed_received, ih]
          obtain ⟨hempty, heq⟩ | ⟨-, -, heq⟩ | ⟨-, -, heq⟩ :=
            limitedReceive_cases maxBytes st message
          · rw [heq, delivered_ok, hempty, List.nil_append]
          · rw [heq, delivered_error]
          · rw [heq, delivered_ok, List.flatten_append, List.append_assoc]
            simp

theorem delivery (maxBytes : Nat) (calls : List Call) :
    Delivery maxBytes calls (serve maxBytes ⟨0, []⟩ calls).1 (serve maxBytes ⟨0, []⟩ calls).2 := by
  have hzero : (Channel.mk 0 []).total ≤ maxBytes := Nat.zero_le maxBytes
  obtain ⟨hunmodified, hbounded, hwhole⟩ := delivered_serve hzero calls
  refine ⟨?_, hunmodified, ?_, ?_, ?_⟩
  · rw [results_serve]
    simp only [Nat.zero_add]
  · rwa [Nat.zero_add] at hbounded
  · rwa [Nat.zero_add] at hwhole
  · rw [(replayBody_spec _).1, replayed_serve]
    rfl

-- ============================================================================
-- The middleware
-- ============================================================================

/-- The declared length is absent, or `int` reads it as a value up to the limit. -/
def Fits (finalSigma : List Char → List Char → Bool) (maxBytes : Nat) (scope : Scope) : Prop :=
  ∃ headers, decodedHeaders finalSigma scope.headers = some headers ∧
    ∀ text, headers.get? "content-length".toList = some text →
      ∃ declared, int text = some declared ∧ 0 ≤ declared ∧ declared ≤ maxBytes

theorem checkDeclared_ok {maxBytes : Nat} {contentLength : Option (List Char)}
    (h : ∀ text, contentLength = some text →
      ∃ declared, int text = some declared ∧ 0 ≤ declared ∧ declared ≤ maxBytes) :
    checkDeclared maxBytes contentLength = .ok () := by
  cases contentLength with
  | none => rfl
  | some text =>
      obtain ⟨declared, hint, hnonneg, hle⟩ := h text rfl
      simp only [checkDeclared, hint]
      rw [if_neg (by omega), if_neg (by omega)]

theorem checkDeclared_error {maxBytes : Nat} {contentLength : Option (List Char)}
    (h : ¬ ∀ text, contentLength = some text →
      ∃ declared, int text = some declared ∧ 0 ≤ declared ∧ declared ≤ maxBytes) :
    ∃ exc, checkDeclared maxBytes contentLength = .error exc ∧ exc.statusCode = 413 := by
  cases contentLength with
  | none => exact absurd (fun text htext => by cases htext) h
  | some text =>
      unfold checkDeclared
      dsimp only
      split
      · exact ⟨_, rfl, rfl⟩
      · next declared hint =>
          split
          · exact ⟨_, rfl, rfl⟩
          · next hnonneg =>
              split
              · exact ⟨_, rfl, rfl⟩
              · next hle =>
                  refine absurd (fun text' htext => ?_) h
                  cases htext
                  exact ⟨declared, hint, Int.not_lt.mp hnonneg, Int.not_lt.mp hle⟩

/-- A declared length that fits makes no difference to the body, and any other is refused before
    the application is called. -/
theorem body_limit_independent_of_chunks (finalSigma : List Char → List Char → Bool)
    (mw : RequestBodyLimit) (scope : Scope) (calls : List Call) :
    (Fits finalSigma (mw.selectLimit scope.path).maxBodyBytes scope →
      ∃ outcomes st, mw.run finalSigma scope calls = .ok (outcomes, st) ∧
        Delivery (mw.selectLimit scope.path).maxBodyBytes calls outcomes st) ∧
    (¬ Fits finalSigma (mw.selectLimit scope.path).maxBodyBytes scope →
      ∃ failure, mw.run finalSigma scope calls = .error failure ∧
        ((decodedHeaders finalSigma scope.headers).isSome →
          ∃ exc, failure = .http exc ∧ exc.statusCode = 413)) := by
  unfold RequestBodyLimit.run
  constructor
  · rintro ⟨headers, hheaders, hfits⟩
    rw [hheaders]
    simp only [checkDeclared_ok hfits]
    exact ⟨_, _, rfl, delivery _ calls⟩
  · intro hfits
    cases hheaders : decodedHeaders finalSigma scope.headers with
    | none => exact ⟨.unicodeDecode, rfl, by simp⟩
    | some headers =>
        obtain ⟨exc, hcheck, hstatus⟩ :=
          checkDeclared_error fun h => hfits ⟨headers, hheaders, h⟩
        simp only [hcheck]
        exact ⟨.http exc, rfl, fun _ => ⟨exc, rfl, hstatus⟩⟩

private def fourBytes : RequestBodyLimit := ⟨⟨4⟩, []⟩

/-- `Content-Length: 4` -/
private def fourScope : Scope := ⟨"/items".toList, [("Content-Length".toUTF8.toList, [52])]⟩

private theorem fourScope_fits : Fits (fun _ _ => false) 4 fourScope := by
  have hentries : (decodedHeaders (fun _ _ => false) fourScope.headers).map (·.entries) =
      some [("content-length".toList, ['4'])] := by decide +kernel
  obtain ⟨headers, hheaders, heq⟩ := Option.map_eq_some_iff.mp hentries
  refine ⟨headers, hheaders, fun text htext => ⟨4, ?_, by decide, by decide⟩⟩
  rw [OrderedDict.get?, heq] at htext
  obtain rfl : ['4'] = text := Option.some.inj htext
  decide +kernel

/-- The body in two messages with an empty one between. -/
theorem body_limit_independent_of_chunks_four :
    ∃ outcomes st, fourBytes.run (fun _ _ => false) fourScope
        [.receive (.request (some [1, 2]) (some true)), .receive (.request none (some true)),
          .receive (.request (some [3, 4]) (some false))] = .ok (outcomes, st) ∧
      Delivery 4 [.receive (.request (some [1, 2]) (some true)),
        .receive (.request none (some true)),
        .receive (.request (some [3, 4]) (some false))] outcomes st :=
  (body_limit_independent_of_chunks (fun _ _ => false) fourBytes fourScope _).1 fourScope_fits

end QuickApi.RequestBody
