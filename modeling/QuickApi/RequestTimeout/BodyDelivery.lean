/-
  QuickApi.RequestTimeout.BodyDelivery

  The request body on its way from the server through `read_messages`, the
  queue of one message and `receive_body` to an application that receives
  sequentially (`body_delivery`).  A trace adds to the state of the request
  what the reader got and what the calls of `receive_body` returned.
-/

import QuickApi.RequestTimeout.Effect

namespace QuickApi.RequestTimeout

open QuickApi.Lib

/-- `message["type"] == "http.request"` -/
def Inbound.isRequest : Inbound → Bool
  | .request .. => true
  | .disconnect => false

/-- A message with `more_body` false. -/
def Inbound.isFinal : Inbound → Bool
  | .request _ moreBody => !moreBody
  | .disconnect => false

/-- The message whose `put` is pending. -/
def Reader.inFlight : Reader → List Inbound
  | .putting m => [m]
  | _ => []

/-- The events that change the queue or the calls of `receive_body`. -/
def Event.movesBody : Event → Bool
  | .serverMessage (.request ..) => true
  | .putDone => true
  | .receive => true
  | .receiveGot _ => true
  | .receiveTimedOut _ => true
  | .interruptSeen _ => true
  | .receiveCancelled _ => true
  | _ => false

-- ============================================================================
-- Traces
-- ============================================================================

structure BodyTrace where
  deadline : RequestDeadline
  /-- ghost: the `http.request` messages that `await self.receive()` returned -/
  arrived : List Inbound
  /-- ghost: the body was over for the application when its latest call began -/
  late : Bool
  /-- ghost: what the calls of `receive_body` returned, each with its `late` -/
  returned : List (Bool × Inbound)

namespace BodyTrace

/-- The `http.request` messages that the application received. -/
def delivered (t : BodyTrace) : List Inbound :=
  (t.returned.map Prod.snd).filter Inbound.isRequest

/-- The final message was delivered, or the request is closed, or its disconnect recorded. -/
def bodyOver (t : BodyTrace) : Bool :=
  t.delivered.any Inbound.isFinal || t.deadline.closed || t.deadline.disconnected

/-- The trace behind an event that leads to `d`. -/
def log (t : BodyTrace) (d : RequestDeadline) : Event → BodyTrace
  | .serverMessage (.request body moreBody) =>
      { t with deadline := d, arrived := t.arrived ++ [.request body moreBody] }
  | .receive =>
      { t with
        deadline := d
        late := t.bodyOver
        returned := t.returned ++ t.deadline.receiveBody.1.toList.map (t.bodyOver, ·) }
  | .receiveGot _ =>
      { t with
        deadline := d
        returned := t.returned ++ t.deadline.incoming.toList.map (t.late, ·) }
  | .interruptSeen _ =>
      { t with deadline := d, returned := t.returned ++ [(t.late, .disconnect)] }
  | _ => { t with deadline := d }

/-- The application receives sequentially: no call begins while another one is pending. -/
def accepts (t : BodyTrace) : Event → Bool
  | .receive => t.deadline.receiving.isEmpty
  | _ => true

def next (t : BodyTrace) (e : Event) : Option BodyTrace :=
  if t.accepts e then (t.deadline.next e).map (t.log · e) else none

/-- The trace of a request that arrives. -/
def start (a : Arrival) : BodyTrace where
  deadline := a.start
  arrived := []
  late := false
  returned := []

end BodyTrace

/-- Every request of the middleware with an application that receives sequentially. -/
def bodySystem : System BodyTrace Event where
  init t := ∃ a : Arrival, t = BodyTrace.start a
  next := BodyTrace.next

-- ============================================================================
-- Steps that leave the body alone
-- ============================================================================

namespace RequestDeadline

variable (d : RequestDeadline)

theorem bodyKept_sendResponse (m : Message) : BodyKept d (d.sendResponse m) := by
  unfold sendResponse
  split
  · exact .refl d
  · exact ⟨rfl, rfl, rfl, rfl, .inl rfl⟩

theorem bodyKept_expire (detail : String) : BodyKept d (d.expire detail) := by
  obtain ⟨b, hb, -, hexpire⟩ := d.expire_eq detail
  rw [hexpire]
  split
  · exact (hb.trans ((kept_abort b).trans (kept_finallyBlock _ _))).body
  · exact hb.body.trans ⟨rfl, rfl, rfl, rfl, .inl rfl⟩

theorem bodyKept_afterWait (nothing : Bool) : BodyKept d (d.afterWait nothing) := by
  unfold afterWait
  split
  · exact (kept_awaitWork d).body
  · split
    · exact (kept_abortClosed d).body
    · split
      · exact bodyKept_expire d _
      · split
        · exact (kept_finallyBlock d _).body
        · exact (kept_awaitWork d).body

theorem bodyKept_respondReturned (rest : List Message) :
    BodyKept d (d.respondReturned rest) := by
  cases rest with
  | nil => exact (kept_finallyBlock d _).body
  | cons m rest => exact ⟨rfl, rfl, rfl, rfl, .inl rfl⟩

theorem bodyKept_next {d d' : RequestDeadline} {e : Event} (h : d.next e = some d')
    (he : e.movesBody = false) : BodyKept d d' := by
  cases e with
  | serverMessage m =>
      cases m with
      | request body moreBody => cases he
      | disconnect => exact (kept_next h rfl).body
  | send m =>
      simp only [next] at h
      split at h
      · obtain rfl := Option.some.inj h
        have hattempt (s : Stage) : BodyKept d
            { d with stage := s, attempted := d.attempted ++ [m] } :=
          ⟨rfl, rfl, rfl, rfl, .inl rfl⟩
        exact (hattempt _).trans (bodyKept_sendResponse _ m)
      · cases h
  | wake interruptedDone completedDone =>
      simp only [next] at h
      split at h
      · obtain ⟨-, hd⟩ := Option.ite_none_right_eq_some.mp h
        split at hd
        · obtain ⟨-, hd⟩ := Option.ite_none_right_eq_some.mp hd
          obtain rfl := Option.some.inj hd
          exact bodyKept_afterWait d true
        · obtain rfl := Option.some.inj hd
          exact bodyKept_afterWait d false
      · cases h
  | respondReturned =>
      simp only [next] at h
      split at h <;> cases h
      exact bodyKept_respondReturned d _
  | putDone => cases he
  | receive => cases he
  | receiveGot i => cases he
  | receiveTimedOut i => cases he
  | interruptSeen i => cases he
  | receiveCancelled i => cases he
  | _ => exact (kept_next h rfl).body

/-- The shared activity only ever moves on. -/
theorem next_later {d d' : RequestDeadline} {e : Event} (h : d.next e = some d') :
    d.activity.Later d'.activity := by
  cases next_effect h with
  | quiet hq => exact hq.activity
  | dropped m s _ _ hd => exact hd ▸ .refl _
  | forwarded m s _ _ hd => exact hd ▸ .refl _
  | responded b due detail m rest _ hb _ _ _ hd => exact hd ▸ hb.activity
  | continued m rest _ hd => exact hd ▸ .refl _

end RequestDeadline

-- ============================================================================
-- What a trace keeps
-- ============================================================================

namespace BodyTrace

open RequestDeadline

theorem log_of_kept (t : BodyTrace) (d : RequestDeadline) {e : Event}
    (he : e.movesBody = false) : t.log d e = { t with deadline := d } := by
  cases e with
  | serverMessage m =>
      cases m with
      | request body moreBody => cases he
      | disconnect => rfl
  | receive => cases he
  | receiveGot i => cases he
  | interruptSeen i => cases he
  | _ => rfl

theorem next_eq_some {t t' : BodyTrace} {e : Event} (h : t.next e = some t') :
    t.accepts e = true ∧ ∃ d, t.deadline.next e = some d ∧ t' = t.log d e := by
  obtain ⟨haccepts, hd⟩ := Option.ite_none_right_eq_some.mp h
  obtain ⟨d, hnext, hlog⟩ := Option.map_eq_some_iff.mp hd
  exact ⟨haccepts, d, hnext, hlog.symm⟩

/-- The messages that arrived are those delivered, the one queued and the one whose `put` is
    pending or was cancelled with the reader; and what is known of the calls that are pending
    or have returned. -/
structure Tracked (t : BodyTrace) : Prop where
  requests : ∀ m ∈ t.arrived, m.isRequest = true
  ahead : ∃ q, t.arrived = t.delivered ++ t.deadline.incoming.toList ++ q ∧ q.length ≤ 1 ∧
    (q = t.deadline.reader.inFlight ∨ ∃ r, t.deadline.reader = .ended r)
  one : t.deadline.receiving.length ≤ 1
  final : t.delivered.any Inbound.isFinal = true → t.deadline.bodyComplete = true
  pending : t.late = true ∨ t.deadline.bodyComplete = true →
    ∀ p ∈ t.deadline.receiving, p = .awaitingInterrupt
  disconnects : ∀ m, (true, m) ∈ t.returned → m = .disconnect
  expired : t.deadline.timeoutDetail ≠ none → t.deadline.activity.abandoned ≠ none

theorem tracked_start (a : Arrival) : Tracked (start a) where
  requests := by simp [start]
  ahead := ⟨[], rfl, by simp, .inl rfl⟩
  one := by simp [start, Arrival.start, RequestDeadline.new]
  final := by simp [start, delivered]
  pending := by simp [start, Arrival.start, RequestDeadline.new]
  disconnects := by simp [start]
  expired := by simp [start, Arrival.start, RequestDeadline.new]

variable {t : BodyTrace}

/-- Calls that return `http.disconnect` deliver nothing. -/
theorem delivered_append_disconnects {r : List (Bool × Inbound)}
    (hr : ∀ p ∈ r, p.2 = .disconnect) (d : RequestDeadline) (late : Bool) :
    delivered ⟨d, t.arrived, late, t.returned ++ r⟩ = t.delivered := by
  have hnone : (r.map Prod.snd).filter Inbound.isRequest = [] := by
    rw [List.filter_eq_nil_iff]
    intro m hm
    obtain ⟨p, hp, rfl⟩ := List.mem_map.mp hm
    rw [hr p hp]
    exact Bool.false_ne_true
  unfold delivered
  rw [List.map_append, List.filter_append, hnone, List.append_nil]

theorem delivered_append_request {m : Inbound} (hm : m.isRequest = true)
    (d : RequestDeadline) (late : Bool) :
    delivered ⟨d, t.arrived, late, t.returned ++ [(late, m)]⟩ = t.delivered ++ [m] := by
  unfold delivered
  rw [List.map_append, List.filter_append, List.map_singleton, List.filter_singleton, hm]
  rfl

theorem Tracked.kept (h : Tracked t) {d : RequestDeadline} (hd : BodyKept t.deadline d)
    (hactivity : t.deadline.activity.Later d.activity) : Tracked { t with deadline := d } where
  requests := h.requests
  ahead := by
    obtain ⟨q, harrived, hlength, hreader⟩ := h.ahead
    refine ⟨q, ?_, hlength, ?_⟩
    · rw [hd.incoming]
      exact harrived
    · obtain hsame | hended := hd.reader
      · rw [hsame]
        exact hreader
      · exact .inr hended
  one := by
    rw [hd.receiving]
    exact h.one
  final hfinal := hd.bodyComplete.trans (h.final hfinal)
  pending := by
    rw [hd.bodyComplete, hd.receiving]
    exact h.pending
  disconnects := h.disconnects
  expired hdetail := by
    rw [hd.timeoutDetail] at hdetail
    obtain ⟨reason, hreason⟩ := Option.ne_none_iff_exists'.mp (h.expired hdetail)
    rw [hactivity.abandoned reason hreason]
    exact Option.some_ne_none reason

theorem Tracked.read (h : Tracked t) (hreader : t.deadline.reader = .receiving)
    {m : Inbound} (hm : m.isRequest = true) :
    Tracked { t with deadline := t.deadline.readMessage m, arrived := t.arrived ++ [m] } := by
  obtain ⟨q, harrived, -, hq⟩ := h.ahead
  obtain rfl : q = [] := by
    obtain hflight | ⟨r, hended⟩ := hq
    · rw [hflight, hreader]
      rfl
    · rw [hreader] at hended
      cases hended
  have hrequests : ∀ m' ∈ t.arrived ++ [m], m'.isRequest = true := by
    intro m' hm'
    obtain hold | hnew := List.mem_append.mp hm'
    · exact h.requests m' hold
    · rw [List.mem_singleton.mp hnew]
      exact hm
  cases m with
  | disconnect => cases hm
  | request body moreBody =>
      simp only [readMessage]
      split
      · next hempty =>
          refine ⟨hrequests, ⟨[], ?_, by simp, .inl rfl⟩, h.one, h.final, h.pending,
            h.disconnects, h.expired⟩
          show t.arrived ++ _ = t.delivered ++ _ ++ []
          rw [harrived, hempty]
          simp
      · refine ⟨hrequests, ⟨[.request body moreBody], ?_, by simp, .inl rfl⟩, h.one, h.final,
          h.pending, h.disconnects, h.expired⟩
        show t.arrived ++ _ = t.delivered ++ t.deadline.incoming.toList ++ _
        rw [harrived, List.append_nil]

theorem Tracked.put (h : Tracked t) {m : Inbound} (hreader : t.deadline.reader = .putting m)
    (hempty : t.deadline.incoming = none) :
    Tracked { t with deadline := t.deadline.putDone m } := by
  obtain ⟨q, harrived, -, hq⟩ := h.ahead
  obtain rfl : q = [m] := by
    obtain hflight | ⟨r, hended⟩ := hq
    · rw [hflight, hreader]
      rfl
    · rw [hreader] at hended
      cases hended
  refine ⟨h.requests, ⟨[], ?_, by simp, .inl rfl⟩, h.one, h.final, h.pending,
    h.disconnects, h.expired⟩
  show t.arrived = t.delivered ++ [m] ++ []
  rw [harrived, hempty]
  simp

/-- The queued message is delivered to the only call there is. -/
theorem Tracked.deliver (h : Tracked t) {m : Inbound} (hm : t.deadline.incoming = some m)
    (hopen : t.deadline.bodyComplete = false) {l : List Receiving} (hl : l = []) :
    Tracked
      { t with
        deadline := { t.deadline.receiveGot m with receiving := l }
        late := false
        returned := t.returned ++ [(false, m)] } := by
  subst hl
  obtain ⟨q, harrived, hlength, hq⟩ := h.ahead
  have hrequest : m.isRequest = true := by
    apply h.requests
    rw [harrived, hm]
    simp
  have hdelivered := delivered_append_request (t := t) hrequest
    { t.deadline.receiveGot m with receiving := [] } false
  refine ⟨h.requests, ⟨q, ?_, hlength, hq⟩, Nat.zero_le 1, ?_, ?_, ?_, h.expired⟩
  · rw [hdelivered]
    show t.arrived = t.delivered ++ [m] ++ [] ++ q
    rw [harrived, hm]
    simp
  · have hold : t.delivered.any Inbound.isFinal = false := by
      rw [Bool.eq_false_iff]
      intro hfinal
      rw [h.final hfinal] at hopen
      cases hopen
    have hsingle : [m].any Inbound.isFinal = m.isFinal := Bool.or_false _
    rw [hdelivered, List.any_append, hold, Bool.false_or, hsingle]
    intro hfinal
    cases m with
    | request body moreBody => exact hfinal
    | disconnect => rfl
  · intro _ p hp
    cases hp
  · intro m' hm'
    obtain hold | hnew := List.mem_append.mp hm'
    · exact h.disconnects m' hold
    · cases List.mem_singleton.mp hnew

/-- Calls begin, end without a message or return `http.disconnect`. -/
theorem Tracked.setCalls (h : Tracked t) {l : List Receiving} {late : Bool}
    {r : List (Bool × Inbound)} (hl : l.length ≤ 1)
    (hpending : late = true ∨ t.deadline.bodyComplete = true → ∀ p ∈ l, p = .awaitingInterrupt)
    (hr : ∀ p ∈ r, p.2 = .disconnect) :
    Tracked ⟨{ t.deadline with receiving := l }, t.arrived, late, t.returned ++ r⟩ := by
  have hdelivered := delivered_append_disconnects (t := t) hr
    { t.deadline with receiving := l } late
  refine ⟨h.requests, ?_, hl, ?_, hpending, ?_, h.expired⟩
  · rw [hdelivered]
    exact h.ahead
  · rw [hdelivered]
    exact h.final
  · intro m hm
    obtain hold | hnew := List.mem_append.mp hm
    · exact h.disconnects m hold
    · exact hr (true, m) hnew

/-- A pending call ends. -/
theorem Tracked.eraseCall (h : Tracked t) (i : Nat) {r : List (Bool × Inbound)}
    (hr : ∀ p ∈ r, p.2 = .disconnect) :
    Tracked
      { t with
        deadline := { t.deadline with receiving := t.deadline.receiving.eraseIdx i }
        returned := t.returned ++ r } :=
  h.setCalls ((List.length_eraseIdx_le _ i).trans h.one)
    (fun hover p hp => h.pending hover p (List.mem_of_mem_eraseIdx hp)) hr

/-- An expired body timer leaves an abandoned activity. -/
theorem Tracked.timedOut (h : Tracked t) :
    Tracked { t with deadline := t.deadline.receiveTimedOut } :=
  ⟨h.requests, h.ahead, h.one, h.final, h.pending, h.disconnects,
    fun _ => RequestActivity.abandoned_abandon _ _⟩

theorem Tracked.receive (h : Tracked t) (hnone : t.deadline.receiving = []) :
    Tracked (t.log t.deadline.receiveBody.2 .receive) := by
  show Tracked
    ⟨t.deadline.receiveBody.2, t.arrived, t.bodyOver,
      t.returned ++ t.deadline.receiveBody.1.toList.map (t.bodyOver, ·)⟩
  have hdisconnect : Tracked
      ⟨t.deadline, t.arrived, t.bodyOver, t.returned ++ [(t.bodyOver, .disconnect)]⟩ := by
    refine h.setCalls h.one ?_ (by simp)
    intro _ p hp
    rw [hnone] at hp
    cases hp
  have hwait {p : Receiving} (hp : t.bodyOver = true ∨ t.deadline.bodyComplete = true →
      p = .awaitingInterrupt) : Tracked
      ⟨{ t.deadline with receiving := t.deadline.receiving ++ [p] }, t.arrived, t.bodyOver,
        t.returned ++ []⟩ := by
    rw [hnone]
    refine h.setCalls (l := [p]) le_rfl ?_ (by simp)
    intro hover p' hp'
    rw [List.mem_singleton.mp hp']
    exact hp hover
  unfold receiveBody
  split
  · exact hdisconnect
  · next hgone =>
      simp only [not_or, Bool.not_eq_true] at hgone
      split
      · split
        · exact hdisconnect
        · exact hwait fun _ => rfl
      · next hopen =>
          rw [Bool.not_eq_true] at hopen
          have hover : t.bodyOver = false := by
            unfold bodyOver
            rw [hgone.1, hgone.2, Bool.or_false, Bool.or_false, Bool.eq_false_iff]
            intro hfinal
            rw [h.final hfinal] at hopen
            cases hopen
          split
          · next m hm =>
              rw [hover]
              exact h.deliver hm hopen hnone
          · refine hwait fun hlate => ?_
            rw [hover, hopen] at hlate
            simp at hlate

theorem Tracked.next {t' : BodyTrace} {e : Event} (h : Tracked t) (hnext : t.next e = some t') :
    Tracked t' := by
  obtain ⟨haccepts, d, hd, rfl⟩ := next_eq_some hnext
  cases he : e.movesBody with
  | false =>
      rw [log_of_kept t d he]
      exact h.kept (bodyKept_next hd he) (next_later hd)
  | true =>
      cases e with
      | serverMessage m =>
          cases m with
          | disconnect => cases he
          | request body moreBody =>
              simp only [RequestDeadline.next] at hd
              split at hd <;> cases hd
              next hreader => exact h.read hreader rfl
      | putDone =>
          simp only [RequestDeadline.next] at hd
          split at hd <;> cases hd
          next m hreader hempty => exact h.put hreader hempty
      | receive =>
          obtain rfl := Option.some.inj hd
          exact h.receive (List.isEmpty_iff.mp haccepts)
      | receiveGot i =>
          simp only [RequestDeadline.next] at hd
          split at hd <;> cases hd
          next due m hcall hm =>
            have hmem := List.mem_of_getElem? hcall
            have hlt := (List.getElem?_eq_some_iff.mp hcall).1
            have hnone : t.deadline.receiving.eraseIdx i = [] := by
              have hone := h.one
              rw [← List.length_eq_zero_iff, List.length_eraseIdx_of_lt hlt]
              omega
            have hwaits : ¬ (t.late = true ∨ t.deadline.bodyComplete = true) := by
              intro hover
              cases h.pending hover _ hmem
            simp only [not_or, Bool.not_eq_true] at hwaits
            have hdeliver := h.deliver hm hwaits.2 hnone
            simp only [log, hm, hwaits.1]
            exact hdeliver
      | receiveTimedOut i =>
          simp only [RequestDeadline.next] at hd
          split at hd
          · obtain ⟨-, hd⟩ := Option.ite_none_right_eq_some.mp hd
            obtain rfl := Option.some.inj hd
            have herase := h.timedOut.eraseCall i (r := []) (by simp)
            rw [List.append_nil] at herase
            exact herase
          · cases hd
      | interruptSeen i =>
          simp only [RequestDeadline.next] at hd
          split at hd
          · obtain ⟨-, hd⟩ := Option.ite_none_right_eq_some.mp hd
            obtain rfl := Option.some.inj hd
            exact h.eraseCall i (by simp)
          · cases hd
      | receiveCancelled i =>
          obtain ⟨-, hd⟩ := Option.ite_none_right_eq_some.mp hd
          obtain rfl := Option.some.inj hd
          have herase := h.eraseCall i (r := []) (by simp)
          rw [List.append_nil] at herase
          exact herase
      | _ => cases he

theorem tracked_invariant : bodySystem.Invariant Tracked where
  init t ht := by
    obtain ⟨a, rfl⟩ := ht
    exact tracked_start a
  step _ _ _ h hnext := h.next hnext

-- ============================================================================
-- Delivery
-- ============================================================================

theorem Tracked.length_le (h : Tracked t) : t.arrived.length ≤ t.delivered.length + 2 := by
  obtain ⟨q, harrived, hlength, -⟩ := h.ahead
  have hqueued : t.deadline.incoming.toList.length ≤ 1 := by
    cases t.deadline.incoming with
    | none => exact Nat.zero_le 1
    | some m => exact le_rfl
  rw [harrived, List.length_append, List.length_append]
  omega

/-- In every state of every run the application has received the first messages that the server
    sent, and while the reader lives the others are the queued one and the one in flight; a call
    that began when the body was over returns `http.disconnect`; and the activity is abandoned
    with the timer that expires.  (A call whose task is cancelled as well ends by that
    cancellation, `receiveCancelled`: `asyncio.timeout` then raises no `TimeoutError`.) -/
theorem body_delivery (ht : bodySystem.Reachable t) :
    t.delivered <+: t.arrived ∧
      t.arrived.length ≤ t.delivered.length + 2 ∧
      ((∀ r, t.deadline.reader ≠ .ended r) →
        t.arrived =
          t.delivered ++ t.deadline.incoming.toList ++ t.deadline.reader.inFlight) ∧
      (∀ m, (true, m) ∈ t.returned → m = .disconnect) ∧
      (t.deadline.timeoutDetail ≠ none → t.deadline.activity.abandoned ≠ none) ∧
      ∀ i t', bodySystem.next t (.receiveTimedOut i) = some t' →
        t'.deadline.timeoutDetail ≠ none ∧ t'.deadline.activity.abandoned ≠ none := by
  have h := tracked_invariant.of_reachable ht
  obtain ⟨q, harrived, -, hq⟩ := h.ahead
  refine ⟨⟨t.deadline.incoming.toList ++ q, ?_⟩, h.length_le, ?_, h.disconnects, h.expired, ?_⟩
  · rw [harrived, List.append_assoc]
  · intro hlives
    obtain rfl | ⟨r, hended⟩ := hq
    · exact harrived
    · exact absurd hended (hlives r)
  · intro i t' hnext
    have hdetail : t'.deadline.timeoutDetail ≠ none := by
      have hstep : t.next (.receiveTimedOut i) = some t' := hnext
      obtain ⟨-, d, hd, rfl⟩ := next_eq_some hstep
      simp only [RequestDeadline.next] at hd
      split at hd
      · obtain ⟨-, hd⟩ := Option.ite_none_right_eq_some.mp hd
        obtain rfl := Option.some.inj hd
        exact Option.some_ne_none _
      · cases hd
    exact ⟨hdetail, (tracked_invariant.of_reachable (ht.next hnext)).expired hdetail⟩

/-- The second chunk does not come in time; the next call gets it, and the one behind it finds
    the body over. -/
theorem body_delivery_timed_out :
    ∃ t : BodyTrace,
      t.returned =
        [(false, .request [1] true), (false, .request [2] false), (true, .disconnect)] ∧
      t.arrived = [.request [1] true, .request [2] false] ∧
      t.delivered <+: t.arrived ∧
      t.deadline.activity.abandoned ≠ none := by
  let first := start ⟨5, 2, 10, 0, .new⟩
  have hrun : (bodySystem.run first
      [.serverMessage (.request [1] true), .receive, .receive, .tick 2,
        .serverMessage (.request [2] false), .receiveTimedOut 0, .receive, .receive]).map
      (fun t => (t.returned, t.arrived, t.deadline.timeoutDetail)) =
      some
        ([(false, .request [1] true), (false, .request [2] false), (true, .disconnect)],
          [.request [1] true, .request [2] false], some "Request chunk timeout exceeded.") := by
    decide +kernel
  obtain ⟨t, ht, hfacts⟩ := Option.map_eq_some_iff.mp hrun
  obtain ⟨hreturned, hrest⟩ := Prod.mk.inj hfacts
  obtain ⟨harrived, hdetail⟩ := Prod.mk.inj hrest
  obtain ⟨hdelivered, -, -, -, hexpired, -⟩ := body_delivery ⟨first, _, ⟨_, rfl⟩, ht⟩
  refine ⟨t, hreturned, harrived, hdelivered, hexpired ?_⟩
  rw [hdetail]
  exact Option.some_ne_none _

end BodyTrace

end QuickApi.RequestTimeout
