/-
  QuickApi.RequestTimeout.Effect

  What one step of a request can do to the response, said once
  (`next_effect`): nothing, an attempt of the application that is forwarded or
  dropped, or the next message of the 408.
-/

import QuickApi.RequestTimeout.System

namespace QuickApi.RequestTimeout

/-- The owner has no message of its own to send any more. -/
def Owner.Silent : Owner → Prop
  | .awaitingWork => True
  | .cleaning _ => True
  | .ended _ => True
  | _ => False

/-- The events of the application, the reader and the owner that move neither the response nor
    the body. -/
def Event.isKept : Event → Bool
  | .tick _ => true
  | .serverMessage .disconnect => true
  | .readFailed _ => true
  | .sendReturned _ => true
  | .sendFailed _ _ => true
  | .assertActive => true
  | .ownMutation => true
  | .finish _ => true
  | .workObserved => true
  | .respondFailed _ => true
  | .interruptOwner => true
  | .cleanupDone => true
  | _ => false

namespace RequestDeadline

/-- An application message would be forwarded. -/
def Open (d : RequestDeadline) : Prop :=
  d.closed = false ∧ d.disconnected = false ∧ d.completed = false

/-- From `d` to `d'` nothing was sent and nothing attempted. -/
structure Quiet (d d' : RequestDeadline) : Prop where
  stage : d'.stage = d.stage
  attempted : d'.attempted = d.attempted
  sent : d'.sent = d.sent
  started : d'.started = d.started
  closed : d.closed = true → d'.closed = true
  disconnected : d.disconnected = true → d'.disconnected = true
  completed : d.completed = true → d'.completed = true
  owner : d'.owner = d.owner ∨ d'.owner.Silent
  activity : d.activity.Later d'.activity
  now : d.now ≤ d'.now

theorem Quiet.refl (d : RequestDeadline) : Quiet d d :=
  ⟨rfl, rfl, rfl, rfl, id, id, id, .inl rfl, .refl _, le_rfl⟩

theorem Quiet.trans {a b c : RequestDeadline} (h : Quiet a b) (h' : Quiet b c) : Quiet a c where
  stage := h'.stage.trans h.stage
  attempted := h'.attempted.trans h.attempted
  sent := h'.sent.trans h.sent
  started := h'.started.trans h.started
  closed ha := h'.closed (h.closed ha)
  disconnected ha := h'.disconnected (h.disconnected ha)
  completed ha := h'.completed (h.completed ha)
  owner := by
    obtain ho | ho := h'.owner
    · rw [ho]
      exact h.owner
    · exact .inr ho
  activity := h.activity.trans h'.activity
  now := h.now.trans h'.now

/-- From `d` to `d'` no message of the body moved; the reader may have ended. -/
structure BodyKept (d d' : RequestDeadline) : Prop where
  incoming : d'.incoming = d.incoming
  receiving : d'.receiving = d.receiving
  bodyComplete : d'.bodyComplete = d.bodyComplete
  timeoutDetail : d'.timeoutDetail = d.timeoutDetail
  reader : d'.reader = d.reader ∨ ∃ r, d'.reader = .ended r

theorem BodyKept.refl (d : RequestDeadline) : BodyKept d d := ⟨rfl, rfl, rfl, rfl, .inl rfl⟩

theorem BodyKept.trans {a b c : RequestDeadline} (h : BodyKept a b) (h' : BodyKept b c) :
    BodyKept a c where
  incoming := h'.incoming.trans h.incoming
  receiving := h'.receiving.trans h.receiving
  bodyComplete := h'.bodyComplete.trans h.bodyComplete
  timeoutDetail := h'.timeoutDetail.trans h.timeoutDetail
  reader := by
    obtain hr | hr := h'.reader
    · rw [hr]
      exact h.reader
    · exact .inr hr

/-- Neither the response nor the body moved. -/
structure Kept (d d' : RequestDeadline) : Prop where
  quiet : Quiet d d'
  body : BodyKept d d'

theorem Kept.refl (d : RequestDeadline) : Kept d d := ⟨.refl d, .refl d⟩

theorem Kept.trans {a b c : RequestDeadline} (h : Kept a b) (h' : Kept b c) : Kept a c :=
  ⟨h.quiet.trans h'.quiet, h.body.trans h'.body⟩

-- ============================================================================
-- The coroutines, piece by piece
-- ============================================================================

variable (d : RequestDeadline)

/-- A new state of the reader does not concern the response. -/
theorem quiet_setReader (r : Reader) : Quiet d { d with reader := r } :=
  ⟨rfl, rfl, rfl, rfl, id, id, id, .inl rfl, .refl _, le_rfl⟩

theorem quiet_setReceiving (l : List Receiving) : Quiet d { d with receiving := l } :=
  ⟨rfl, rfl, rfl, rfl, id, id, id, .inl rfl, .refl _, le_rfl⟩

theorem kept_endReader {r : Reader} (hr : ∃ outcome, r = .ended outcome) :
    Kept d { d with reader := r } :=
  ⟨quiet_setReader d r, rfl, rfl, rfl, rfl, .inr hr⟩

theorem kept_setSending (l : List Message) : Kept d { d with sending := l } :=
  ⟨⟨rfl, rfl, rfl, rfl, id, id, id, .inl rfl, .refl _, le_rfl⟩, rfl, rfl, rfl, rfl, .inl rfl⟩

theorem kept_setActivity {a : RequestActivity} (ha : d.activity.Later a) :
    Kept d { d with activity := a } :=
  ⟨⟨rfl, rfl, rfl, rfl, id, id, id, .inl rfl, ha, le_rfl⟩, rfl, rfl, rfl, rfl, .inl rfl⟩

theorem kept_setOwner {o : Owner} (ho : o.Silent) : Kept d { d with owner := o } :=
  ⟨⟨rfl, rfl, rfl, rfl, id, id, id, .inr ho, .refl _, le_rfl⟩, rfl, rfl, rfl, rfl, .inl rfl⟩

theorem kept_endOwner (r : Outcome) : Kept d { d with owner := .ended r } :=
  kept_setOwner d (o := .ended r) trivial

theorem kept_close : Kept d { d with closed := true } :=
  ⟨⟨rfl, rfl, rfl, rfl, fun _ => rfl, id, id, .inl rfl, .refl _, le_rfl⟩,
    rfl, rfl, rfl, rfl, .inl rfl⟩

theorem kept_abort : Kept d { d with aborted := true } :=
  ⟨⟨rfl, rfl, rfl, rfl, id, id, id, .inl rfl, .refl _, le_rfl⟩, rfl, rfl, rfl, rfl, .inl rfl⟩

theorem kept_disconnect : Kept d d.disconnect :=
  ⟨⟨rfl, rfl, rfl, rfl, id, fun _ => rfl, id, .inl rfl, RequestActivity.later_abandon _ _,
    le_rfl⟩, rfl, rfl, rfl, rfl, .inl rfl⟩

theorem kept_readDisconnect : Kept d (d.readMessage .disconnect) := by
  show Kept d { (if d.completed then d else d.disconnect) with reader := .ended (.ok ()) }
  split
  · exact kept_endReader d ⟨_, rfl⟩
  · exact (kept_disconnect d).trans (kept_endReader _ ⟨_, rfl⟩)

theorem quiet_readMessage (m : Inbound) : Quiet d (d.readMessage m) := by
  cases m with
  | disconnect => exact (kept_readDisconnect d).quiet
  | request body more =>
      show Quiet d (if d.incoming = none then _ else _)
      split
      · exact ⟨rfl, rfl, rfl, rfl, id, id, id, .inl rfl, .refl _, le_rfl⟩
      · exact quiet_setReader d _

theorem kept_readFailed (e : Exc) : Kept d (d.readFailed e) := by
  unfold readFailed
  split
  · exact (kept_disconnect d).trans (kept_endReader _ ⟨_, rfl⟩)
  · exact kept_endReader d ⟨_, rfl⟩

theorem quiet_receiveGot (m : Inbound) : Quiet d (d.receiveGot m) :=
  ⟨rfl, rfl, rfl, rfl, id, id, id, .inl rfl, .refl _, le_rfl⟩

theorem quiet_receiveBody : Quiet d d.receiveBody.2 := by
  unfold receiveBody
  split
  · exact .refl d
  · split
    · split
      · exact .refl d
      · exact quiet_setReceiving d _
    · split
      · exact quiet_receiveGot d _
      · exact quiet_setReceiving d _

theorem quiet_receiveTimedOut : Quiet d d.receiveTimedOut :=
  ⟨rfl, rfl, rfl, rfl, id, id, id, .inl rfl, RequestActivity.later_abandon _ _, le_rfl⟩

theorem kept_sendReturned (m : Message) : Kept d (d.sendReturned m) := by
  refine ⟨⟨rfl, rfl, rfl, rfl, id, id, ?_, .inl rfl, .refl _, le_rfl⟩,
    rfl, rfl, rfl, rfl, .inl rfl⟩
  intro hc
  unfold sendReturned
  split
  · rfl
  · exact hc

theorem kept_sendFailed (m : Message) (e : Exc) : Kept d (d.sendFailed m e) := by
  unfold sendFailed
  split
  · exact (kept_disconnect d).trans (kept_setSending _ _)
  · exact kept_setSending d _

theorem kept_cancelWork : Kept d d.cancelWork := by
  unfold cancelWork
  split
  · exact .refl d
  · exact ⟨⟨rfl, rfl, rfl, rfl, id, id, id, .inl rfl, .refl _, le_rfl⟩,
      rfl, rfl, rfl, rfl, .inl rfl⟩

theorem kept_cancelUnlessOwned : Kept d d.cancelUnlessOwned := by
  unfold cancelUnlessOwned
  split
  · exact .refl d
  · exact kept_cancelWork d

theorem kept_finallyBlock (r : Outcome) : Kept d (d.finallyBlock r) := by
  have hinterrupt (d : RequestDeadline) : Kept d
      (if d.work.isNone then { d with activity := d.activity.abandon "Request interrupted." }
        else d) := by
    split
    · exact kept_setActivity d (RequestActivity.later_abandon _ _)
    · exact .refl d
  have hcancel (d : RequestDeadline) : Kept d
      (if d.work.isNone ∧ d.cancelling = 0 ∧ ¬ d.activity.ownsMutation then d.cancelWork
        else d) := by
    split
    · exact kept_cancelWork d
    · exact .refl d
  have hclean (d : RequestDeadline) {reader : Reader} (hended : ∃ r, reader = .ended r) :
      Kept d { d with owner := .cleaning r, reader := reader } :=
    (kept_setOwner d (o := .cleaning r) trivial).trans (kept_endReader _ hended)
  refine (kept_close d).trans ((hinterrupt _).trans ((hcancel _).trans (hclean _ ?_)))
  split
  · next r _ => exact ⟨r, rfl⟩
  · exact ⟨.error .cancelled, rfl⟩

theorem kept_awaitWork : Kept d d.awaitWork := by
  unfold awaitWork
  split
  · exact kept_finallyBlock d _
  · exact kept_setOwner d (o := .awaitingWork) trivial

theorem kept_interruptOwner {d' : RequestDeadline} (h : d.interruptOwner = some d') :
    Kept d d' := by
  unfold interruptOwner at h
  split at h <;> cases h
  · exact kept_finallyBlock d _
  · split
    · exact kept_finallyBlock d _
    · exact kept_cancelWork d
  · exact kept_finallyBlock d _
  · exact kept_setOwner d trivial

-- ============================================================================
-- The step
-- ============================================================================

/-- What one step does to the response. -/
inductive Effect (d d' : RequestDeadline) : Prop
  | quiet (h : Quiet d d')
  | dropped (m : Message) (s : Stage) (hs : d.stage.next m = some s) (hopen : ¬ d.Open)
      (h : d' = { d with stage := s, attempted := d.attempted ++ [m] })
  | forwarded (m : Message) (s : Stage) (hs : d.stage.next m = some s) (hopen : d.Open)
      (h : d' =
        { d with
          stage := s
          attempted := d.attempted ++ [m]
          started := if m.isStart then true else d.started
          sending := d.sending ++ [m]
          sent := d.sent ++ [(.application, m)] })
  /-- The first message of the 408, sent out of the state `b`. -/
  | responded (b : RequestDeadline) (due : ℚ) (detail : String) (m : Message)
      (rest : List Message) (howner : d.owner = .waiting due) (hb : Quiet d b)
      (hclosed : b.closed = true) (hstarted : b.started = false)
      (hm : m :: rest = errorResponse 408 detail)
      (h : d' = { b with owner := .responding rest, sent := b.sent ++ [(.timeout, m)] })
  | continued (m : Message) (rest : List Message) (howner : d.owner = .responding (m :: rest))
      (h : d' = { d with owner := .responding rest, sent := d.sent ++ [(.timeout, m)] })

/-- The branch of an expired request, by the state `b` in which the gate is closed and the work
    cancelled. -/
theorem expire_eq (detail : String) : ∃ b, Kept d b ∧ b.closed = true ∧
    d.expire detail =
      if b.started then
        finallyBlock { b with aborted := true } (.error (.streamDeadlineExceeded detail))
      else
        { b with
          owner := .responding [.body (.error 408 detail) false]
          sent := b.sent ++ [(.timeout, .start 408)] } := by
  have hclose : Kept d { d with closed := true, activity := d.activity.abandon detail } :=
    (kept_close d).trans (kept_setActivity _ (RequestActivity.later_abandon _ _))
  have hcancel := kept_cancelUnlessOwned
    { d with closed := true, activity := d.activity.abandon detail }
  exact ⟨_, hclose.trans hcancel, hcancel.quiet.closed rfl, rfl⟩

theorem expire_effect {due : ℚ} (howner : d.owner = .waiting due) (detail : String) :
    Effect d (d.expire detail) := by
  obtain ⟨b, hb, hclosed, hexpire⟩ := d.expire_eq detail
  rw [hexpire]
  split
  · exact .quiet (hb.trans ((kept_abort b).trans (kept_finallyBlock _ _))).quiet
  · next hstarted =>
      rw [Bool.not_eq_true] at hstarted
      exact .responded b due detail _ _ howner hb.quiet hclosed hstarted rfl rfl

/-- The branch of a disconnected request. -/
theorem kept_abortClosed : Kept d
    ((cancelUnlessOwned { d with aborted := true, closed := true }).finallyBlock (.ok ())) :=
  (kept_abort d).trans ((kept_close _).trans
    ((kept_cancelUnlessOwned _).trans (kept_finallyBlock _ _)))

theorem afterWait_effect {due : ℚ} (howner : d.owner = .waiting due) (nothing : Bool) :
    Effect d (d.afterWait nothing) := by
  unfold afterWait
  split
  · exact .quiet (kept_awaitWork d).quiet
  · split
    · exact .quiet (kept_abortClosed d).quiet
    · split
      · exact expire_effect d howner _
      · split
        · exact .quiet (kept_finallyBlock d _).quiet
        · exact .quiet (kept_awaitWork d).quiet

theorem attempt_effect {m : Message} {s : Stage} (hs : d.stage.next m = some s) :
    Effect d (sendResponse { d with stage := s, attempted := d.attempted ++ [m] } m) := by
  unfold sendResponse
  split
  · next h =>
      refine .dropped m s hs ?_ rfl
      rintro ⟨hclosed, hdisconnected, hcompleted⟩
      simp [hclosed, hdisconnected, hcompleted] at h
  · next h =>
      refine .forwarded m s hs ?_ rfl
      simp only [not_or, Bool.not_eq_true] at h
      exact h

theorem respondReturned_effect {rest : List Message} (howner : d.owner = .responding rest) :
    Effect d (d.respondReturned rest) := by
  cases rest with
  | nil => exact .quiet (kept_finallyBlock d _).quiet
  | cons m rest => exact .continued m rest howner rfl

theorem kept_next {d d' : RequestDeadline} {e : Event} (h : d.next e = some d')
    (he : e.isKept = true) : Kept d d' := by
  cases e with
  | tick t =>
      obtain ⟨hle, hd⟩ := Option.ite_none_right_eq_some.mp h
      obtain rfl := Option.some.inj hd
      exact ⟨⟨rfl, rfl, rfl, rfl, id, id, id, .inl rfl, .refl _, hle⟩,
        rfl, rfl, rfl, rfl, .inl rfl⟩
  | serverMessage m =>
      cases m with
      | request body moreBody => cases he
      | disconnect =>
          simp only [next] at h
          split at h <;> cases h
          exact kept_readDisconnect d
  | readFailed e =>
      simp only [next] at h
      split at h <;> cases h
      exact kept_readFailed d e
  | sendReturned m =>
      obtain ⟨-, hd⟩ := Option.ite_none_right_eq_some.mp h
      obtain rfl := Option.some.inj hd
      exact kept_sendReturned d m
  | sendFailed m e =>
      obtain ⟨-, hd⟩ := Option.ite_none_right_eq_some.mp h
      obtain rfl := Option.some.inj hd
      exact kept_sendFailed d m e
  | assertActive =>
      obtain rfl := Option.some.inj h
      exact kept_setActivity d (RequestActivity.later_assertActive _ _)
  | ownMutation =>
      obtain rfl := Option.some.inj h
      have hlater : d.activity.Later { d.activity with ownsMutation := true } :=
        ⟨rfl, fun _ hr => hr, fun _ => rfl⟩
      exact kept_setActivity d hlater
  | finish r =>
      obtain ⟨-, hd⟩ := Option.ite_none_right_eq_some.mp h
      obtain rfl := Option.some.inj hd
      exact ⟨⟨rfl, rfl, rfl, rfl, id, id, id, .inl rfl, .refl _, le_rfl⟩,
        rfl, rfl, rfl, rfl, .inl rfl⟩
  | workObserved =>
      simp only [next] at h
      split at h <;> cases h
      exact kept_finallyBlock d _
  | respondFailed e =>
      simp only [next] at h
      split at h <;> cases h
      exact kept_finallyBlock d _
  | interruptOwner => exact kept_interruptOwner d h
  | cleanupDone =>
      simp only [next] at h
      split at h <;> cases h
      exact kept_endOwner d _
  | _ => cases he

theorem next_effect {d d' : RequestDeadline} {e : Event} (h : d.next e = some d') :
    Effect d d' := by
  cases e with
  | serverMessage m =>
      simp only [next] at h
      split at h <;> cases h
      exact .quiet (quiet_readMessage d m)
  | putDone =>
      simp only [next] at h
      split at h <;> cases h
      exact .quiet ⟨rfl, rfl, rfl, rfl, id, id, id, .inl rfl, .refl _, le_rfl⟩
  | receive =>
      obtain rfl := Option.some.inj h
      exact .quiet (quiet_receiveBody d)
  | receiveGot i =>
      simp only [next] at h
      split at h <;> cases h
      exact .quiet ((quiet_receiveGot d _).trans (quiet_setReceiving _ _))
  | receiveTimedOut i =>
      simp only [next] at h
      split at h
      · obtain ⟨-, hd⟩ := Option.ite_none_right_eq_some.mp h
        obtain rfl := Option.some.inj hd
        exact .quiet ((quiet_receiveTimedOut d).trans (quiet_setReceiving _ _))
      · cases h
  | interruptSeen i =>
      simp only [next] at h
      split at h
      · obtain ⟨-, hd⟩ := Option.ite_none_right_eq_some.mp h
        obtain rfl := Option.some.inj hd
        exact .quiet (quiet_setReceiving d _)
      · cases h
  | receiveCancelled i =>
      obtain ⟨-, hd⟩ := Option.ite_none_right_eq_some.mp h
      obtain rfl := Option.some.inj hd
      exact .quiet (quiet_setReceiving d _)
  | send m =>
      simp only [next] at h
      split at h
      · next s hs =>
          obtain rfl := Option.some.inj h
          exact attempt_effect d hs
      · cases h
  | wake interruptedDone completedDone =>
      simp only [next] at h
      split at h
      · next due howner =>
          obtain ⟨-, hd⟩ := Option.ite_none_right_eq_some.mp h
          split at hd
          · obtain ⟨-, hd⟩ := Option.ite_none_right_eq_some.mp hd
            obtain rfl := Option.some.inj hd
            exact afterWait_effect d howner true
          · obtain rfl := Option.some.inj hd
            exact afterWait_effect d howner false
      · cases h
  | respondReturned =>
      simp only [next] at h
      split at h
      · next rest howner =>
          obtain rfl := Option.some.inj h
          exact respondReturned_effect d howner
      · cases h
  | _ => exact .quiet (kept_next h rfl).quiet

end RequestDeadline

end QuickApi.RequestTimeout
