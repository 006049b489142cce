/-
  QuickApi.RequestTimeout.Conclusion

  How a request ends that nobody disturbs: where the application keeps its
  promise (`Honest`), the middleware returns behind a whole response only, and
  an exception leaves it behind the start of one (`Conclusive`).
-/

import QuickApi.RequestTimeout.Ownership

namespace QuickApi.RequestTimeout

open QuickApi.Lib

/-- What the outcome of an application says about its attempt: it returns behind a whole
    response, and without any response only a cancellation ends it. -/
def Honest (stage : Stage) : Outcome → Prop
  | .ok () => stage = .finished
  | .error e => e = .cancelled ∨ stage ≠ .fresh

/-- A stage that has been left does not come back. -/
theorem Honest.next {s s' : Stage} {m : Message} {r : Outcome} (h : Honest s r)
    (hm : s.next m = some s') : Honest s' r := by
  have hbegun : s' ≠ .fresh := by
    rintro rfl
    cases s <;> cases m <;> rename_i more <;> cases more <;> cases hm
  rcases r with e | u
  · exact .inr hbegun
  · obtain rfl : s = .finished := h
    cases m <;> cases hm

/-- The outcome that `run` is left with. -/
def Owner.outcome : Owner → Option Outcome
  | .cleaning r => some r
  | .ended r => some r
  | _ => none

/-- `run` has returned. -/
def Owner.returned : Owner → Bool
  | .ended (.ok ()) => true
  | _ => false

theorem Owner.eq_of_returned {o : Owner} (h : o.returned = true) : o = .ended (.ok ()) := by
  cases o with
  | ended r =>
      cases r with
      | error e => cases h
      | ok u => rfl
  | _ => cases h

/-- `run` waits for its work. -/
def Owner.Watching : Owner → Prop
  | .waiting _ => True
  | .awaitingWork => True
  | _ => False

namespace RequestDeadline

/-- The whole response of the application was passed to the server, or a whole 408. -/
def Answered (d : RequestDeadline) : Prop :=
  (d.sentBy .application = d.attempted ∧ d.stage = .finished) ∨
    ∃ detail, d.sentBy .timeout = errorResponse 408 detail

/-- How `run` may end: behind a whole response, or with a failure of the server's own channel,
    a cancellation, or an exception behind the start of a response. -/
def Concluded (d : RequestDeadline) : Outcome → Prop
  | .ok () => d.disconnected = true ∨ d.Answered
  | .error e => e = .cancelled ∨ d.sent ≠ [] ∨ d.reader = .ended (.error e)

structure Conclusive (d : RequestDeadline) : Prop where
  sending : ∀ m ∈ d.sending, (.application, m) ∈ d.sent
  completed : d.completed = true → ∃ data, (.application, .body data false) ∈ d.sent
  whole : ∀ data, (.application, .body data false) ∈ d.sent → d.sentBy .application = d.attempted
  started : d.started = true → d.sent ≠ []
  responding : ∀ rest, d.owner = .responding rest → d.sent ≠ []
  watching : d.owner.Watching → d.closed = false
  work : ∀ r, d.work = some r → Honest d.stage r
  concluded : ∀ r, d.owner.outcome = some r → d.Concluded r

theorem conclusive_start (a : Arrival) : Conclusive a.start where
  sending m hm := absurd hm List.not_mem_nil
  completed h := absurd h Bool.false_ne_true
  whole _ _ := rfl
  started h := absurd h Bool.false_ne_true
  responding _ h := by cases h
  watching _ := rfl
  work _ h := by cases h
  concluded _ h := by cases h

variable {d d' : RequestDeadline}

-- ============================================================================
-- Steps without a message
-- ============================================================================

/-- From `d` to `d'` no message was attempted or sent, and the outcome of the work is the same. -/
structure Held (d d' : RequestDeadline) : Prop where
  sent : d'.sent = d.sent
  attempted : d'.attempted = d.attempted
  stage : d'.stage = d.stage
  started : d'.started = d.started
  work : d'.work = d.work
  sending : d'.sending ⊆ d.sending
  completed : d'.completed = d.completed
  disconnected : d.disconnected = true → d'.disconnected = true
  reader : ∀ r, d.reader = .ended r → d'.reader = .ended r

theorem Held.trans {a b c : RequestDeadline} (h : Held a b) (h' : Held b c) : Held a c where
  sent := h'.sent.trans h.sent
  attempted := h'.attempted.trans h.attempted
  stage := h'.stage.trans h.stage
  started := h'.started.trans h.started
  work := h'.work.trans h.work
  sending := List.Subset.trans h'.sending h.sending
  completed := h'.completed.trans h.completed
  disconnected ha := h'.disconnected (h.disconnected ha)
  reader r hr := h'.reader r (h.reader r hr)

theorem Held.answered (h : Held d d') (ha : d.Answered) : d'.Answered := by
  unfold Answered at ha ⊢
  rw [sentBy_of_sent h.sent, sentBy_of_sent h.sent, h.attempted, h.stage]
  exact ha

theorem Held.concluded (h : Held d d') {r : Outcome} (hr : d.Concluded r) : d'.Concluded r := by
  rcases r with e | u
  · obtain hcancelled | hsent | hreader := hr
    · exact .inl hcancelled
    · exact .inr (.inl (h.sent ▸ hsent))
    · exact .inr (.inr (h.reader _ hreader))
  · exact hr.imp h.disconnected h.answered

/-- Where the owner stands is all that such a step has to account for. -/
theorem Conclusive.held (h : Conclusive d) (hheld : Held d d')
    (hresponding : ∀ rest, d'.owner = .responding rest → d'.sent ≠ [])
    (hwatching : d'.owner.Watching → d'.closed = false)
    (hconcluded : ∀ r, d'.owner.outcome = some r → d'.Concluded r) : Conclusive d' where
  sending m hm := hheld.sent ▸ h.sending m (hheld.sending hm)
  completed hc := hheld.sent ▸ h.completed (hheld.completed ▸ hc)
  whole data hdata := by
    rw [sentBy_of_sent hheld.sent, hheld.attempted]
    exact h.whole data (hheld.sent ▸ hdata)
  started hs := hheld.sent ▸ h.started (hheld.started ▸ hs)
  responding := hresponding
  watching := hwatching
  work r hr := hheld.stage ▸ h.work r (hheld.work ▸ hr)
  concluded := hconcluded

/-- The owner does not move. -/
theorem Conclusive.unmoved (h : Conclusive d) (hheld : Held d d') (howner : d'.owner = d.owner)
    (hclosed : d'.closed = d.closed) : Conclusive d' := by
  apply h.held hheld
  · intro rest hrest
    rw [hheld.sent]
    exact h.responding rest (howner ▸ hrest)
  · intro hwatching
    rw [hclosed]
    exact h.watching (howner ▸ hwatching)
  · intro r hr
    exact hheld.concluded (h.concluded r (howner ▸ hr))

theorem held_refl (d : RequestDeadline) : Held d d :=
  ⟨rfl, rfl, rfl, rfl, rfl, List.Subset.refl _, rfl, id, fun _ => id⟩

theorem held_cancelWork (d : RequestDeadline) : Held d d.cancelWork := by
  unfold cancelWork
  split
  · exact held_refl d
  · exact ⟨rfl, rfl, rfl, rfl, rfl, List.Subset.refl _, rfl, id, fun _ => id⟩

theorem held_cancelUnlessOwned (d : RequestDeadline) : Held d d.cancelUnlessOwned := by
  unfold cancelUnlessOwned
  split
  · exact held_refl d
  · exact held_cancelWork d

theorem held_closeDown (d : RequestDeadline) : Held d d.closeDown := by
  unfold closeDown
  split
  · exact ⟨rfl, rfl, rfl, rfl, rfl, List.Subset.refl _, rfl, id, fun _ => id⟩
  · exact ⟨rfl, rfl, rfl, rfl, rfl, List.Subset.refl _, rfl, id, fun _ => id⟩

theorem held_cancelLast (d : RequestDeadline) : Held d d.cancelLast := by
  unfold cancelLast
  split
  · exact held_cancelWork d
  · exact held_refl d

theorem held_finallyBlock (d : RequestDeadline) (r : Outcome) : Held d (d.finallyBlock r) := by
  rw [finallyBlock_eq]
  have hlast := (held_closeDown d).trans (held_cancelLast d.closeDown)
  refine hlast.trans ⟨rfl, rfl, rfl, rfl, rfl, List.Subset.refl _, rfl, id, ?_⟩
  intro outcome hreader
  simp only [hreader]

theorem finallyBlock_owner (d : RequestDeadline) (r : Outcome) :
    (d.finallyBlock r).owner = .cleaning r := by
  rw [finallyBlock_eq]

-- ============================================================================
-- run
-- ============================================================================

/-- `run` ends from `b` as it may from `d`. -/
theorem Conclusive.finallyBlock (h : Conclusive d) {b : RequestDeadline} (hb : Held d b)
    {r : Outcome} (hr : d.Concluded r) : Conclusive (b.finallyBlock r) := by
  have hheld := hb.trans (held_finallyBlock b r)
  have howner := finallyBlock_owner b r
  apply h.held hheld
  · intro rest hrest
    rw [howner] at hrest
    cases hrest
  · intro hwatching
    rw [howner] at hwatching
    exact hwatching.elim
  · intro outcome houtcome
    rw [howner] at houtcome
    obtain rfl := Option.some.inj houtcome
    exact hheld.concluded hr

/-- While the request is open and connected, everything that was attempted was passed on. -/
theorem Conclusive.forwarded (h : Conclusive d) (hd : Accounted d) (hclosed : d.closed = false)
    (hdisconnected : d.disconnected = false) : d.sentBy .application = d.attempted := by
  cases hcompleted : d.completed with
  | false => exact hd.forwarded_all ⟨hclosed, hdisconnected, hcompleted⟩
  | true =>
      obtain ⟨data, hdata⟩ := h.completed hcompleted
      exact h.whole data hdata

theorem Conclusive.sent_ne_nil (h : Conclusive d) (hcompleted : d.completed = true) :
    d.sent ≠ [] := by
  obtain ⟨data, hdata⟩ := h.completed hcompleted
  exact List.ne_nil_of_mem hdata

/-- The work of a request that is open, and has its response or its client still. -/
theorem Conclusive.concluded_work (h : Conclusive d) (hd : Accounted d)
    (hclosed : d.closed = false) (hopen : d.completed = true ∨ d.disconnected = false)
    {r : Outcome} (hwork : d.work = some r) : d.Concluded r := by
  have hhonest := h.work r hwork
  rcases r with e | u
  · obtain hcompleted | hdisconnected := hopen
    · exact .inr (.inl (h.sent_ne_nil hcompleted))
    · have hall := h.forwarded hd hclosed hdisconnected
      obtain hcancelled | hstage := hhonest
      · exact .inl hcancelled
      · refine .inr (.inl ?_)
        intro hsent
        have hnone : d.attempted = [] := by
          rw [← hall, sentBy, hsent]
          rfl
        have hshape := hd.shape
        rw [hnone] at hshape
        cases hs : d.stage with
        | fresh => exact hstage hs
        | streaming =>
            rw [hs] at hshape
            obtain ⟨status, chunks, heq⟩ := hshape
            cases heq
        | finished =>
            rw [hs] at hshape
            obtain ⟨status, chunks, data, heq⟩ := hshape
            cases heq
  · cases hdisconnected : d.disconnected with
    | true => exact .inl hdisconnected
    | false => exact .inr (.inl ⟨h.forwarded hd hclosed hdisconnected, hhonest⟩)

theorem Conclusive.awaitWork (h : Conclusive d) (hd : Accounted d) (hclosed : d.closed = false)
    (hopen : d.completed = true ∨ d.disconnected = false) : Conclusive d.awaitWork := by
  unfold RequestDeadline.awaitWork
  split
  · next r hwork => exact h.finallyBlock (held_refl d) (h.concluded_work hd hclosed hopen hwork)
  · refine h.held ⟨rfl, rfl, rfl, rfl, rfl, List.Subset.refl _, rfl, id, fun _ => id⟩ ?_
      (fun _ => hclosed) ?_
    · intro rest hrest
      cases hrest
    · intro r hr
      cases hr

/-- The next message of the 408. -/
theorem Conclusive.respond (h : Conclusive d) {b : RequestDeadline} (hb : Held d b) (m : Message)
    (rest : List Message) :
    Conclusive { b with owner := .responding rest, sent := b.sent ++ [(.timeout, m)] } := by
  have happlication : ∀ m', (.application, m') ∈ b.sent ++ [(Origin.timeout, m)] ↔
      (.application, m') ∈ d.sent := by
    intro m'
    rw [List.mem_append, hb.sent]
    simp
  have hsentBy : sentBy
      { b with owner := .responding rest, sent := b.sent ++ [(.timeout, m)] } .application =
        d.sentBy .application := by
    apply sentBy_snoc_other (o := .timeout) (m := m)
    · rw [hb.sent]
    · decide
  refine ⟨?_, ?_, ?_, ?_, ?_, fun ho => ho.elim, ?_, ?_⟩
  · intro m' hm'
    exact (happlication m').mpr (h.sending m' (hb.sending hm'))
  · intro hc
    obtain ⟨data, hdata⟩ := h.completed (hb.completed ▸ hc)
    exact ⟨data, (happlication _).mpr hdata⟩
  · intro data hdata
    rw [hsentBy]
    exact (h.whole data ((happlication _).mp hdata)).trans hb.attempted.symm
  · intro _
    exact List.append_ne_nil_of_right_ne_nil _ (List.cons_ne_nil _ _)
  · intro _ _
    exact List.append_ne_nil_of_right_ne_nil _ (List.cons_ne_nil _ _)
  · intro r hr
    exact hb.stage ▸ h.work r (hb.work ▸ hr)
  · intro r hr
    cases hr

theorem Conclusive.expire (h : Conclusive d) (detail : String) : Conclusive (d.expire detail) := by
  let b := RequestDeadline.cancelUnlessOwned
    { d with closed := true, activity := d.activity.abandon detail }
  have hexpire : d.expire detail =
      if b.started then
        { b with aborted := true }.finallyBlock (.error (.streamDeadlineExceeded detail))
      else
        { b with
          owner := .responding [.body (.error 408 detail) false]
          sent := b.sent ++ [(.timeout, .start 408)] } := rfl
  have hb : Held d b := by
    apply Held.trans ?_ (held_cancelUnlessOwned _)
    exact ⟨rfl, rfl, rfl, rfl, rfl, List.Subset.refl _, rfl, id, fun _ => id⟩
  rw [hexpire]
  split
  · next hstarted =>
      have haborted : Held b { b with aborted := true } :=
        ⟨rfl, rfl, rfl, rfl, rfl, List.Subset.refl _, rfl, id, fun _ => id⟩
      apply h.finallyBlock (hb.trans haborted)
      exact .inr (.inl (h.started (hb.started ▸ hstarted)))
  · exact h.respond hb _ _

theorem Conclusive.afterWait (h : Conclusive d) (hd : Accounted d) (hclosed : d.closed = false)
    (nothing : Bool) : Conclusive (d.afterWait nothing) := by
  unfold RequestDeadline.afterWait
  split
  · next hcompleted => exact h.awaitWork hd hclosed (.inl hcompleted)
  · split
    · next hdisconnected =>
        have hconcluded : d.Concluded (.ok ()) := .inl hdisconnected
        apply h.finallyBlock (Held.trans ?_ (held_cancelUnlessOwned _)) hconcluded
        exact ⟨rfl, rfl, rfl, rfl, rfl, List.Subset.refl _, rfl, id, fun _ => id⟩
    · next hdisconnected =>
        split
        · exact h.expire _
        · split
          · next e hreader => exact h.finallyBlock (held_refl d) (.inr (.inr hreader))
          · exact h.awaitWork hd hclosed (.inr (Bool.eq_false_iff.mpr hdisconnected))

theorem Conclusive.respondReturned (h : Conclusive d) (hd : Accounted d) {rest : List Message}
    (howner : d.owner = .responding rest) : Conclusive (d.respondReturned rest) := by
  unfold RequestDeadline.respondReturned
  split
  · obtain ⟨-, -, detail, hresponse⟩ := hd.responding _ howner
    rw [List.append_nil] at hresponse
    exact h.finallyBlock (held_refl d) (.inr (.inr ⟨detail, hresponse⟩))
  · exact h.respond (held_refl d) _ _

theorem Conclusive.leave (h : Conclusive d) {r : Outcome} (hr : d.Concluded r) :
    Conclusive { d with owner := .ended r } := by
  refine h.held ⟨rfl, rfl, rfl, rfl, rfl, List.Subset.refl _, rfl, id, fun _ => id⟩ ?_
    (fun ho => ho.elim) ?_
  · intro rest hrest
    cases hrest
  · intro outcome houtcome
    obtain rfl := Option.some.inj houtcome
    exact hr

theorem Conclusive.interruptOwner (h : Conclusive d) (hnext : d.interruptOwner = some d') :
    Conclusive d' := by
  unfold RequestDeadline.interruptOwner at hnext
  split at hnext <;> cases hnext
  · exact h.finallyBlock (held_refl d) (.inl rfl)
  · split
    · exact h.finallyBlock (held_refl d) (.inl rfl)
    · apply h.unmoved (held_cancelWork d)
      · unfold cancelWork
        split <;> rfl
      · unfold cancelWork
        split <;> rfl
  · exact h.finallyBlock (held_refl d) (.inl rfl)
  · exact h.leave (.inl rfl)

-- ============================================================================
-- Every run
-- ============================================================================

theorem held_receiveBody (d : RequestDeadline) : Held d d.receiveBody.2 := by
  unfold receiveBody
  split
  · exact held_refl d
  · split
    · split
      · exact held_refl d
      · exact ⟨rfl, rfl, rfl, rfl, rfl, List.Subset.refl _, rfl, id, fun _ => id⟩
    · split
      · exact ⟨rfl, rfl, rfl, rfl, rfl, List.Subset.refl _, rfl, id, fun _ => id⟩
      · exact ⟨rfl, rfl, rfl, rfl, rfl, List.Subset.refl _, rfl, id, fun _ => id⟩

theorem held_disconnect (d : RequestDeadline) : Held d d.disconnect :=
  ⟨rfl, rfl, rfl, rfl, rfl, List.Subset.refl _, rfl, fun _ => rfl, fun _ => id⟩

/-- A reader that has not ended moves. -/
theorem held_setReader {r : Reader} (hreader : ∀ outcome, d.reader ≠ .ended outcome) :
    Held d { d with reader := r } :=
  ⟨rfl, rfl, rfl, rfl, rfl, List.Subset.refl _, rfl, id, fun outcome h => absurd h (hreader outcome)⟩

theorem Conclusive.readMessage (h : Conclusive d) (hreader : d.reader = .receiving) (m : Inbound) :
    Conclusive (d.readMessage m) := by
  have hrunning : ∀ outcome, d.reader ≠ .ended outcome := by
    intro outcome houtcome
    rw [hreader] at houtcome
    cases houtcome
  cases m with
  | disconnect =>
      show Conclusive { (if d.completed then d else d.disconnect) with reader := .ended (.ok ()) }
      split
      · exact h.unmoved (held_setReader hrunning) rfl rfl
      · exact h.unmoved ((held_disconnect d).trans (held_setReader hrunning)) rfl rfl
  | request body moreBody =>
      show Conclusive (if d.incoming = none then
          { d with incoming := some (.request body moreBody), reader := .receiving }
        else { d with reader := .putting (.request body moreBody) })
      split
      · have hincoming : Held d { d with incoming := some (.request body moreBody) } :=
          ⟨rfl, rfl, rfl, rfl, rfl, List.Subset.refl _, rfl, id, fun _ => id⟩
        exact h.unmoved (hincoming.trans (held_setReader hrunning)) rfl rfl
      · exact h.unmoved (held_setReader hrunning) rfl rfl

theorem Conclusive.readFailed (h : Conclusive d) (hreader : d.reader = .receiving) (e : Exc) :
    Conclusive (d.readFailed e) := by
  have hrunning : ∀ outcome, d.reader ≠ .ended outcome := by
    intro outcome houtcome
    rw [hreader] at houtcome
    cases houtcome
  unfold RequestDeadline.readFailed
  split
  · exact h.unmoved ((held_disconnect d).trans (held_setReader hrunning)) rfl rfl
  · exact h.unmoved (held_setReader hrunning) rfl rfl

/-- Only a response that is not over is attempted further. -/
theorem Concluded.attempt {r : Outcome} (hr : d.Concluded r) {m : Message} {s : Stage}
    (hs : d.stage.next m = some s) (hdisconnected : d'.disconnected = d.disconnected)
    (hreader : d'.reader = d.reader) (hsent : d.sent ≠ [] → d'.sent ≠ [])
    (htimeout : d'.sentBy .timeout = d.sentBy .timeout) : d'.Concluded r := by
  rcases r with e | u
  · obtain hcancelled | hne | he := hr
    · exact .inl hcancelled
    · exact .inr (.inl (hsent hne))
    · exact .inr (.inr (hreader.trans he))
  · obtain hd | ⟨-, hfinished⟩ | ⟨detail, hdetail⟩ := hr
    · exact .inl (hdisconnected.trans hd)
    · rw [hfinished] at hs
      cases m <;> cases hs
    · exact .inr (.inr ⟨detail, htimeout.trans hdetail⟩)

/-- A message that the application attempts. -/
theorem Conclusive.send (h : Conclusive d) (hd : Accounted d) {m : Message} {s : Stage}
    (hs : d.stage.next m = some s) :
    Conclusive (sendResponse { d with stage := s, attempted := d.attempted ++ [m] } m) := by
  have hunfinished : ∀ data, (.application, .body data false) ∉ d.sent := by
    intro data hdata
    rw [hd.stage_of_final hdata] at hs
    cases m <;> cases hs
  unfold sendResponse
  split
  · refine ⟨h.sending, h.completed, ?_, h.started, h.responding, h.watching, ?_, ?_⟩
    · exact fun data hdata => absurd hdata (hunfinished data)
    · exact fun r hr => (h.work r hr).next hs
    · exact fun r hr => (h.concluded r hr).attempt hs rfl rfl id rfl
  · next hopen =>
      simp only [not_or, Bool.not_eq_true] at hopen
      have hnonempty : d.sent ++ [(Origin.application, m)] ≠ [] :=
        List.append_ne_nil_of_right_ne_nil _ (List.cons_ne_nil _ _)
      refine ⟨?_, ?_, ?_, fun _ => hnonempty, fun _ _ => hnonempty, h.watching, ?_, ?_⟩
      · intro m' hm'
        obtain hold | hnew := List.mem_append.mp hm'
        · exact List.mem_append_left _ (h.sending m' hold)
        · rw [List.mem_singleton.mp hnew]
          exact List.mem_append_right _ (List.mem_singleton.mpr rfl)
      · intro hc
        exact absurd (hopen.2.2.symm.trans hc) Bool.false_ne_true
      · intro _ _
        rw [sentBy_snoc_self (d := d) (m := m) rfl, hd.forwarded_all hopen]
      · exact fun r hr => (h.work r hr).next hs
      · intro r hr
        refine (h.concluded r hr).attempt hs rfl rfl (fun _ => hnonempty) ?_
        exact sentBy_snoc_other (d := d) (o := .application) (m := m) rfl (by decide)

theorem Conclusive.setSending (h : Conclusive d) (m : Message) :
    Conclusive { d with sending := d.sending.erase m } := by
  have hsubset : d.sending.erase m ⊆ d.sending := fun m' hm' => List.mem_of_mem_erase hm'
  exact h.unmoved ⟨rfl, rfl, rfl, rfl, rfl, hsubset, rfl, id, fun _ => id⟩ rfl rfl

theorem Conclusive.sendReturned (h : Conclusive d) {m : Message} (hm : m ∈ d.sending) :
    Conclusive (d.sendReturned m) := by
  have hset := h.setSending m
  refine ⟨hset.sending, ?_, h.whole, h.started, h.responding, h.watching, h.work, h.concluded⟩
  intro hc
  cases hfinal : m.isFinal with
  | false =>
      rw [RequestDeadline.sendReturned, hfinal] at hc
      exact h.completed hc
  | true =>
      cases m with
      | start status => cases hfinal
      | body data moreBody =>
          obtain rfl : moreBody = false := by simpa [Message.isFinal] using hfinal
          exact ⟨data, h.sending _ hm⟩

theorem Conclusive.sendFailed (h : Conclusive d) (m : Message) (e : Exc) :
    Conclusive (d.sendFailed m e) := by
  unfold RequestDeadline.sendFailed
  split
  · exact (h.unmoved (held_disconnect d) rfl rfl).setSending m
  · exact h.setSending m

/-- What an event may do where the application is honest. -/
def Behaved (d : RequestDeadline) (e : Event) : Prop := ∀ r, e = .finish r → Honest d.stage r

theorem Conclusive.next (h : Conclusive d) (hd : Accounted d) (ho : Owned d) {e : Event}
    (he : d.Behaved e) (hnext : d.next e = some d') : Conclusive d' := by
  cases e with
  | tick t =>
      obtain ⟨-, heq⟩ := Option.ite_none_right_eq_some.mp hnext
      obtain rfl := Option.some.inj heq
      exact h.unmoved
        ⟨rfl, rfl, rfl, rfl, rfl, List.Subset.refl _, rfl, id, fun _ => id⟩ rfl rfl
  | serverMessage m =>
      simp only [RequestDeadline.next] at hnext
      split at hnext
      · next hreader =>
          obtain rfl := Option.some.inj hnext
          exact h.readMessage hreader m
      · cases hnext
  | readFailed e =>
      simp only [RequestDeadline.next] at hnext
      split at hnext
      · next hreader =>
          obtain rfl := Option.some.inj hnext
          exact h.readFailed hreader e
      · cases hnext
  | putDone =>
      simp only [RequestDeadline.next] at hnext
      split at hnext
      · next m hreader _ =>
          obtain rfl := Option.some.inj hnext
          have hincoming : Held d { d with incoming := some m } :=
            ⟨rfl, rfl, rfl, rfl, rfl, List.Subset.refl _, rfl, id, fun _ => id⟩
          have hrunning : ∀ outcome, d.reader ≠ .ended outcome := by
            intro outcome houtcome
            rw [hreader] at houtcome
            cases houtcome
          exact h.unmoved (hincoming.trans (held_setReader hrunning)) rfl rfl
      · cases hnext
  | receive =>
      obtain rfl := Option.some.inj hnext
      have hundisturbed := undisturbed_receiveBody (d := d)
      exact h.unmoved (held_receiveBody d) hundisturbed.owner hundisturbed.closed
  | receiveGot i =>
      simp only [RequestDeadline.next] at hnext
      split at hnext
      · obtain rfl := Option.some.inj hnext
        exact h.unmoved
          ⟨rfl, rfl, rfl, rfl, rfl, List.Subset.refl _, rfl, id, fun _ => id⟩ rfl rfl
      · cases hnext
  | receiveTimedOut i =>
      simp only [RequestDeadline.next] at hnext
      split at hnext
      · obtain ⟨-, heq⟩ := Option.ite_none_right_eq_some.mp hnext
        obtain rfl := Option.some.inj heq
        exact h.unmoved
          ⟨rfl, rfl, rfl, rfl, rfl, List.Subset.refl _, rfl, id, fun _ => id⟩ rfl rfl
      · cases hnext
  | interruptSeen i =>
      simp only [RequestDeadline.next] at hnext
      split at hnext
      · obtain ⟨-, heq⟩ := Option.ite_none_right_eq_some.mp hnext
        obtain rfl := Option.some.inj heq
        exact h.unmoved
          ⟨rfl, rfl, rfl, rfl, rfl, List.Subset.refl _, rfl, id, fun _ => id⟩ rfl rfl
      · cases hnext
  | receiveCancelled i =>
      obtain ⟨-, heq⟩ := Option.ite_none_right_eq_some.mp hnext
      obtain rfl := Option.some.inj heq
      exact h.unmoved
        ⟨rfl, rfl, rfl, rfl, rfl, List.Subset.refl _, rfl, id, fun _ => id⟩ rfl rfl
  | send m =>
      simp only [RequestDeadline.next] at hnext
      split at hnext
      · next s hs =>
          obtain rfl := Option.some.inj hnext
          exact h.send hd hs
      · cases hnext
  | sendReturned m =>
      obtain ⟨hm, heq⟩ := Option.ite_none_right_eq_some.mp hnext
      obtain rfl := Option.some.inj heq
      exact h.sendReturned hm
  | sendFailed m e =>
      obtain ⟨-, heq⟩ := Option.ite_none_right_eq_some.mp hnext
      obtain rfl := Option.some.inj heq
      exact h.sendFailed m e
  | assertActive =>
      obtain rfl := Option.some.inj hnext
      exact h.unmoved
        ⟨rfl, rfl, rfl, rfl, rfl, List.Subset.refl _, rfl, id, fun _ => id⟩ rfl rfl
  | ownMutation =>
      obtain rfl := Option.some.inj hnext
      exact h.unmoved
        ⟨rfl, rfl, rfl, rfl, rfl, List.Subset.refl _, rfl, id, fun _ => id⟩ rfl rfl
  | finish r =>
      obtain ⟨-, heq⟩ := Option.ite_none_right_eq_some.mp hnext
      obtain rfl := Option.some.inj heq
      refine ⟨h.sending, h.completed, h.whole, h.started, h.responding, h.watching, ?_,
        h.concluded⟩
      intro outcome houtcome
      obtain rfl := Option.some.inj houtcome
      exact he r rfl
  | wake interruptedDone completedDone =>
      simp only [RequestDeadline.next] at hnext
      split at hnext
      · next due howner =>
          have hclosed : d.closed = false := h.watching (howner ▸ trivial)
          obtain ⟨-, hwoken⟩ := Option.ite_none_right_eq_some.mp hnext
          split at hwoken
          · obtain ⟨-, heq⟩ := Option.ite_none_right_eq_some.mp hwoken
            obtain rfl := Option.some.inj heq
            exact h.afterWait hd hclosed true
          · obtain rfl := Option.some.inj hwoken
            exact h.afterWait hd hclosed false
      · cases hnext
  | workObserved =>
      simp only [RequestDeadline.next] at hnext
      split at hnext
      · next r howner hwork =>
          obtain rfl := Option.some.inj hnext
          have hclosed : d.closed = false := h.watching (howner ▸ trivial)
          have hcompleted := ho.awaiting howner
          exact h.finallyBlock (held_refl d)
            (h.concluded_work hd hclosed (.inl hcompleted) hwork)
      · cases hnext
  | respondReturned =>
      simp only [RequestDeadline.next] at hnext
      split at hnext
      · next rest howner =>
          obtain rfl := Option.some.inj hnext
          exact h.respondReturned hd howner
      · cases hnext
  | respondFailed e =>
      simp only [RequestDeadline.next] at hnext
      split at hnext
      · next rest howner =>
          obtain rfl := Option.some.inj hnext
          exact h.finallyBlock (held_refl d) (.inr (.inl (h.responding rest howner)))
      · cases hnext
  | interruptOwner => exact h.interruptOwner hnext
  | cleanupDone =>
      simp only [RequestDeadline.next] at hnext
      split at hnext
      · next r howner =>
          obtain rfl := Option.some.inj hnext
          have hr := h.concluded r (by rw [howner]; rfl)
          exact h.leave hr
      · cases hnext

theorem stage_expire (d : RequestDeadline) (detail : String) :
    (d.expire detail).stage = d.stage := by
  obtain ⟨b, hb, -, hexpire⟩ := d.expire_eq detail
  rw [hexpire]
  split
  · exact ((kept_abort b).trans (kept_finallyBlock _ _)).quiet.stage.trans hb.quiet.stage
  · exact hb.quiet.stage

theorem stage_afterWait (d : RequestDeadline) (nothing : Bool) :
    (d.afterWait nothing).stage = d.stage := by
  unfold afterWait
  split
  · exact (kept_awaitWork d).quiet.stage
  · split
    · exact (kept_abortClosed d).quiet.stage
    · split
      · exact d.stage_expire _
      · split
        · exact (kept_finallyBlock d _).quiet.stage
        · exact (kept_awaitWork d).quiet.stage

/-- Only a send of the application moves its stage. -/
theorem stage_next {e : Event} (h : d.next e = some d') (he : ∀ m, e ≠ .send m) :
    d'.stage = d.stage := by
  cases e with
  | serverMessage m =>
      simp only [next] at h
      split at h <;> cases h
      exact (quiet_readMessage d m).stage
  | putDone =>
      simp only [next] at h
      split at h <;> cases h
      rfl
  | receive =>
      obtain rfl := Option.some.inj h
      exact (quiet_receiveBody d).stage
  | receiveGot i =>
      simp only [next] at h
      split at h <;> cases h
      rfl
  | receiveTimedOut i =>
      simp only [next] at h
      split at h
      · obtain ⟨-, hd⟩ := Option.ite_none_right_eq_some.mp h
        obtain rfl := Option.some.inj hd
        rfl
      · cases h
  | interruptSeen i =>
      simp only [next] at h
      split at h
      · obtain ⟨-, hd⟩ := Option.ite_none_right_eq_some.mp h
        obtain rfl := Option.some.inj hd
        rfl
      · cases h
  | receiveCancelled i =>
      obtain ⟨-, hd⟩ := Option.ite_none_right_eq_some.mp h
      obtain rfl := Option.some.inj hd
      rfl
  | send m => exact absurd rfl (he m)
  | wake interruptedDone completedDone =>
      simp only [next] at h
      split at h
      · obtain ⟨-, hd⟩ := Option.ite_none_right_eq_some.mp h
        split at hd
        · obtain ⟨-, hd⟩ := Option.ite_none_right_eq_some.mp hd
          obtain rfl := Option.some.inj hd
          exact d.stage_afterWait true
        · obtain rfl := Option.some.inj hd
          exact d.stage_afterWait false
      · cases h
  | respondReturned =>
      simp only [next] at h
      split at h
      · next rest howner =>
          obtain rfl := Option.some.inj h
          cases rest with
          | nil => exact (kept_finallyBlock d _).quiet.stage
          | cons m rest => rfl
      · cases h
  | _ => exact (kept_next h rfl).quiet.stage

/-- A send that the stage allows moves it on. -/
theorem next_send {m : Message} {s : Stage} (hs : d.stage.next m = some s) :
    ∃ d', d.next (.send m) = some d' ∧ d'.stage = s := by
  refine ⟨sendResponse { d with stage := s, attempted := d.attempted ++ [m] } m, ?_, ?_⟩
  · simp only [next, hs]
  · unfold sendResponse
    split
    · rfl
    · rfl

/-- An answered request has got one whole response. -/
theorem Accounted.wellFormed (h : Accounted d) (ha : d.Answered) :
    WellFormed (d.sent.map Prod.snd) := by
  have hmap (o : Origin) (l : List Message) : (l.map (o, ·)).map Prod.snd = l := by
    rw [List.map_map]
    exact List.map_id l
  obtain ⟨hall, hfinished⟩ | ⟨detail, hdetail⟩ := ha
  · have hwhole : WellFormed d.attempted := by
      have hshape := h.shape
      rw [hfinished] at hshape
      exact hshape
    have hnone : d.sentBy .timeout = [] := by
      by_contra hne
      obtain ⟨status, chunks, data, heq⟩ := hwhole
      rw [← hall, h.not_started (h.refused hne).2] at heq
      cases heq
    have hsent : d.sent = (d.sentBy .application).map (.application, ·) := by
      apply sent_eq_map
      intro o ho
      cases o with
      | application => exact absurd rfl ho
      | timeout => exact hnone
    rw [hsent, hmap, hall]
    exact hwhole
  · have hne : d.sentBy .timeout ≠ [] := by
      rw [hdetail]
      exact List.cons_ne_nil _ _
    have hsent : d.sent = (d.sentBy .timeout).map (.timeout, ·) := by
      apply sent_eq_map
      intro o ho
      cases o with
      | application => exact h.not_started (h.refused hne).2
      | timeout => exact absurd rfl ho
    rw [hsent, hmap, hdetail]
    exact wellFormed_errorResponse 408 detail

end RequestDeadline

end QuickApi.RequestTimeout
