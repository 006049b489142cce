/-
  QuickApi.RequestTimeout.Ownership

  The deadline's half of the contract with the owner of a mutation: the
  activity is abandoned before the request lets go of its work
  (`deadline_lets_go_abandoned`), and a work task that owns a mutation is left
  to decide for itself.
-/

import QuickApi.RequestTimeout.BodyDelivery
import QuickApi.RequestTimeout.Forwarding

namespace QuickApi.RequestTimeout

open QuickApi.Lib

/-- A cancellation that cannot tear down the owner of a mutation whose response is still open:
    the application's own receive timed out, or there was no owner, or the response is
    complete. -/
def Cancellation.Excused (c : Cancellation) : Prop :=
  c.byBodyTimer = true ∨ c.ownsMutation = false ∨ c.completed = true

/-- `run` is past its decision. -/
def Owner.Left : Owner → Prop
  | .cleaning _ => True
  | .ended _ => True
  | _ => False

instance : DecidablePred Owner.Left
  | .cleaning _ => isTrue trivial
  | .ended _ => isTrue trivial
  | .waiting _ => isFalse id
  | .awaitingWork => isFalse id
  | .responding _ => isFalse id

/-- `run` sends the 408. -/
def Owner.Responding : Owner → Prop
  | .responding _ => True
  | _ => False

namespace RequestDeadline

/-- The client went away, a timer expired, the response was aborted or a 408 begun. -/
def Interrupted (d : RequestDeadline) : Prop :=
  d.disconnected = true ∨ d.timeoutDetail ≠ none ∨ d.aborted = true ∨ d.sentBy .timeout ≠ []

/-- The request is over, whatever its work does. -/
def LetGo (d : RequestDeadline) : Prop :=
  d.Interrupted ∨ d.owner.Responding ∨ (d.closed = true ∧ d.work = none)

structure Owned (d : RequestDeadline) : Prop where
  cancellations : ∀ c ∈ d.cancellations, c.Excused
  abandoned : d.LetGo → d.activity.abandoned ≠ none
  interrupted : d.interrupted = true → d.disconnected = true ∨ d.timeoutDetail ≠ none
  reader : d.reader = .ended (.ok ()) → d.disconnected = true ∨ d.completed = true
  awaiting : d.owner = .awaitingWork → d.completed = true
  left : d.owner.Left → d.work = none → d.cancelling ≠ 0 ∨ d.activity.ownsMutation = true

theorem owned_start (a : Arrival) : Owned a.start where
  cancellations c hc := absurd hc List.not_mem_nil
  abandoned h := by simp [LetGo, Interrupted, Arrival.start, new, sentBy, Owner.Responding] at h
  interrupted h := absurd h Bool.false_ne_true
  reader h := nomatch h
  awaiting h := nomatch h
  left h := h.elim

-- ============================================================================
-- Steps that leave the owner and the work alone
-- ============================================================================

/-- From `d` to `d'` neither the owner nor the work moved and no interruption was recorded. -/
structure Undisturbed (d d' : RequestDeadline) : Prop where
  cancellations : d'.cancellations = d.cancellations
  cancelling : d'.cancelling = d.cancelling
  disconnected : d'.disconnected = d.disconnected
  timeoutDetail : d'.timeoutDetail = d.timeoutDetail
  aborted : d'.aborted = d.aborted
  interrupted : d'.interrupted = d.interrupted
  closed : d'.closed = d.closed
  owner : d'.owner = d.owner
  work : d'.work = d.work
  refused : d'.sentBy .timeout = d.sentBy .timeout
  completed : d.completed = true → d'.completed = true
  reader : d'.reader = .ended (.ok ()) → d.reader = .ended (.ok ())
  activity : d.activity.Later d'.activity

end RequestDeadline

/-- A reason once recorded stays recorded. -/
theorem RequestActivity.Later.abandoned_ne_none {a b : RequestActivity} (h : a.Later b)
    (ha : a.abandoned ≠ none) : b.abandoned ≠ none := by
  obtain ⟨reason, hreason⟩ := Option.ne_none_iff_exists'.mp ha
  rw [h.abandoned reason hreason]
  exact Option.some_ne_none reason

namespace RequestDeadline

variable {d d' : RequestDeadline}

theorem Owned.undisturbed (h : Owned d) (hd : Undisturbed d d') : Owned d' where
  cancellations := by
    rw [hd.cancellations]
    exact h.cancellations
  abandoned hgo := by
    apply hd.activity.abandoned_ne_none
    apply h.abandoned
    unfold LetGo Interrupted at hgo ⊢
    rw [hd.disconnected, hd.timeoutDetail, hd.aborted, hd.refused, hd.owner, hd.closed,
      hd.work] at hgo
    exact hgo
  interrupted := by
    rw [hd.interrupted, hd.disconnected, hd.timeoutDetail]
    exact h.interrupted
  reader hreader := by
    rw [hd.disconnected]
    exact (h.reader (hd.reader hreader)).imp_right hd.completed
  awaiting howner := by
    rw [hd.owner] at howner
    exact hd.completed (h.awaiting howner)
  left howner hwork := by
    rw [hd.owner] at howner
    rw [hd.work] at hwork
    rw [hd.cancelling]
    exact (h.left howner hwork).imp_right hd.activity.ownsMutation

/-- A later activity alone. -/
theorem undisturbed_setActivity {a : RequestActivity} (ha : d.activity.Later a) :
    Undisturbed d { d with activity := a } :=
  ⟨rfl, rfl, rfl, rfl, rfl, rfl, rfl, rfl, rfl, rfl, id, id, ha⟩

theorem undisturbed_setReceiving (l : List Receiving) :
    Undisturbed d { d with receiving := l } :=
  ⟨rfl, rfl, rfl, rfl, rfl, rfl, rfl, rfl, rfl, rfl, id, id, .refl _⟩

theorem undisturbed_receiveBody : Undisturbed d d.receiveBody.2 := by
  have hself : Undisturbed d d := undisturbed_setReceiving d.receiving
  unfold receiveBody
  split
  · exact hself
  · split
    · split
      · exact hself
      · exact undisturbed_setReceiving _
    · split
      · exact ⟨rfl, rfl, rfl, rfl, rfl, rfl, rfl, rfl, rfl, rfl, id, id, .refl _⟩
      · exact undisturbed_setReceiving _

/-- A message of the application does not concern the 408. -/
theorem undisturbed_send (m : Message) (s : Stage) :
    Undisturbed d (sendResponse { d with stage := s, attempted := d.attempted ++ [m] } m) := by
  unfold sendResponse
  split
  · exact ⟨rfl, rfl, rfl, rfl, rfl, rfl, rfl, rfl, rfl, rfl, id, id, .refl _⟩
  · refine ⟨rfl, rfl, rfl, rfl, rfl, rfl, rfl, rfl, rfl, ?_, id, id, .refl _⟩
    exact sentBy_snoc_other (d := d) (o := .application) rfl (by decide)

theorem undisturbed_sendReturned (m : Message) : Undisturbed d (d.sendReturned m) := by
  refine ⟨rfl, rfl, rfl, rfl, rfl, rfl, rfl, rfl, rfl, rfl, ?_, id, .refl _⟩
  intro hcompleted
  unfold sendReturned
  split
  · rfl
  · exact hcompleted

-- ============================================================================
-- Interruptions
-- ============================================================================

theorem Owned.disconnect (h : Owned d) : Owned d.disconnect where
  cancellations := h.cancellations
  abandoned _ := RequestActivity.abandoned_abandon _ _
  interrupted _ := .inl rfl
  reader _ := .inl rfl
  awaiting := h.awaiting
  left howner hwork :=
    (h.left howner hwork).imp_right (RequestActivity.later_abandon _ _).ownsMutation

/-- The reader ends where that is no news or is accounted for. -/
theorem Owned.endReader (h : Owned d) {r : Reader}
    (hr : r = .ended (.ok ()) → d.disconnected = true ∨ d.completed = true) :
    Owned { d with reader := r } :=
  ⟨h.cancellations, h.abandoned, h.interrupted, hr, h.awaiting, h.left⟩

theorem Owned.readMessage (h : Owned d) (m : Inbound) : Owned (d.readMessage m) := by
  unfold RequestDeadline.readMessage
  split
  · show Owned { (if d.completed then d else d.disconnect) with reader := .ended (.ok ()) }
    split
    · next hcompleted => exact h.endReader fun _ => .inr hcompleted
    · exact h.disconnect.endReader fun _ => .inl rfl
  · split
    · exact h.undisturbed ⟨rfl, rfl, rfl, rfl, rfl, rfl, rfl, rfl, rfl, rfl, id, nofun, .refl _⟩
    · exact h.endReader nofun

theorem Owned.readFailed (h : Owned d) (e : Exc) : Owned (d.readFailed e) := by
  unfold RequestDeadline.readFailed
  split
  · exact h.disconnect.endReader fun _ => .inl rfl
  · exact h.endReader nofun

theorem Owned.sendFailed (h : Owned d) (m : Message) (e : Exc) : Owned (d.sendFailed m e) := by
  have hset (d : RequestDeadline) (l : List Message) : Undisturbed d { d with sending := l } :=
    ⟨rfl, rfl, rfl, rfl, rfl, rfl, rfl, rfl, rfl, rfl, id, id, .refl _⟩
  unfold RequestDeadline.sendFailed
  split
  · exact h.disconnect.undisturbed (hset _ _)
  · exact h.undisturbed (hset _ _)

/-- The timer abandons the activity in the step in which it cancels the receiving task. -/
theorem Owned.receiveTimedOut (h : Owned d) : Owned d.receiveTimedOut where
  cancellations c hc := by
    obtain hold | hnew := List.mem_append.mp hc
    · exact h.cancellations c hold
    · rw [List.mem_singleton.mp hnew]
      exact .inl rfl
  abandoned _ := RequestActivity.abandoned_abandon _ _
  interrupted _ := .inr (Option.some_ne_none _)
  reader := h.reader
  awaiting := h.awaiting
  left howner hwork :=
    (h.left howner hwork).imp_right (RequestActivity.later_abandon _ _).ownsMutation

-- ============================================================================
-- run
-- ============================================================================

/-- The work is cancelled where it owns no mutation or its response is complete. -/
theorem Owned.cancelWork (h : Owned d)
    (hexcused : d.activity.ownsMutation = false ∨ d.completed = true) : Owned d.cancelWork := by
  unfold RequestDeadline.cancelWork
  split
  · exact h
  · refine ⟨?_, h.abandoned, h.interrupted, h.reader, h.awaiting, ?_⟩
    · intro c hc
      obtain hold | hnew := List.mem_append.mp hc
      · exact h.cancellations c hold
      · rw [List.mem_singleton.mp hnew]
        exact .inr hexcused
    · intro _ _
      exact .inl (Nat.succ_ne_zero _)

theorem Owned.cancelUnlessOwned (h : Owned d) : Owned d.cancelUnlessOwned := by
  unfold RequestDeadline.cancelUnlessOwned
  split
  · exact h
  · next howns => exact h.cancelWork (.inl (Bool.not_eq_true _ ▸ howns))

/-- An abandoned request closes. -/
theorem Owned.close (h : Owned d) (habandoned : d.activity.abandoned ≠ none) (aborted : Bool) :
    Owned { d with closed := true, aborted := aborted } :=
  ⟨h.cancellations, fun _ => habandoned, h.interrupted, h.reader, h.awaiting, h.left⟩

/-- `run` goes past its decision: the work is done, or cancelled, or owns a mutation. -/
theorem Owned.leave (h : Owned d)
    (hleft : d.work = none → d.cancelling ≠ 0 ∨ d.activity.ownsMutation = true) {o : Owner}
    (ho : o.Left) : Owned { d with owner := o } where
  cancellations := h.cancellations
  abandoned hgo := by
    apply h.abandoned
    obtain hgo | hgo | hgo := hgo
    · exact .inl hgo
    · cases o with
      | responding rest => exact ho.elim
      | _ => exact hgo.elim
    · exact .inr (.inr hgo)
  interrupted := h.interrupted
  reader := h.reader
  awaiting howner := by
    rw [show o = .awaitingWork from howner] at ho
    exact ho.elim
  left _ hwork := hleft hwork

/-- `self.closed = True`; `if not work.done(): self.activity.abandon(…)` -/
def closeDown (d : RequestDeadline) : RequestDeadline :=
  if d.work.isNone then
    { d with closed := true, activity := d.activity.abandon "Request interrupted." }
  else { d with closed := true }

/-- The cancellation of the `finally` block. -/
def cancelLast (d : RequestDeadline) : RequestDeadline :=
  if d.work.isNone ∧ d.cancelling = 0 ∧ ¬ d.activity.ownsMutation then d.cancelWork else d

theorem finallyBlock_eq (r : Outcome) :
    d.finallyBlock r =
      { d.closeDown.cancelLast with
        owner := .cleaning r
        reader := match d.closeDown.cancelLast.reader with
          | .ended r => .ended r
          | _ => .ended (.error .cancelled) } := by
  unfold finallyBlock closeDown cancelLast
  rfl

theorem Owned.closeDown (h : Owned d) : Owned d.closeDown := by
  unfold RequestDeadline.closeDown
  split
  · have habandon : Owned { d with activity := d.activity.abandon "Request interrupted." } :=
      h.undisturbed (undisturbed_setActivity (RequestActivity.later_abandon _ _))
    exact habandon.close (RequestActivity.abandoned_abandon _ _) d.aborted
  · next hwork =>
      refine ⟨h.cancellations, fun hgo => h.abandoned ?_, h.interrupted, h.reader, h.awaiting,
        h.left⟩
      obtain hgo | hgo | ⟨-, hnone⟩ := hgo
      · exact .inl hgo
      · exact .inr (.inl hgo)
      · exact absurd (Option.isNone_iff_eq_none.mpr hnone) hwork

theorem Owned.cancelLast (h : Owned d) : Owned d.cancelLast := by
  unfold RequestDeadline.cancelLast
  split
  · next hc => exact h.cancelWork (.inl (Bool.not_eq_true _ ▸ hc.2.2))
  · exact h

/-- Behind it unfinished work is cancelled or owns a mutation. -/
theorem cancelLast_left (hwork : d.cancelLast.work = none) :
    d.cancelLast.cancelling ≠ 0 ∨ d.cancelLast.activity.ownsMutation = true := by
  unfold cancelLast at hwork ⊢
  split
  · next hc =>
      left
      unfold cancelWork
      rw [if_neg (by rw [Option.isNone_iff_eq_none.mp hc.1]; exact Bool.false_ne_true)]
      exact Nat.succ_ne_zero _
  · next hc =>
      rw [if_neg hc] at hwork
      rw [hwork] at hc
      by_contra hneither
      simp only [not_or, not_not] at hneither
      exact hc ⟨rfl, hneither.1, hneither.2⟩

theorem Owned.finallyBlock (h : Owned d) (r : Outcome) : Owned (d.finallyBlock r) := by
  rw [finallyBlock_eq]
  have hlast := h.closeDown.cancelLast
  have hleave : Owned { d.closeDown.cancelLast with owner := .cleaning r } :=
    hlast.leave cancelLast_left trivial
  apply hleave.endReader
  split
  · next r hr =>
      intro hended
      exact hlast.reader (hr.trans hended)
  · nofun

theorem Owned.awaitWork (h : Owned d) (hnext : d.completed = true ∨ d.work ≠ none) :
    Owned d.awaitWork := by
  unfold RequestDeadline.awaitWork
  split
  · exact h.finallyBlock _
  · next hwork =>
      have hcompleted := hnext.resolve_right (absurd hwork)
      refine ⟨h.cancellations, fun hgo => h.abandoned ?_, h.interrupted, h.reader,
        fun _ => hcompleted, fun ho => ho.elim⟩
      obtain hgo | hgo | hgo := hgo
      · exact .inl hgo
      · exact hgo.elim
      · exact .inr (.inr hgo)

/-- The next message of the 408 goes out of an abandoned request. -/
theorem Owned.respond (h : Owned d) (habandoned : d.activity.abandoned ≠ none) (m : Message)
    (rest : List Message) :
    Owned { d with owner := .responding rest, sent := d.sent ++ [(.timeout, m)] } :=
  ⟨h.cancellations, fun _ => habandoned, h.interrupted, h.reader, nofun, fun ho => ho.elim⟩

theorem Owned.expire (h : Owned d) (detail : String) : Owned (d.expire detail) := by
  let b := RequestDeadline.cancelUnlessOwned
    { d with closed := true, activity := d.activity.abandon detail }
  have hexpire : d.expire detail =
      if b.started then
        { b with aborted := true }.finallyBlock (.error (.streamDeadlineExceeded detail))
      else
        { b with
          owner := .responding [.body (.error 408 detail) false]
          sent := b.sent ++ [(.timeout, .start 408)] } := rfl
  have habandon : Owned { d with activity := d.activity.abandon detail } :=
    h.undisturbed (undisturbed_setActivity (RequestActivity.later_abandon _ _))
  have hb : Owned b :=
    (habandon.close (RequestActivity.abandoned_abandon _ _) d.aborted).cancelUnlessOwned
  have hreason : b.activity.abandoned ≠ none :=
    (kept_cancelUnlessOwned _).quiet.activity.abandoned_ne_none
      (RequestActivity.abandoned_abandon _ _)
  rw [hexpire]
  split
  · have habort : Owned { b with aborted := true } :=
      ⟨hb.cancellations, fun _ => hreason, hb.interrupted, hb.reader, hb.awaiting, hb.left⟩
    exact habort.finallyBlock _
  · exact hb.respond hreason _ _

/-- `hdone` is what it takes for `asyncio.wait` to return a task that is done. -/
theorem Owned.afterWait (h : Owned d) {nothing : Bool}
    (hdone : nothing = false → d.work ≠ none ∨ (∃ r, d.reader = .ended r) ∨
      d.interrupted = true ∨ d.completed = true) : Owned (d.afterWait nothing) := by
  unfold RequestDeadline.afterWait
  split
  · next hcompleted => exact h.awaitWork (.inl hcompleted)
  · next hcompleted =>
      split
      · next hdisconnected =>
          have hreason := h.abandoned (.inl (.inl hdisconnected))
          exact (h.close hreason true).cancelUnlessOwned.finallyBlock _
      · next hdisconnected =>
          split
          · exact h.expire _
          · next hquiet =>
              rw [not_or, Bool.not_eq_true, Option.isSome_eq_false_iff,
                Option.isNone_iff_eq_none, Bool.not_eq_true] at hquiet
              obtain ⟨hdetail, hnothing⟩ := hquiet
              split
              · exact h.finallyBlock _
              · next hreader =>
                  apply h.awaitWork
                  obtain hwork | ⟨r, hr⟩ | hinterrupted | hc := hdone hnothing
                  · exact .inr hwork
                  · cases r with
                    | ok u => exact (h.reader hr).elim (absurd · hdisconnected) .inl
                    | error e => exact absurd hr (hreader e)
                  · exact (h.interrupted hinterrupted).elim (absurd · hdisconnected)
                      (absurd hdetail)
                  · exact .inl hc

theorem Owned.respondReturned (h : Owned d) {rest : List Message}
    (howner : d.owner = .responding rest) : Owned (d.respondReturned rest) := by
  unfold RequestDeadline.respondReturned
  split
  · exact h.finallyBlock _
  · apply h.respond
    apply h.abandoned
    refine .inr (.inl ?_)
    rw [howner]
    trivial

theorem Owned.interruptOwner (h : Owned d) (hnext : d.interruptOwner = some d') : Owned d' := by
  unfold RequestDeadline.interruptOwner at hnext
  split at hnext <;> cases hnext
  · exact h.finallyBlock _
  · next howner =>
      split
      · exact h.finallyBlock _
      · next hwork =>
          exact h.cancelWork (.inr (h.awaiting howner))
  · exact h.finallyBlock _
  · next howner =>
      refine h.leave (fun hwork => h.left ?_ hwork) trivial
      rw [howner]
      trivial

-- ============================================================================
-- Every run
-- ============================================================================

theorem Owned.next (h : Owned d) {e : Event} (hnext : d.next e = some d') : Owned d' := by
  cases e with
  | tick t =>
      obtain ⟨-, hd⟩ := Option.ite_none_right_eq_some.mp hnext
      obtain rfl := Option.some.inj hd
      exact h.undisturbed
        ⟨rfl, rfl, rfl, rfl, rfl, rfl, rfl, rfl, rfl, rfl, id, id, .refl _⟩
  | serverMessage m =>
      simp only [RequestDeadline.next] at hnext
      split at hnext <;> cases hnext
      exact h.readMessage m
  | readFailed e =>
      simp only [RequestDeadline.next] at hnext
      split at hnext <;> cases hnext
      exact h.readFailed e
  | putDone =>
      simp only [RequestDeadline.next] at hnext
      split at hnext <;> cases hnext
      refine h.undisturbed ⟨rfl, rfl, rfl, rfl, rfl, rfl, rfl, rfl, rfl, rfl, id, ?_, .refl _⟩
      intro hreader
      cases hreader
  | receive =>
      obtain rfl := Option.some.inj hnext
      exact h.undisturbed undisturbed_receiveBody
  | receiveGot i =>
      simp only [RequestDeadline.next] at hnext
      split at hnext <;> cases hnext
      exact h.undisturbed
        ⟨rfl, rfl, rfl, rfl, rfl, rfl, rfl, rfl, rfl, rfl, id, id, .refl _⟩
  | receiveTimedOut i =>
      simp only [RequestDeadline.next] at hnext
      split at hnext
      · obtain ⟨-, hd⟩ := Option.ite_none_right_eq_some.mp hnext
        obtain rfl := Option.some.inj hd
        exact h.receiveTimedOut.undisturbed (undisturbed_setReceiving _)
      · cases hnext
  | interruptSeen i =>
      simp only [RequestDeadline.next] at hnext
      split at hnext
      · obtain ⟨-, hd⟩ := Option.ite_none_right_eq_some.mp hnext
        obtain rfl := Option.some.inj hd
        exact h.undisturbed (undisturbed_setReceiving _)
      · cases hnext
  | receiveCancelled i =>
      obtain ⟨-, hd⟩ := Option.ite_none_right_eq_some.mp hnext
      obtain rfl := Option.some.inj hd
      exact h.undisturbed (undisturbed_setReceiving _)
  | send m =>
      simp only [RequestDeadline.next] at hnext
      split at hnext <;> cases hnext
      exact h.undisturbed (undisturbed_send m _)
  | sendReturned m =>
      obtain ⟨-, hd⟩ := Option.ite_none_right_eq_some.mp hnext
      obtain rfl := Option.some.inj hd
      exact h.undisturbed (undisturbed_sendReturned m)
  | sendFailed m e =>
      obtain ⟨-, hd⟩ := Option.ite_none_right_eq_some.mp hnext
      obtain rfl := Option.some.inj hd
      exact h.sendFailed m e
  | assertActive =>
      obtain rfl := Option.some.inj hnext
      exact h.undisturbed (undisturbed_setActivity (RequestActivity.later_assertActive _ _))
  | ownMutation =>
      obtain rfl := Option.some.inj hnext
      have hlater : d.activity.Later { d.activity with ownsMutation := true } :=
        ⟨rfl, fun _ hr => hr, fun _ => rfl⟩
      exact h.undisturbed (undisturbed_setActivity hlater)
  | finish r =>
      obtain ⟨-, hd⟩ := Option.ite_none_right_eq_some.mp hnext
      obtain rfl := Option.some.inj hd
      refine ⟨h.cancellations, fun hgo => h.abandoned ?_, h.interrupted, h.reader,
        h.awaiting, fun _ hnone => absurd hnone (Option.some_ne_none r)⟩
      obtain hgo | hgo | ⟨-, hnone⟩ := hgo
      · exact .inl hgo
      · exact .inr (.inl hgo)
      · cases hnone
  | wake interruptedDone completedDone =>
      simp only [RequestDeadline.next] at hnext
      split at hnext
      · obtain ⟨⟨hinterrupted, hcompleted⟩, hd⟩ := Option.ite_none_right_eq_some.mp hnext
        split at hd
        · obtain ⟨-, hd⟩ := Option.ite_none_right_eq_some.mp hd
          obtain rfl := Option.some.inj hd
          apply h.afterWait
          intro hnothing
          cases hnothing
        · next hsome =>
            obtain rfl := Option.some.inj hd
            apply h.afterWait
            intro _
            by_contra hnone
            simp only [not_or, not_not, not_exists] at hnone
            obtain ⟨hwork, hreader, hi, hc⟩ := hnone
            refine hsome ⟨hwork, hreader, ?_, ?_⟩
            · exact Bool.eq_false_iff.mpr fun hid => hi (hinterrupted hid)
            · exact Bool.eq_false_iff.mpr fun hcd => hc (hcompleted hcd)
      · cases hnext
  | workObserved =>
      simp only [RequestDeadline.next] at hnext
      split at hnext <;> cases hnext
      exact h.finallyBlock _
  | respondReturned =>
      simp only [RequestDeadline.next] at hnext
      split at hnext
      · next rest howner =>
          obtain rfl := Option.some.inj hnext
          exact h.respondReturned howner
      · cases hnext
  | respondFailed e =>
      simp only [RequestDeadline.next] at hnext
      split at hnext <;> cases hnext
      exact h.finallyBlock _
  | interruptOwner => exact h.interruptOwner hnext
  | cleanupDone =>
      simp only [RequestDeadline.next] at hnext
      split at hnext
      · next r howner =>
          obtain rfl := Option.some.inj hnext
          refine h.leave (fun hwork => h.left ?_ hwork) trivial
          rw [howner]
          trivial
      · cases hnext

theorem owned_invariant : deadlineSystem.Invariant Owned where
  init d hd := by
    obtain ⟨a, rfl⟩ := hd
    exact owned_start a
  step _ _ _ h hnext := h.next hnext

/-- The activity behind a run is a later state of the one before it. -/
theorem run_later {es : List Event} (hrun : deadlineSystem.run d es = some d') :
    d.activity.Later d'.activity := by
  have hstep : ∀ a e b, d.activity.Later a.activity → deadlineSystem.next a e = some b →
      d.activity.Later b.activity := by
    intro a e b ha hnext
    exact ha.trans (next_later hnext)
  exact System.run_preserves hstep (.refl _) hrun

/-- In every reachable state: a request that is over for its client or its deadline, or that is
    closed with its work unfinished, has one reason, and every check of its activity raises it
    from then on; its work was cancelled only by its own receive, before it owned a mutation, or
    behind a complete response; and when `run` is left, unfinished work is cancelled or owns a
    mutation. -/
theorem deadline_lets_go_abandoned (hd : deadlineSystem.Reachable d) :
    (d.LetGo → ∃ reason, ∀ es d', deadlineSystem.run d es = some d' →
        ∀ now, (d'.activity.assertActive now).1 = some reason) ∧
      (∀ c ∈ d.cancellations, c.Excused) ∧
      (d.owner.Left → d.work = none → d.cancelling ≠ 0 ∨ d.activity.ownsMutation = true) := by
  have h := owned_invariant.of_reachable hd
  refine ⟨?_, h.cancellations, h.left⟩
  intro hgo
  obtain ⟨reason, hreason⟩ := Option.ne_none_iff_exists'.mp (h.abandoned hgo)
  refine ⟨reason, ?_⟩
  intro es d' hrun now
  have hlater := (run_later hrun).abandoned reason hreason
  unfold RequestActivity.assertActive
  rw [hlater]

/-- The client of a mutation goes away: its work goes on, uncancelled, and every check raises. -/
theorem deadline_lets_go_disconnected :
    ∃ d : RequestDeadline, d.owner.Left ∧ d.work = none ∧ d.cancelling = 0 ∧
      (∀ c ∈ d.cancellations, c.Excused) ∧
      ∃ reason, ∀ now, (d.activity.assertActive now).1 = some reason := by
  let first := Arrival.start ⟨5, 2, 10, 0, .new⟩
  have hrun : (deadlineSystem.run first
      [.receive, .serverMessage (.request [1] false), .receiveGot 0, .ownMutation,
        .serverMessage .disconnect, .wake true false]).map
      (fun d => (d.disconnected, d.work.isNone, d.cancelling, decide d.owner.Left)) =
      some (true, true, 0, true) := by
    decide +kernel
  obtain ⟨d, hd, hfacts⟩ := Option.map_eq_some_iff.mp hrun
  obtain ⟨hdisconnected, hrest⟩ := Prod.mk.inj hfacts
  obtain ⟨hwork, hrest⟩ := Prod.mk.inj hrest
  obtain ⟨hcancelling, hleft⟩ := Prod.mk.inj hrest
  obtain ⟨hgo, hcancellations, -⟩ := deadline_lets_go_abandoned ⟨first, _, ⟨_, rfl⟩, hd⟩
  obtain ⟨reason, hreason⟩ := hgo (.inl (.inl hdisconnected))
  exact ⟨d, of_decide_eq_true hleft, Option.isNone_iff_eq_none.mp hwork, hcancelling,
    hcancellations, reason, hreason [] d rfl⟩

end RequestDeadline

end QuickApi.RequestTimeout
