/-
  QuickApi.RequestTimeout.Sparing

  What a step of the deadline does to the activity and to the work that owns a
  mutation: it abandons the activity or leaves it, and the work is cancelled by
  its own timed-out receive only, as long as the response is open.
-/

import QuickApi.RequestTimeout.Ownership

namespace QuickApi.RequestTimeout

open QuickApi.Lib

-- ============================================================================
-- The activity
-- ============================================================================

/-- `b` is `a`, or `a` abandoned for some reason. -/
def RequestActivity.Abandons (a b : RequestActivity) : Prop :=
  b = a ∨ ∃ reason, b = a.abandon reason

namespace RequestActivity

theorem Abandons.refl (a : RequestActivity) : a.Abandons a := .inl rfl

theorem abandons_abandon (a : RequestActivity) (reason : String) : a.Abandons (a.abandon reason) :=
  .inr ⟨reason, rfl⟩

/-- The first reason stays. -/
theorem abandon_abandon (a : RequestActivity) (first second : String) :
    (a.abandon first).abandon second = a.abandon first := by
  have hfirst := a.abandoned_abandon first
  rw [abandon, if_neg hfirst]

theorem Abandons.trans {a b c : RequestActivity} (h : a.Abandons b) (h' : b.Abandons c) :
    a.Abandons c := by
  rcases h with rfl | ⟨first, rfl⟩
  · exact h'
  · rcases h' with rfl | ⟨second, rfl⟩
    · exact abandons_abandon a first
    · rw [abandon_abandon]
      exact abandons_abandon a first

theorem Abandons.later {a b : RequestActivity} (h : a.Abandons b) : a.Later b := by
  rcases h with rfl | ⟨reason, rfl⟩
  · exact .refl _
  · exact later_abandon a reason

theorem abandons_assertActive (a : RequestActivity) (now : ℚ) :
    a.Abandons (a.assertActive now).2 := by
  unfold assertActive
  split
  · exact .refl a
  · split
    · exact abandons_abandon a _
    · exact .refl a

end RequestActivity

-- ============================================================================
-- The work
-- ============================================================================

namespace RequestDeadline

variable {d d' : RequestDeadline}

/-- From `d` to `d'` work that owns a mutation was not cancelled; the activity may have been
    abandoned. -/
structure Spared (d d' : RequestDeadline) : Prop where
  activity : d.activity.Abandons d'.activity
  cancellations : d.activity.ownsMutation = true → d'.cancellations = d.cancellations
  now : d'.now = d.now

/-- Neither is touched. -/
theorem Spared.of_eq (hactivity : d'.activity = d.activity)
    (hcancellations : d'.cancellations = d.cancellations) (hnow : d'.now = d.now) :
    Spared d d' := ⟨.inl hactivity, fun _ => hcancellations, hnow⟩

theorem Spared.trans {c : RequestDeadline} (h : Spared d d') (h' : Spared d' c) : Spared d c where
  activity := h.activity.trans h'.activity
  cancellations howns :=
    (h'.cancellations (h.activity.later.ownsMutation howns)).trans (h.cancellations howns)
  now := h'.now.trans h.now

theorem spared_disconnect : Spared d d.disconnect :=
  ⟨RequestActivity.abandons_abandon _ _, fun _ => rfl, rfl⟩

theorem spared_readMessage (m : Inbound) : Spared d (d.readMessage m) := by
  unfold readMessage
  split
  · show Spared d { (if d.completed then d else d.disconnect) with reader := .ended (.ok ()) }
    split
    · exact .of_eq rfl rfl rfl
    · exact spared_disconnect.trans (.of_eq rfl rfl rfl)
  · split <;> exact .of_eq rfl rfl rfl

theorem spared_readFailed (e : Exc) : Spared d (d.readFailed e) := by
  unfold readFailed
  split
  · exact spared_disconnect.trans (.of_eq rfl rfl rfl)
  · exact .of_eq rfl rfl rfl

theorem spared_receiveBody : Spared d d.receiveBody.2 := by
  unfold receiveBody
  split
  · exact .of_eq rfl rfl rfl
  · split
    · split <;> exact .of_eq rfl rfl rfl
    · split <;> exact .of_eq rfl rfl rfl

theorem spared_sendResponse (m : Message) (s : Stage) :
    Spared d (sendResponse { d with stage := s, attempted := d.attempted ++ [m] } m) := by
  unfold sendResponse
  split <;> exact .of_eq rfl rfl rfl

theorem spared_sendFailed (m : Message) (e : Exc) : Spared d (d.sendFailed m e) := by
  unfold sendFailed
  split
  · exact spared_disconnect.trans (.of_eq rfl rfl rfl)
  · exact .of_eq rfl rfl rfl

theorem cancelWork_activity : d.cancelWork.activity = d.activity := by
  unfold cancelWork
  split <;> rfl

theorem cancelWork_now : d.cancelWork.now = d.now := by
  unfold cancelWork
  split <;> rfl

theorem spared_cancelUnlessOwned : Spared d d.cancelUnlessOwned := by
  unfold cancelUnlessOwned
  split
  · exact .of_eq rfl rfl rfl
  · next howns => exact ⟨.inl cancelWork_activity, fun h => absurd h howns, cancelWork_now⟩

theorem spared_closeDown : Spared d d.closeDown := by
  unfold closeDown
  split
  · exact ⟨RequestActivity.abandons_abandon _ _, fun _ => rfl, rfl⟩
  · exact .of_eq rfl rfl rfl

theorem spared_cancelLast : Spared d d.cancelLast := by
  unfold cancelLast
  split
  · next h => exact ⟨.inl cancelWork_activity, fun howns => absurd howns h.2.2, cancelWork_now⟩
  · exact .of_eq rfl rfl rfl

theorem spared_finallyBlock (r : Outcome) : Spared d (d.finallyBlock r) := by
  rw [finallyBlock_eq]
  exact spared_closeDown.trans (spared_cancelLast.trans (.of_eq rfl rfl rfl))

theorem spared_awaitWork : Spared d d.awaitWork := by
  unfold awaitWork
  split
  · exact spared_finallyBlock _
  · exact .of_eq rfl rfl rfl

theorem spared_expire (detail : String) : Spared d (d.expire detail) := by
  let b := cancelUnlessOwned { d with closed := true, activity := d.activity.abandon detail }
  have hb : Spared d b := by
    have hclose : Spared d { d with closed := true, activity := d.activity.abandon detail } :=
      ⟨RequestActivity.abandons_abandon _ _, fun _ => rfl, rfl⟩
    exact hclose.trans spared_cancelUnlessOwned
  have hexpire : d.expire detail =
      if b.started then
        { b with aborted := true }.finallyBlock (.error (.streamDeadlineExceeded detail))
      else
        { b with
          owner := .responding [.body (.error 408 detail) false]
          sent := b.sent ++ [(.timeout, .start 408)] } := rfl
  rw [hexpire]
  split
  · have habort : Spared b { b with aborted := true } := .of_eq rfl rfl rfl
    exact hb.trans (habort.trans (spared_finallyBlock _))
  · exact hb.trans (.of_eq rfl rfl rfl)

theorem spared_afterWait (nothing : Bool) : Spared d (d.afterWait nothing) := by
  unfold afterWait
  split
  · exact spared_awaitWork
  · split
    · have habort : Spared d { d with aborted := true, closed := true } := .of_eq rfl rfl rfl
      exact habort.trans (spared_cancelUnlessOwned.trans (spared_finallyBlock _))
    · split
      · exact spared_expire _
      · split
        · exact spared_finallyBlock _
        · exact spared_awaitWork

theorem spared_respondReturned (rest : List Message) : Spared d (d.respondReturned rest) := by
  unfold respondReturned
  split
  · exact spared_finallyBlock _
  · exact .of_eq rfl rfl rfl

/-- An external interruption cancels the work where `run` awaits it. -/
theorem interruptOwner_cases (h : d.interruptOwner = some d') :
    Spared d d' ∨ d.owner = .awaitingWork ∧ d' = d.cancelWork := by
  unfold interruptOwner at h
  split at h
  · obtain rfl := Option.some.inj h
    exact .inl (spared_finallyBlock _)
  · next howner =>
      obtain rfl := Option.some.inj h
      split
      · exact .inl (spared_finallyBlock _)
      · exact .inr ⟨howner, rfl⟩
  · obtain rfl := Option.some.inj h
    exact .inl (spared_finallyBlock _)
  · obtain rfl := Option.some.inj h
    exact .inl (.of_eq rfl rfl rfl)
  · cases h

/-- The clock goes on, or the handler takes the activity over. -/
def ofHandler : Event → Bool
  | .tick _ => true
  | .ownMutation => true
  | _ => false

/-- An event spares the work, unless it is the timer of a pending receive or the interruption of
    the awaited work. -/
theorem spared_next {e : Event} (h : d.next e = some d') (hother : ofHandler e = false)
    (htimer : ∀ i, e ≠ .receiveTimedOut i) :
    Spared d d' ∨ d.owner = .awaitingWork ∧ d' = d.cancelWork := by
  cases e with
  | ownMutation => cases hother
  | tick t => cases hother
  | receiveTimedOut i => exact absurd rfl (htimer i)
  | interruptOwner => exact interruptOwner_cases h
  | assertActive =>
      obtain rfl := Option.some.inj h
      exact .inl ⟨RequestActivity.abandons_assertActive _ _, fun _ => rfl, rfl⟩
  | receive =>
      obtain rfl := Option.some.inj h
      exact .inl spared_receiveBody
  | serverMessage m =>
      simp only [next] at h
      split at h <;> cases h
      exact .inl (spared_readMessage m)
  | readFailed e =>
      simp only [next] at h
      split at h <;> cases h
      exact .inl (spared_readFailed e)
  | sendFailed m e =>
      obtain ⟨-, hd⟩ := Option.ite_none_right_eq_some.mp h
      obtain rfl := Option.some.inj hd
      exact .inl (spared_sendFailed m e)
  | send m =>
      simp only [next] at h
      split at h
      · obtain rfl := Option.some.inj h
        exact .inl (spared_sendResponse m _)
      · cases h
  | wake interruptedDone completedDone =>
      simp only [next] at h
      split at h
      · obtain ⟨-, hd⟩ := Option.ite_none_right_eq_some.mp h
        split at hd
        · obtain ⟨-, hd⟩ := Option.ite_none_right_eq_some.mp hd
          obtain rfl := Option.some.inj hd
          exact .inl (spared_afterWait true)
        · obtain rfl := Option.some.inj hd
          exact .inl (spared_afterWait false)
      · cases h
  | workObserved =>
      simp only [next] at h
      split at h <;> cases h
      exact .inl (spared_finallyBlock _)
  | respondReturned =>
      simp only [next] at h
      split at h
      · next rest howner =>
          obtain rfl := Option.some.inj h
          exact .inl (spared_respondReturned rest)
      · cases h
  | respondFailed e =>
      simp only [next] at h
      split at h <;> cases h
      exact .inl (spared_finallyBlock _)
  | receiveGot i =>
      simp only [next] at h
      split at h <;> cases h
      exact .inl (.of_eq rfl rfl rfl)
  | interruptSeen i =>
      simp only [next] at h
      split at h
      · obtain ⟨-, hd⟩ := Option.ite_none_right_eq_some.mp h
        obtain rfl := Option.some.inj hd
        exact .inl (.of_eq rfl rfl rfl)
      · cases h
  | putDone =>
      simp only [next] at h
      split at h <;> cases h
      exact .inl (.of_eq rfl rfl rfl)
  | cleanupDone =>
      simp only [next] at h
      split at h <;> cases h
      exact .inl (.of_eq rfl rfl rfl)
  | _ =>
      obtain ⟨-, hd⟩ := Option.ite_none_right_eq_some.mp h
      obtain rfl := Option.some.inj hd
      exact .inl (.of_eq rfl rfl rfl)

/-- The activity is abandoned or as it was, and the clock stands. -/
theorem abandons_next {e : Event} (h : d.next e = some d') (hother : ofHandler e = false) :
    d.activity.Abandons d'.activity ∧ d'.now = d.now := by
  by_cases htimer : ∃ i, e = .receiveTimedOut i
  · obtain ⟨i, rfl⟩ := htimer
    simp only [next] at h
    split at h
    · obtain ⟨-, hd⟩ := Option.ite_none_right_eq_some.mp h
      obtain rfl := Option.some.inj hd
      exact ⟨RequestActivity.abandons_abandon _ _, rfl⟩
    · cases h
  · rcases spared_next h hother fun i hi => htimer ⟨i, hi⟩ with hspared | ⟨-, rfl⟩
    · exact ⟨hspared.activity, hspared.now⟩
    · exact ⟨.inl cancelWork_activity, cancelWork_now⟩

/-- While its response is open, work that owns a mutation is cancelled by its own receive only. -/
theorem Owned.cancellations_next (hd : Owned d) {e : Event} (h : d.next e = some d')
    (hother : ofHandler e = false) (htimer : ∀ i, e ≠ .receiveTimedOut i)
    (howns : d.activity.ownsMutation = true) (hopen : d.completed = false) :
    d'.cancellations = d.cancellations := by
  rcases spared_next h hother htimer with hspared | ⟨howner, -⟩
  · exact hspared.cancellations howns
  · rw [hd.awaiting howner] at hopen
    cases hopen

end RequestDeadline

end QuickApi.RequestTimeout
