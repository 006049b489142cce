/-
  QuickApi.Cleanup.Effect

  What one step of the cleanup service can do, said once (`next_effect`), up to
  the timers.  The passes and the calls of `sweep` form a shared slot
  (`Service.shared`), and every step is one of its moves or leaves it alone
  (`Effect.shared`).
-/

import QuickApi.Cleanup.Service
import QuickApi.Lib.SharedSlot

namespace QuickApi.Cleanup

open QuickApi.Lib

/-- The events in which a task or a timer calls `sweep`. -/
def Event.sweeps : Event → Bool
  | .sweep => true
  | .timerFires _ => true
  | _ => false

namespace Service

/-- The pass is not done yet. -/
def Running (s : Service) (p : Nat) : Prop := ∃ x, s.passes[p]? = some x ∧ x.outcome = none

def Finished (s : Service) (p : Nat) : Prop := (s.outcome p).isSome = true

/-- From `s` to `s'` only timers changed. -/
structure Quiet (s s' : Service) : Prop where
  accepting : s'.accepting = s.accepting
  pending : s'.pending = s.pending
  passes : s'.passes = s.passes
  calls : s'.calls = s.calls
  stops : s'.stops = s.stops
  batches : s'.batches = s.batches

theorem Quiet.refl (s : Service) : Quiet s s := ⟨rfl, rfl, rfl, rfl, rfl, rfl⟩

theorem Quiet.trans {a b c : Service} (h : Quiet a b) (h' : Quiet b c) : Quiet a c :=
  ⟨h'.accepting.trans h.accepting, h'.pending.trans h.pending, h'.passes.trans h.passes,
    h'.calls.trans h.calls, h'.stops.trans h.stops, h'.batches.trans h.batches⟩

variable (s : Service)

theorem quiet_setTimers (l : List Timer) : Quiet s { s with timers := l } :=
  ⟨rfl, rfl, rfl, rfl, rfl, rfl⟩

theorem quiet_timerSwept (k : Nat) (r : Except Exc Nat) : Quiet s (s.timerSwept k r) := by
  unfold timerSwept
  split
  · exact quiet_setTimers s _
  · exact quiet_setTimers s _

/-- What a call of `sweep` does to the slot. -/
inductive Called : Service → Prop
  | refused (caller : Caller) (hpending : s.pending = none) (haccepting : s.accepting = false) :
      Called { s with calls := s.calls ++ [⟨caller, none, some (.ok 0), false, false, false⟩] }
  | launched (caller : Caller) (hpending : s.pending = none) (haccepting : s.accepting = true) :
      Called
        { s with
          pending := some s.passes.length
          passes := s.passes ++ [.created]
          calls := s.calls ++ [⟨caller, some s.passes.length, none, true, false, false⟩] }
  | joined (caller : Caller) (p : Nat) (hpending : s.pending = some p)
      (hrunning : s.outcome p = none) :
      Called
        { s with calls := s.calls ++ [⟨caller, some p, none, s.accepting, false, false⟩] }
  | late (caller : Caller) (p : Nat) (r : Except Exc Nat) (hpending : s.pending = some p)
      (hdone : s.outcome p = some r) :
      Called
        { s with
          pending := none
          calls := s.calls ++ [⟨caller, some p, some r, s.accepting, true, true⟩] }

theorem called_sweep (caller : Caller) : Called s (s.sweep caller).2 := by
  unfold sweep
  split
  · next hpending =>
      split
      · next haccepting => exact .launched caller hpending haccepting
      · next haccepting => exact .refused caller hpending (Bool.not_eq_true _ ▸ haccepting)
  · next p hpending =>
      split
      · next hrunning => exact .joined caller p hpending hrunning
      · next r hdone =>
          have hrelease : release
              { s with calls := s.calls ++ [⟨caller, some p, some r, s.accepting, true, true⟩] } p =
              { s with
                pending := none
                calls := s.calls ++ [⟨caller, some p, some r, s.accepting, true, true⟩] } := by
            refine if_pos ⟨?_, hpending⟩
            show (s.outcome p).isSome = true
            rw [hdone]
            rfl
          rw [hrelease]
          exact .late caller p r hpending hdone

/-- Every result of a call of `stop` that ends finds the pending pass done. -/
def StopSound (old : Option StopCall) : StopCall → Prop
  | .returned =>
      s.pending = none ∨ (∃ p, s.pending = some p ∧ s.Finished p) ∨
        ∃ p, old = some (.awaitingPending p) ∧ s.Finished p
  | .awaitingPending p => s.pending = some p
  | _ => True

theorem stopSound_stopPending (old : Option StopCall) : s.StopSound old s.stopPending := by
  unfold stopPending
  split
  · next hpending => exact .inl hpending
  · next p hpending =>
      split
      · exact hpending
      · next n hdone => exact .inr (.inl ⟨p, hpending, by rw [Finished, hdone]; rfl⟩)
      · trivial

/-- What one step does. -/
inductive Effect (e : Event) (s' : Service) : Prop
  | quiet (he : e.sweeps = false) (h : Quiet s s')
  | started (he : e = .start) (hidle : s.stops.any StopCall.inProgress = false)
      (h : Quiet { s with accepting := true } s')
  | quiesced (he : e = .quiesce) (h : Quiet { s with accepting := false } s')
  | stopping (call : StopCall) (he : e = .stop) (hcall : s.StopSound none call)
      (h : Quiet { s with accepting := false, stops := s.stops ++ [call] } s')
  | stopped (i : Nat) (old call : StopCall) (he : e.sweeps = false)
      (hi : s.stops[i]? = some old) (hold : old.inProgress = true)
      (hcall : s.StopSound (some old) call) (h : Quiet { s with stops := s.stops.set i call } s')
  | called (m : Service) (he : e.sweeps = true) (hm : Called s m) (h : Quiet m s')
  | left (c p : Nat) (call : SweepCall) (r : Except Exc Nat) (he : e.sweeps = false)
      (hc : s.calls[c]? = some call) (hp : call.pass = some p)
      (hr : s.outcome p = some r ∨ r = .error .cancelled)
      (h : Quiet
        (release
          { s with
            calls := s.calls.set c
              { call with result := some r, settled := (s.outcome p).isSome } } p) s')
  | went (p batches : Nat) (x x' : Pass) (he : e.sweeps = false) (hx : s.passes[p]? = some x)
      (hrunning : x.outcome = none)
      (hbatches : s.accepting = true ∨ batches = s.batches)
      (h : Quiet { s with passes := s.passes.set p x', batches := batches } s')

-- ============================================================================
-- The step
-- ============================================================================

theorem start_effect (hidle : s.stops.any StopCall.inProgress = false) :
    Effect s .start s.start := by
  refine .started rfl hidle ?_
  unfold start
  split
  · next haccepting => exact ⟨haccepting, rfl, rfl, rfl, rfl, rfl⟩
  · exact ⟨rfl, rfl, rfl, rfl, rfl, rfl⟩

/-- Behind its timer a call of `stop` touches nothing but `_timer`. -/
theorem stopBehindTimer_spec (old : Option StopCall) (cancelled : Bool) :
    s.StopSound old (s.stopBehindTimer cancelled).1 ∧
      Quiet s (s.stopBehindTimer cancelled).2 := by
  unfold stopBehindTimer
  split
  · exact ⟨trivial, .refl s⟩
  · exact ⟨s.stopSound_stopPending old, ⟨rfl, rfl, rfl, rfl, rfl, rfl⟩⟩

theorem stop_effect : Effect s .stop s.stop := by
  have hquiesce : Quiet { s with accepting := false } s.quiesce :=
    ⟨rfl, rfl, rfl, rfl, rfl, rfl⟩
  unfold stop
  cases htimer : s.quiesce.timer with
  | none =>
      simp only [htimer]
      exact .stopping _ rfl (s.quiesce.stopSound_stopPending none)
        ⟨rfl, rfl, rfl, rfl, rfl, rfl⟩
  | some k =>
      cases hended : s.quiesce.timerEnded k with
      | none =>
          simp only [htimer, hended]
          exact .stopping (.awaitingTimer k) rfl trivial ⟨rfl, rfl, rfl, rfl, rfl, rfl⟩
      | some cancelled =>
          obtain ⟨hcall, hquiet⟩ := s.quiesce.stopBehindTimer_spec none cancelled
          obtain ⟨haccepting, hpending, hpasses, hcalls, hstops, hbatches⟩ :=
            hquiesce.trans hquiet
          simp only [htimer, hended]
          exact .stopping _ rfl hcall
            ⟨haccepting, hpending, hpasses, hcalls, by simp only [hstops], hbatches⟩

theorem leave_effect {e : Event} (he : e.sweeps = false) {c p : Nat} {call : SweepCall}
    (hawaited : s.awaited c = some (call, p)) {r : Except Exc Nat}
    (hr : s.outcome p = some r ∨ r = .error .cancelled) : Effect s e (s.leave c call p r) := by
  have hcall : s.calls[c]? = some call ∧ call.pass = some p := by
    unfold awaited at hawaited
    split at hawaited
    · next call' hc =>
        obtain ⟨-, hmap⟩ := Option.ite_none_right_eq_some.mp hawaited
        obtain ⟨p', hp', hpair⟩ := Option.map_eq_some_iff.mp hmap
        cases hpair
        exact ⟨hc, hp'⟩
    · cases hawaited
  refine .left c p call r he hcall.1 hcall.2 hr ?_
  unfold leave
  split
  · exact .refl _
  · exact quiet_timerSwept _ _ _

theorem advance_effect {e : Event} (he : e.sweeps = false) {p : Nat} {x : Pass}
    (hx : s.passes[p]? = some x) (hrunning : x.outcome = none) (count left : Nat) :
    Effect s e (s.advance p count left) := by
  unfold advance
  split
  · exact .went p s.batches x _ he hx hrunning (.inr rfl) (.refl _)
  · split
    · next haccepting =>
        exact .went p (s.batches + 1) x _ he hx hrunning (.inl haccepting) (.refl _)
    · exact .went p s.batches x _ he hx hrunning (.inr rfl) (.refl _)

theorem timerSweeps_effect (k : Nat) : Effect s (.timerFires k) (s.timerSweeps k) := by
  refine .called _ rfl (s.called_sweep (.timer k)) ?_
  unfold timerSweeps
  split
  · next m hm =>
      rw [hm]
      exact quiet_setTimers m _
  · next r m hm =>
      rw [hm]
      exact quiet_timerSwept m k r

theorem next_effect {settings : CleanupSettings} {s s' : Service} {e : Event}
    (h : s.next settings e = some s') : Effect s e s' := by
  cases e with
  | start =>
      obtain ⟨hidle, hs⟩ := Option.ite_none_left_eq_some.mp h
      obtain rfl := Option.some.inj hs
      exact s.start_effect (Bool.not_eq_true _ ▸ hidle)
  | quiesce =>
      obtain rfl := Option.some.inj h
      exact .quiesced rfl ⟨rfl, rfl, rfl, rfl, rfl, rfl⟩
  | stop =>
      obtain rfl := Option.some.inj h
      exact s.stop_effect
  | sweep =>
      obtain rfl := Option.some.inj h
      exact .called _ rfl (s.called_sweep .task) (.refl _)
  | stopTimerDone i =>
      simp only [next] at h
      split at h
      · next k hi =>
          obtain ⟨cancelled, -, rfl⟩ := Option.map_eq_some_iff.mp h
          obtain ⟨hcall, hquiet⟩ :=
            s.stopBehindTimer_spec (some (.awaitingTimer k)) cancelled
          refine .stopped i _ _ rfl hi rfl hcall ?_
          exact ⟨hquiet.accepting, hquiet.pending, hquiet.passes, hquiet.calls,
            by simp only [hquiet.stops], hquiet.batches⟩
      · cases h
  | stopPendingDone i =>
      simp only [next] at h
      split at h
      · next p hi =>
          obtain ⟨r, hdone, rfl⟩ := Option.map_eq_some_iff.mp h
          have hfinished : s.Finished p := by
            rw [Finished, hdone]
            rfl
          cases r with
          | ok n =>
              exact .stopped i _ .returned rfl hi rfl (.inr (.inr ⟨p, rfl, hfinished⟩)) (.refl _)
          | error e => exact .stopped i _ (.raised e) rfl hi rfl trivial (.refl _)
      · cases h
  | callResumes c =>
      simp only [next] at h
      split at h
      · next call p hawaited =>
          obtain ⟨r, hdone, rfl⟩ := Option.map_eq_some_iff.mp h
          exact s.leave_effect rfl hawaited (.inl hdone)
      · cases h
  | callCancelled c =>
      simp only [next] at h
      split at h
      · next call p hawaited =>
          obtain rfl := Option.some.inj h
          exact s.leave_effect rfl hawaited (.inr rfl)
      · cases h
  | passBegins p =>
      simp only [next] at h
      split at h <;> cases h
      next hx => exact s.advance_effect rfl hx rfl 0 _
  | batchReturned p removed =>
      simp only [next] at h
      split at h
      · next count left hx =>
          obtain rfl := Option.some.inj h
          unfold batchReturned
          split
          · exact .went p s.batches _ _ rfl hx rfl (.inr rfl) (.refl _)
          · exact s.advance_effect rfl hx rfl _ left
      · cases h
  | batchFailed p e =>
      simp only [next] at h
      split at h <;> cases h
      next hx => exact .went p s.batches _ _ rfl hx rfl (.inr rfl) (.refl _)
  | timerBegins k =>
      simp only [next] at h
      split at h <;> cases h
      exact .quiet rfl (quiet_setTimers s _)
  | timerFires k =>
      simp only [next] at h
      split at h <;> cases h
      exact s.timerSweeps_effect k
  | timerWoken k =>
      simp only [next] at h
      split at h <;> cases h
      exact .quiet rfl (quiet_setTimers s _)
  | timerCancelled k =>
      simp only [next] at h
      split at h <;> cases h
      · exact .quiet rfl (quiet_setTimers s _)
      · exact .quiet rfl (quiet_setTimers s _)

-- ============================================================================
-- The slot
-- ============================================================================

/-- The passes and the calls of `sweep` as a shared slot. -/
def shared : SharedSlot (Except Exc Nat) where
  slot := s.pending
  jobs := s.passes.map Pass.outcome
  uses := s.calls.map fun c => ⟨c.pass, c.settled⟩

variable {s}

theorem shared_running {p : Nat} : s.shared.Running p ↔ s.Running p := by
  unfold SharedSlot.Running shared Running
  rw [List.getElem?_map, Option.map_eq_some_iff]

theorem shared_finished {p : Nat} : s.shared.Finished p ↔ s.Finished p := by
  unfold SharedSlot.Finished shared Finished outcome
  simp only [List.getElem?_map, Option.isSome_iff_exists, Option.map_eq_some_iff,
    Option.bind_eq_some_iff]

theorem shared_settled {p : Nat} :
    s.shared.Settled p ↔ ∃ c ∈ s.calls, c.pass = some p ∧ c.settled = true := by
  unfold SharedSlot.Settled shared
  simp

theorem Quiet.shared {s' : Service} (h : Quiet s s') : s'.shared = s.shared := by
  unfold Service.shared
  rw [h.pending, h.passes, h.calls]

/-- The outcomes behind a change of one pass. -/
theorem shared_setPass {p : Nat} (x : Pass) (batches : Nat) :
    shared { s with passes := s.passes.set p x, batches := batches } =
      { s.shared with jobs := s.shared.jobs.set p x.outcome } := by
  unfold shared
  rw [List.map_set]

theorem running_of_pending (hs : s.shared.Sound) {p : Nat} (hpending : s.pending = some p)
    (hrunning : s.outcome p = none) : s.Running p := by
  have hlt : p < (s.passes.map Pass.outcome).length := hs.valid p hpending
  rw [List.length_map] at hlt
  have hx : s.passes[p]? = some s.passes[p] := List.getElem?_eq_getElem hlt
  refine ⟨s.passes[p], hx, ?_⟩
  rw [outcome, hx] at hrunning
  exact hrunning

theorem Called.move (hs : s.shared.Sound) {m : Service} (h : Called s m) :
    s.shared.Move m.shared := by
  have hcalls {pending : Option Nat} {passes : List Pass} (call : SweepCall) :
      shared { s with pending := pending, passes := passes, calls := s.calls ++ [call] } =
        ⟨pending, passes.map Pass.outcome, s.shared.uses ++ [⟨call.pass, call.settled⟩]⟩ := by
    unfold shared
    rw [List.map_append]
    rfl
  cases h with
  | refused caller hpending haccepting =>
      rw [hcalls]
      exact .refuse
  | launched caller hpending haccepting =>
      rw [hcalls, List.map_append]
      have hlength : s.passes.length = s.shared.jobs.length := (List.length_map _).symm
      rw [hlength]
      exact .launch hpending
  | joined caller p hpending hrunning =>
      rw [hcalls]
      exact .join p hpending (shared_running.mpr (running_of_pending hs hpending hrunning))
  | late caller p r hpending hdone =>
      rw [hcalls]
      refine .collect p hpending (shared_finished.mpr ?_)
      rw [Finished, hdone]
      rfl

theorem set_of_getElem? {α : Type*} {l : List α} {i : Nat} {a : α} (h : l[i]? = some a) :
    l.set i a = l := by
  obtain ⟨hlt, rfl⟩ := List.getElem?_eq_some_iff.mp h
  exact List.set_getElem_self hlt

/-- A call that leaves an unfinished pass leaves the slot as it is. -/
theorem left_move (hs : s.shared.Sound) {c p : Nat} {call : SweepCall}
    (hc : s.calls[c]? = some call) (hp : call.pass = some p) (r : Except Exc Nat) :
    (shared (release
        { s with
          calls := s.calls.set c
            { call with result := some r, settled := (s.outcome p).isSome } } p) = s.shared) ∨
      s.shared.Move (shared (release
        { s with
          calls := s.calls.set c
            { call with result := some r, settled := (s.outcome p).isSome } } p)) := by
  have huse : s.shared.uses[c]? = some ⟨call.pass, call.settled⟩ := by
    show (s.calls.map _)[c]? = _
    rw [List.getElem?_map, hc]
    rfl
  have hcalls (pending : Option Nat) (settled : Bool) :
      shared
        { s with
          pending := pending
          calls := s.calls.set c { call with result := some r, settled := settled } } =
        ⟨pending, s.shared.jobs, s.shared.uses.set c ⟨some p, settled⟩⟩ := by
    unfold shared
    rw [List.map_set, hp]
  by_cases hfinished : s.Finished p
  · right
    have hsettled : (s.outcome p).isSome = true := hfinished
    have hmove := SharedSlot.Move.leave c p _ huse hp (shared_finished.mpr hfinished)
    unfold release
    rw [hsettled]
    split
    · next hrelease =>
        have hslot : s.shared.slot = some p := hrelease.2
        rw [if_pos hslot] at hmove
        rw [hcalls]
        exact hmove
    · next hrelease =>
        have hslot : s.shared.slot ≠ some p := fun heq => hrelease ⟨hsettled, heq⟩
        rw [if_neg hslot] at hmove
        exact (hcalls s.pending true).symm ▸ hmove
  · left
    have hsettled : (s.outcome p).isSome = false := Bool.not_eq_true _ ▸ hfinished
    have hcall : call.settled = false := by
      rw [← Bool.not_eq_true]
      intro htrue
      refine hfinished (shared_finished.mp (hs.settled p ?_))
      exact shared_settled.mpr ⟨call, List.mem_of_getElem? hc, hp, htrue⟩
    unfold release
    rw [if_neg (fun hrelease => hfinished hrelease.1), hsettled]
    refine (hcalls s.pending false).trans ?_
    have hsame : s.shared.uses.set c ⟨some p, false⟩ = s.shared.uses := by
      rw [hp, hcall] at huse
      exact set_of_getElem? huse
    rw [hsame]
    rfl

theorem went_move {p batches : Nat} {x x' : Pass} (hx : s.passes[p]? = some x)
    (hrunning : x.outcome = none) :
    shared { s with passes := s.passes.set p x', batches := batches } = s.shared ∨
      s.shared.Move (shared { s with passes := s.passes.set p x', batches := batches }) := by
  have hjob : s.shared.Running p := shared_running.mpr ⟨x, hx, hrunning⟩
  rw [shared_setPass]
  cases houtcome : x'.outcome with
  | none =>
      left
      rw [set_of_getElem? hjob]
  | some r => exact .inr (.finish p r hjob)

theorem Effect.move {e : Event} {s' : Service} (hs : s.shared.Sound) (h : Effect s e s') :
    s'.shared = s.shared ∨ s.shared.Move s'.shared := by
  cases h with
  | quiet he h => exact .inl h.shared
  | started he hidle h => exact .inl h.shared
  | quiesced he h => exact .inl h.shared
  | stopping call he hcall h => exact .inl h.shared
  | stopped i old call he hi hold hcall h => exact .inl h.shared
  | called m he hm h =>
      rw [h.shared]
      exact .inr (hm.move hs)
  | left c p call r he hc hp hr h =>
      rw [h.shared]
      exact left_move hs hc hp r
  | went p batches x x' he hx hrunning hbatches h =>
      rw [h.shared]
      exact went_move hx hrunning

end Service

end QuickApi.Cleanup
