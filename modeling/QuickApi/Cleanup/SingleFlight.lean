/-
  QuickApi.Cleanup.SingleFlight

  Sweeps are single-flight; after `quiesce` nothing begins, and `stop` leaves
  nothing running.  They are fresh exactly in the runs where every finished
  pass has been left by one of its callers before the next call
  (`sweeps_hold_iff`): only a caller clears `_pending`, so a pass that outlives
  its callers stays there.
-/

import QuickApi.Cleanup.Effect

namespace QuickApi.Cleanup

open QuickApi.Lib

/-- What a call of `sweep` found. -/
def SweepCall.found (c : SweepCall) : Bool × Option Nat × Bool := (c.accepting, c.pass, c.stale)

namespace Service

variable {s s' : Service} {e : Event}

-- ============================================================================
-- What a step keeps
-- ============================================================================

section Release

variable (s : Service) (p : Nat)

@[simp] theorem release_accepting : (s.release p).accepting = s.accepting := by
  unfold release
  split <;> rfl

@[simp] theorem release_passes : (s.release p).passes = s.passes := by
  unfold release
  split <;> rfl

@[simp] theorem release_calls : (s.release p).calls = s.calls := by
  unfold release
  split <;> rfl

@[simp] theorem release_stops : (s.release p).stops = s.stops := by
  unfold release
  split <;> rfl

@[simp] theorem release_batches : (s.release p).batches = s.batches := by
  unfold release
  split <;> rfl

end Release

/-- Only a call that is accepted launches a pass; the others change one that runs, if any. -/
theorem Effect.passes (h : Effect s e s') :
    s'.passes = s.passes ∨ (s.accepting = true ∧ s'.passes = s.passes ++ [.created]) ∨
      ∃ p x x', s.passes[p]? = some x ∧ x.outcome = none ∧ s'.passes = s.passes.set p x' := by
  cases h with
  | quiet he h => exact .inl h.passes
  | started he hidle h => exact .inl h.passes
  | quiesced he h => exact .inl h.passes
  | stopping call he hcall h => exact .inl h.passes
  | stopped i old call he hi hold hcall h => exact .inl h.passes
  | called m he hm h =>
      rw [h.passes]
      cases hm with
      | launched caller hpending haccepting => exact .inr (.inl ⟨haccepting, rfl⟩)
      | refused => exact .inl rfl
      | joined => exact .inl rfl
      | late => exact .inl rfl
  | left c p call r he hc hp hr h =>
      rw [h.passes, release_passes]
      exact .inl rfl
  | went p batches x x' he hx hrunning hbatches h =>
      exact .inr (.inr ⟨p, x, x', hx, hrunning, h.passes⟩)

/-- The outcome of a pass is final. -/
theorem Effect.outcome (h : Effect s e s') {p : Nat} {r : Except Exc Nat}
    (hdone : s.outcome p = some r) : s'.outcome p = some r := by
  obtain ⟨x, hx, hr⟩ := Option.bind_eq_some_iff.mp hdone
  refine Option.bind_eq_some_iff.mpr ⟨x, ?_, hr⟩
  obtain hsame | ⟨-, happend⟩ | ⟨q, y, y', hy, hrunning, hset⟩ := h.passes
  · rw [hsame]
    exact hx
  · rw [happend, List.getElem?_append_left (List.getElem?_eq_some_iff.mp hx).1]
    exact hx
  · have hne : q ≠ p := by
      rintro rfl
      obtain rfl : y = x := Option.some.inj (hy.symm.trans hx)
      rw [hrunning] at hr
      cases hr
    rw [hset, List.getElem?_set_ne hne]
    exact hx

/-- While the service does not accept, a pass that runs has been running before. -/
theorem Effect.running (h : Effect s e s') (haccepting : s.accepting = false) {p : Nat}
    (hp : s'.Running p) : s.Running p := by
  obtain ⟨x, hx, hnone⟩ := hp
  obtain hsame | ⟨haccepts, -⟩ | ⟨q, y, y', hy, hrunning, hset⟩ := h.passes
  · exact ⟨x, hsame ▸ hx, hnone⟩
  · rw [haccepting] at haccepts
    cases haccepts
  · by_cases hqp : q = p
    · exact ⟨y, hqp ▸ hy, hrunning⟩
    · rw [hset, List.getElem?_set_ne hqp] at hx
      exact ⟨x, hx, hnone⟩

/-- While the service does not accept and is not started, it stays so, and no pass and no
    batch begins. -/
theorem Effect.rests (h : Effect s e s') (haccepting : s.accepting = false) (he : e ≠ .start) :
    s'.accepting = false ∧ s'.passes.length = s.passes.length ∧ s'.batches = s.batches := by
  have hlength : s'.passes.length = s.passes.length := by
    obtain hsame | ⟨haccepts, -⟩ | ⟨q, y, y', -, -, hset⟩ := h.passes
    · rw [hsame]
    · rw [haccepting] at haccepts
      cases haccepts
    · rw [hset, List.length_set]
  cases h with
  | quiet _ h => exact ⟨h.accepting.trans haccepting, hlength, h.batches⟩
  | started hstart _ _ => exact absurd hstart he
  | quiesced _ h => exact ⟨h.accepting, hlength, h.batches⟩
  | stopping call _ hcall h => exact ⟨h.accepting, hlength, h.batches⟩
  | stopped i old call _ hi hold hcall h =>
      exact ⟨h.accepting.trans haccepting, hlength, h.batches⟩
  | called m _ hm h =>
      rw [h.accepting, h.batches]
      cases hm with
      | launched caller hpending haccepts =>
          rw [haccepting] at haccepts
          cases haccepts
      | refused => exact ⟨haccepting, hlength, rfl⟩
      | joined => exact ⟨haccepting, hlength, rfl⟩
      | late => exact ⟨haccepting, hlength, rfl⟩
  | left c p call r _ hc hp hr h =>
      rw [h.accepting, h.batches, release_accepting, release_batches]
      exact ⟨haccepting, hlength, rfl⟩
  | went p batches x x' _ hx hrunning hbatches h =>
      rw [h.accepting, h.batches]
      obtain haccepts | hsame := hbatches
      · rw [haccepting] at haccepts
        cases haccepts
      · exact ⟨haccepting, hlength, hsame⟩

-- ============================================================================
-- The invariant
-- ============================================================================

/-- The slot is sound, what a call of `sweep` returned is the count of its pass, and while a
    call of `stop` is in progress nothing but the pass it awaits can run. -/
structure Tracked (s : Service) : Prop where
  slot : s.shared.Sound
  results : ∀ c ∈ s.calls, ∀ p n, c.pass = some p → c.result = some (.ok n) →
    s.outcome p = some (.ok n)
  stopping : ∀ call ∈ s.stops, call.inProgress = true → s.accepting = false
  awaiting : ∀ p, .awaitingPending p ∈ s.stops → ∀ q, s.Running q → q = p

theorem tracked_new : Tracked .new where
  slot := SharedSlot.sound_empty
  results c hc := by cases hc
  stopping call hcall := by cases hcall
  awaiting p hp := by cases hp

theorem Tracked.pending (ht : Tracked s) {p : Nat} (hp : s.Running p) : s.pending = some p :=
  ht.slot.running p (shared_running.mpr hp)

theorem not_running_of_finished {p : Nat} (hp : s.Finished p) : ¬ s.Running p := by
  intro hrunning
  have hshared := shared_running.mpr hrunning
  exact SharedSlot.not_finished_of_running hshared (shared_finished.mpr hp)

theorem Tracked.slot_effect (ht : Tracked s) (h : Effect s e s') : s'.shared.Sound := by
  obtain hsame | hmove := h.move ht.slot
  · rw [hsame]
    exact ht.slot
  · exact ht.slot.move hmove

theorem Tracked.results_effect (ht : Tracked s) (h : Effect s e s') :
    ∀ c ∈ s'.calls, ∀ p n, c.pass = some p → c.result = some (.ok n) →
      s'.outcome p = some (.ok n) := by
  have hkept : ∀ c ∈ s.calls, ∀ p n, c.pass = some p → c.result = some (.ok n) →
      s'.outcome p = some (.ok n) :=
    fun c hc p n hp hn => h.outcome (ht.results c hc p n hp hn)
  -- it is enough to look at the calls that were not there before
  have hnew {l : List SweepCall} (hl : s'.calls = l) (call : SweepCall)
      (hmem : ∀ c ∈ l, c ∈ s.calls ∨ c = call)
      (hcall : ∀ p n, call.pass = some p → call.result = some (.ok n) →
        s.outcome p = some (.ok n)) :
      ∀ c ∈ s'.calls, ∀ p n, c.pass = some p → c.result = some (.ok n) →
        s'.outcome p = some (.ok n) := by
    intro c hc p n hp hn
    obtain hold | rfl := hmem c (hl ▸ hc)
    · exact hkept c hold p n hp hn
    · exact h.outcome (hcall p n hp hn)
  have happend {call : SweepCall} : ∀ c ∈ s.calls ++ [call], c ∈ s.calls ∨ c = call := by
    intro c hc
    obtain hold | hlast := List.mem_append.mp hc
    · exact .inl hold
    · exact .inr (List.mem_singleton.mp hlast)
  cases h with
  | quiet he h => exact h.calls ▸ hkept
  | started he hidle h => exact h.calls ▸ hkept
  | quiesced he h => exact h.calls ▸ hkept
  | stopping call he hcall h => exact h.calls ▸ hkept
  | stopped i old call he hi hold hcall h => exact h.calls ▸ hkept
  | went p batches x x' he hx hrunning hbatches h => exact h.calls ▸ hkept
  | called m he hm h =>
      cases hm with
      | refused caller hpending haccepting =>
          refine hnew h.calls _ happend fun p n hp _ => ?_
          cases hp
      | launched caller hpending haccepting =>
          refine hnew h.calls _ happend fun p n _ hn => ?_
          cases hn
      | joined caller p hpending hrunning =>
          refine hnew h.calls _ happend fun p n _ hn => ?_
          cases hn
      | late caller p r hpending hdone =>
          refine hnew h.calls _ happend fun q n hq hn => ?_
          cases hq
          cases hn
          exact hdone
  | left c p call r he hc hp hr h =>
      refine hnew (h.calls.trans (release_calls _ _)) _
        (fun c hc => List.mem_or_eq_of_mem_set hc) ?_
      intro q n hq hn
      obtain rfl : p = q := Option.some.inj (hp.symm.trans hq)
      obtain hdone | rfl := hr
      · rw [hdone]
        exact hn
      · cases hn

/-- A call of `sweep`, or leaving one, does not concern the calls of `stop`. -/
theorem Called.same {m : Service} (hm : Called s m) :
    m.accepting = s.accepting ∧ m.stops = s.stops := by
  cases hm with
  | refused => exact ⟨rfl, rfl⟩
  | launched => exact ⟨rfl, rfl⟩
  | joined => exact ⟨rfl, rfl⟩
  | late => exact ⟨rfl, rfl⟩

/-- Where a call of `stop` in progress comes from, and that the service does not accept. -/
theorem Tracked.stops_effect (ht : Tracked s) (h : Effect s e s') {call : StopCall}
    (hcall : call ∈ s'.stops) (hprogress : call.inProgress = true) :
    s'.accepting = false ∧
      (call ∈ s.stops ∨ s'.passes = s.passes ∧ ∃ old, s.StopSound old call) := by
  have hkept (hstops : s'.stops = s.stops) (haccepting : s'.accepting = s.accepting) :
      s'.accepting = false ∧
        (call ∈ s.stops ∨ s'.passes = s.passes ∧ ∃ old, s.StopSound old call) := by
    rw [hstops] at hcall
    rw [haccepting]
    exact ⟨ht.stopping call hcall hprogress, .inl hcall⟩
  cases h with
  | quiet he h => exact hkept h.stops h.accepting
  | started he hidle h =>
      rw [h.stops] at hcall
      have hnone := List.any_eq_false.mp hidle call hcall
      exact absurd hprogress hnone
  | quiesced he h =>
      refine ⟨h.accepting, .inl ?_⟩
      rw [h.stops] at hcall
      exact hcall
  | stopping new he hnew h =>
      refine ⟨h.accepting, ?_⟩
      rw [h.stops] at hcall
      obtain hold | hlast := List.mem_append.mp hcall
      · exact .inl hold
      · obtain rfl := List.mem_singleton.mp hlast
        exact .inr ⟨h.passes, none, hnew⟩
  | stopped i old new he hi hold hnew h =>
      rw [h.stops] at hcall
      refine ⟨h.accepting.trans (ht.stopping old (List.mem_of_getElem? hi) hold), ?_⟩
      obtain hmem | rfl := List.mem_or_eq_of_mem_set hcall
      · exact .inl hmem
      · exact .inr ⟨h.passes, some old, hnew⟩
  | called m he hm h =>
      exact hkept (h.stops.trans hm.same.2) (h.accepting.trans hm.same.1)
  | left c p call' r he hc hp hr h =>
      exact hkept (h.stops.trans (release_stops _ _)) (h.accepting.trans (release_accepting _ _))
  | went p batches x x' he hx hrunning hbatches h => exact hkept h.stops h.accepting

theorem Tracked.effect (ht : Tracked s) (h : Effect s e s') : Tracked s' where
  slot := ht.slot_effect h
  results := ht.results_effect h
  stopping call hcall hprogress := (ht.stops_effect h hcall hprogress).1
  awaiting p hp q hq := by
    obtain ⟨-, hold | ⟨hpasses, old, hsound⟩⟩ := ht.stops_effect h hp rfl
    · exact ht.awaiting p hold q (h.running (ht.stopping _ hold rfl) hq)
    · have hpending : s.pending = some p := hsound
      unfold Running at hq
      rw [hpasses] at hq
      exact Option.some.inj ((ht.pending hq).symm.trans hpending)

theorem tracked_invariant (settings : CleanupSettings) :
    (cleanupSystem settings).Invariant Tracked where
  init _ h := h ▸ tracked_new
  step _ _ _ ht hnext := ht.effect (next_effect hnext)

-- ============================================================================
-- Freshness
-- ============================================================================

/-- Every call of `sweep` made while the service accepted has a pass that was not done then. -/
def Fresh (s : Service) : Prop :=
  ∀ c ∈ s.calls, c.accepting = true → c.pass.isSome = true ∧ c.stale = false

/-- A call of `sweep` that is accepted finds that every pass that is done has been left since by
    one of the calls that awaited it. -/
def AllLeft (s : Service) (e : Event) : Prop :=
  e.sweeps = true → s.accepting = true →
    ∀ p, s.Finished p → ∃ c ∈ s.calls, c.pass = some p ∧ c.settled = true

instance decidableFinished (s : Service) (p : Nat) : Decidable (s.Finished p) :=
  inferInstanceAs (Decidable ((s.outcome p).isSome = true))

theorem lt_of_finished {p : Nat} (hp : s.Finished p) : p < s.passes.length := by
  have hlt := SharedSlot.lt_of_finished (shared_finished.mpr hp)
  have hlength : s.shared.jobs.length = s.passes.length := List.length_map _
  omega

instance decidableAllLeft (s : Service) (e : Event) : Decidable (s.AllLeft e) :=
  decidable_of_iff
    (e.sweeps = true → s.accepting = true →
      ∀ p < s.passes.length, s.Finished p → ∃ c ∈ s.calls, c.pass = some p ∧ c.settled = true)
    ⟨fun h he ha p hp => h he ha p (lt_of_finished hp) hp, fun h he ha p _ hp => h he ha p hp⟩

theorem fresh_iff_found : s.Fresh ↔
    ∀ f ∈ s.calls.map SweepCall.found, f.1 = true → f.2.1.isSome = true ∧ f.2.2 = false := by
  rw [List.forall_mem_map]
  rfl

/-- Only a call of `sweep` adds to what the calls found. -/
theorem Effect.calls_cases (h : Effect s e s') :
    (e.sweeps = true ∧ ∃ m, Called s m ∧ Quiet m s') ∨
      e.sweeps = false ∧ s'.calls.map SweepCall.found = s.calls.map SweepCall.found := by
  cases h with
  | called m he hm h => exact .inl ⟨he, m, hm, h⟩
  | quiet he h => exact .inr ⟨he, by rw [h.calls]⟩
  | started he hidle h => exact .inr ⟨he ▸ rfl, by rw [h.calls]⟩
  | quiesced he h => exact .inr ⟨he ▸ rfl, by rw [h.calls]⟩
  | stopping call he hcall h => exact .inr ⟨he ▸ rfl, by rw [h.calls]⟩
  | stopped i old call he hi hold hcall h => exact .inr ⟨he, by rw [h.calls]⟩
  | went p batches x x' he hx hrunning hbatches h => exact .inr ⟨he, by rw [h.calls]⟩
  | left c p call r he hc hp hr h =>
      have hfound : (s.calls.map SweepCall.found)[c]? = some call.found := by
        rw [List.getElem?_map, hc]
        rfl
      refine .inr ⟨he, ?_⟩
      rw [h.calls, release_calls, List.map_set]
      exact set_of_getElem? hfound

theorem fresh_append {call : SweepCall} (hcalls : s'.calls = s.calls ++ [call]) :
    s'.Fresh ↔ s.Fresh ∧ (call.accepting = true → call.pass.isSome = true ∧ call.stale = false) := by
  unfold Fresh
  rw [hcalls, List.forall_mem_append, List.forall_mem_singleton]

/-- A call of `sweep` is stale exactly if some pass is done that no caller has left since. -/
theorem Called.fresh (ht : Tracked s) {m : Service} (hm : Called s m) :
    m.Fresh ↔ s.Fresh ∧ (s.accepting = true →
      ∀ p, s.Finished p → ∃ c ∈ s.calls, c.pass = some p ∧ c.settled = true) := by
  have hsettled {p : Nat} (hp : s.Finished p) (hslot : s.pending ≠ some p) :
      ∃ c ∈ s.calls, c.pass = some p ∧ c.settled = true := by
    have hiff := ht.slot.finished p (shared_finished.mpr hp)
    by_contra hnot
    exact hslot (hiff.mpr fun h => hnot (shared_settled.mp h))
  cases hm with
  | refused caller hpending haccepting =>
      rw [fresh_append rfl, haccepting]
      simp
  | launched caller hpending haccepting =>
      rw [fresh_append rfl]
      refine and_congr_right fun _ => iff_of_true (fun _ => ⟨rfl, rfl⟩) ?_
      intro _ p hp
      apply hsettled hp
      rw [hpending]
      exact (Option.some_ne_none p).symm
  | joined caller p hpending hrunning =>
      rw [fresh_append rfl]
      refine and_congr_right fun _ => iff_of_true (fun _ => ⟨rfl, rfl⟩) ?_
      intro _ q hq
      apply hsettled hq
      intro hslot
      obtain rfl : p = q := Option.some.inj (hpending.symm.trans hslot)
      rw [Finished, hrunning] at hq
      cases hq
  | late caller p r hpending hdone =>
      rw [fresh_append rfl]
      refine and_congr_right fun _ => imp_congr_right fun _ => iff_of_false ?_ ?_
      · rintro ⟨-, hstale⟩
        cases hstale
      · intro hall
        have hp : s.Finished p := by
          rw [Finished, hdone]
          rfl
        have hnot := (ht.slot.finished p (shared_finished.mpr hp)).mp hpending
        exact hnot (shared_settled.mpr (hall p hp))

theorem Tracked.fresh_step (ht : Tracked s) (h : Effect s e s') :
    s'.Fresh ↔ s.Fresh ∧ s.AllLeft e := by
  obtain ⟨he, m, hm, hquiet⟩ | ⟨he, hfound⟩ := h.calls_cases
  · have hsame : s'.Fresh ↔ m.Fresh := by
      unfold Fresh
      rw [hquiet.calls]
    rw [hsame, hm.fresh ht]
    unfold AllLeft
    rw [he]
    simp
  · have hleft : s.AllLeft e := by
      intro hsweeps
      rw [he] at hsweeps
      cases hsweeps
    rw [fresh_iff_found, hfound, ← fresh_iff_found, and_iff_left hleft]

-- ============================================================================
-- Sweeps
-- ============================================================================

/-- What is promised of the service in the state `s` of a run. -/
structure SweepsHold (settings : CleanupSettings) (s : Service) : Prop where
  /-- at most one pass runs -/
  single : ∀ p q, s.Running p → s.Running q → p = q
  /-- a call of `sweep` that was accepted has joined or begun a pass that was not done, and
      returns no count but that of this pass -/
  fresh : ∀ c ∈ s.calls, c.accepting = true → ∃ p, c.pass = some p ∧ c.stale = false ∧
    ∀ n, c.result = some (.ok n) → s.outcome p = some (.ok n)
  /-- from `quiesce` to the next `start` no pass and no batch begins -/
  quiesced : ∀ (m : Service) (es : List Event) (s' : Service), s.next settings .quiesce = some m → .start ∉ es →
    (cleanupSystem settings).run m es = some s' →
    s'.passes.length = s.passes.length ∧ s'.batches = s.batches
  /-- when a call of `stop` returns no pass runs -/
  stopped : ∀ (e : Event) (s' : Service) (i : Nat), s.next settings e = some s' →
    s'.stops[i]? = some .returned → s.stops[i]? ≠ some .returned → ∀ p, ¬ s'.Running p

/-- While it is not started a service that does not accept begins nothing. -/
theorem run_rests {settings : CleanupSettings} {es : List Event}
    (haccepting : s.accepting = false) (hes : .start ∉ es)
    (hrun : (cleanupSystem settings).run s es = some s') :
    s'.passes.length = s.passes.length ∧ s'.batches = s.batches := by
  induction es generalizing s with
  | nil =>
      obtain rfl := Option.some.inj hrun
      exact ⟨rfl, rfl⟩
  | cons e es ih =>
      obtain ⟨m, hnext, hrest⟩ := System.run_cons_eq_some_iff.mp hrun
      rw [List.mem_cons, not_or] at hes
      obtain ⟨hrests, hpasses, hbatches⟩ :=
        (next_effect hnext).rests haccepting (Ne.symm hes.1)
      obtain ⟨hpasses', hbatches'⟩ := ih hrests hes.2 hrest
      exact ⟨hpasses'.trans hpasses, hbatches'.trans hbatches⟩

/-- A call of `stop` returns only behind the pass it found. -/
theorem Tracked.none_running (ht : Tracked s) {old : Option StopCall}
    (hold : ∀ call, old = some call → call ∈ s.stops) (h : s.StopSound old .returned)
    (hpasses : s'.passes = s.passes) (p : Nat) : ¬ s'.Running p := by
  intro hp
  unfold Running at hp
  rw [hpasses] at hp
  obtain hnone | ⟨q, hq, hfinished⟩ | ⟨q, hq, hfinished⟩ := h
  · rw [ht.pending hp] at hnone
    cases hnone
  · obtain rfl : p = q := Option.some.inj ((ht.pending hp).symm.trans hq)
    exact not_running_of_finished hfinished hp
  · obtain rfl : p = q := ht.awaiting q (hold _ hq) p hp
    exact not_running_of_finished hfinished hp

theorem Tracked.stop_returns (ht : Tracked s) (h : Effect s e s') {i : Nat}
    (hi : s'.stops[i]? = some .returned) (hnew : s.stops[i]? ≠ some .returned) (p : Nat) :
    ¬ s'.Running p := by
  have hkept (hstops : s'.stops = s.stops) : ¬ s'.Running p := by
    rw [hstops] at hi
    exact absurd hi hnew
  cases h with
  | quiet he h => exact hkept h.stops
  | started he hidle h => exact hkept h.stops
  | quiesced he h => exact hkept h.stops
  | called m he hm h => exact hkept (h.stops.trans hm.same.2)
  | left c q call r he hc hp hr h => exact hkept (h.stops.trans (release_stops _ _))
  | went q batches x x' he hx hrunning hbatches h => exact hkept h.stops
  | stopping call he hcall h =>
      have hreturned : call = .returned := by
        rw [h.stops, List.getElem?_append] at hi
        split at hi
        · exact absurd hi hnew
        · exact List.mem_singleton.mp (List.mem_of_getElem? hi) |>.symm
      rw [hreturned] at hcall
      exact ht.none_running (fun _ hnone => by cases hnone) hcall h.passes p
  | stopped j old call he hj hold hcall h =>
      rw [h.stops] at hi
      by_cases hij : j = i
      · rw [hij, getElem?_set_of_some (hij ▸ hj)] at hi
        rw [Option.some.inj hi] at hcall
        refine ht.none_running ?_ hcall h.passes p
        intro call' hcall'
        obtain rfl := Option.some.inj hcall'
        exact List.mem_of_getElem? hj
      · rw [List.getElem?_set_ne hij] at hi
        exact absurd hi hnew

/-- Sweeps are single-flight, quiesced and stopped as promised in every run, and fresh exactly
    in those where each accepted call finds that every pass that is done was left by one of
    its callers since. -/
theorem sweeps_hold_iff {settings : CleanupSettings} {es : List Event}
    (hrun : (cleanupSystem settings).run .new es = some s) :
    s.SweepsHold settings ↔ (cleanupSystem settings).Along AllLeft .new es := by
  have hinv := tracked_invariant settings
  have ht : Tracked s := hinv.of_reachable ⟨.new, es, rfl, hrun⟩
  have hfresh : s.Fresh ↔ (cleanupSystem settings).Along AllLeft .new es := by
    have hstart : Fresh .new := fun c hc => by cases hc
    rw [hinv.along_iff (fun s e s' ht hnext => ht.fresh_step (next_effect hnext)) tracked_new hrun,
      and_iff_right hstart]
  rw [← hfresh]
  constructor
  · intro h c hc haccepting
    obtain ⟨p, hp, hstale, -⟩ := h.fresh c hc haccepting
    rw [hp]
    exact ⟨rfl, hstale⟩
  · intro h
    refine ⟨?_, ?_, ?_, ?_⟩
    · intro p q hp hq
      exact Option.some.inj ((ht.pending hp).symm.trans (ht.pending hq))
    · intro c hc haccepting
      obtain ⟨hsome, hstale⟩ := h c hc haccepting
      obtain ⟨p, hp⟩ := Option.isSome_iff_exists.mp hsome
      exact ⟨p, hp, hstale, fun n hn => ht.results c hc p n hp hn⟩
    · intro m fs s' hm hfs hrest
      obtain rfl := Option.some.inj hm
      exact run_rests (s := s.quiesce) rfl hfs hrest
    · intro e s' i hnext hi hnew
      exact ht.stop_returns (next_effect hnext) hi hnew

/-- Two calls share a pass, one of them is cancelled, and a restarted service sweeps anew. -/
theorem sweeps_hold_shared :
    ∃ s, (cleanupSystem ⟨10, 2⟩).run .new
        [.start, .sweep, .sweep, .passBegins 0, .quiesce, .batchReturned 0 10, .callCancelled 0,
          .callResumes 1, .start, .sweep] = some s ∧
      s.passes.length = 2 ∧ s.batches = 1 ∧ s.SweepsHold ⟨10, 2⟩ := by
  have hrun : ((cleanupSystem ⟨10, 2⟩).run .new
      [.start, .sweep, .sweep, .passBegins 0, .quiesce, .batchReturned 0 10, .callCancelled 0,
        .callResumes 1, .start, .sweep]).map (fun s => (s.passes.length, s.batches)) =
      some (2, 1) := by
    decide +kernel
  have hleft : (cleanupSystem ⟨10, 2⟩).Along AllLeft .new
      [.start, .sweep, .sweep, .passBegins 0, .quiesce, .batchReturned 0 10, .callCancelled 0,
        .callResumes 1, .start, .sweep] := by
    decide +kernel
  obtain ⟨s, hs, hfacts⟩ := Option.map_eq_some_iff.mp hrun
  obtain ⟨hpasses, hbatches⟩ := Prod.mk.inj hfacts
  exact ⟨s, hs, hpasses, hbatches, (sweeps_hold_iff hs).mpr hleft⟩

/-- The only caller of a pass is cancelled before the pass is done: the next call, accepted,
    returns the count of that pass. -/
theorem abandoned_pass_returned_late :
    ¬ ∀ settings s, (cleanupSystem settings).Reachable s → SweepsHold settings s := by
  intro hall
  have hrun : ((cleanupSystem ⟨10, 2⟩).run .new
      [.start, .sweep, .passBegins 0, .callCancelled 0, .batchReturned 0 3, .sweep]).map
      (fun s => s.calls.map fun c => (c.accepting, c.stale)) =
      some [(true, false), (true, true)] := by
    decide +kernel
  obtain ⟨s, hs, hcalls⟩ := Option.map_eq_some_iff.mp hrun
  have hmem : (true, true) ∈ s.calls.map fun c => (c.accepting, c.stale) := by
    rw [hcalls]
    simp
  obtain ⟨c, hc, hflags⟩ := List.mem_map.mp hmem
  obtain ⟨haccepting, hstale⟩ := Prod.mk.inj hflags
  obtain ⟨p, -, hfresh, -⟩ := (hall _ s ⟨.new, _, rfl, hs⟩).fresh c hc haccepting
  rw [hstale] at hfresh
  cases hfresh

end Service

end QuickApi.Cleanup
