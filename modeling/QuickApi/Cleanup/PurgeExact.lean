/-
  QuickApi.Cleanup.PurgeExact

  How many rows sweeps remove, and which: any number of services together never
  count a row twice nor remove one that has not expired, and a sweep that is
  alone with the table removes the first expired rows, as many as its batches
  hold.
-/

import QuickApi.Cleanup.Purge
import QuickApi.Cleanup.SingleFlight

namespace QuickApi.Cleanup

open QuickApi.Lib
open QuickApi.Mutation (IdempotencyORM)

variable {settings : Nat → CleanupSettings} {now count : Nat} {table : Table} {r r' : Replicas}

-- ============================================================================
-- Conditions on runs
-- ============================================================================

/-- No batch of another pass returns. -/
def Alone (i p : Nat) (_ : Replicas) (e : Nat × Event) : Prop :=
  ∀ j q removed, e = (j, .batchReturned q removed) → j = i ∧ q = p

/-- The service `i` accepts work. -/
def Accepting (i : Nat) (r : Replicas) (_ : Nat × Event) : Prop :=
  ∀ s, r.services[i]? = some s → s.accepting = true

instance decidableAccepting (i : Nat) (r : Replicas) (e : Nat × Event) :
    Decidable (Accepting i r e) :=
  match h : r.services[i]? with
  | none => isTrue fun s hs => by rw [h] at hs; cases hs
  | some s => decidable_of_iff (s.accepting = true) (by simp [Accepting, h])

instance decidableAlone (i p : Nat) (r : Replicas) (e : Nat × Event) : Decidable (Alone i p r e) :=
  match h : e.2 with
  | .batchReturned q removed =>
      decidable_of_iff (e.1 = i ∧ q = p) (by
        constructor
        · rintro hip j q' removed' rfl
          obtain ⟨rfl, rfl⟩ := Event.batchReturned.inj h
          exact hip
        · intro halone
          exact halone e.1 q removed (Prod.ext rfl h))
  | .start | .quiesce | .stop | .sweep | .stopTimerDone _ | .stopPendingDone _ | .callResumes _
  | .callCancelled _ | .passBegins _ | .batchFailed _ _ | .timerBegins _ | .timerFires _
  | .timerWoken _ | .timerCancelled _ =>
      isTrue fun j q removed heq => by rw [heq] at h; cases h

-- ============================================================================
-- A sweep alone
-- ============================================================================

/-- What has been removed since a state is what one pass has removed. -/
theorem alone_next {i p : Nat} {e : Nat × Event} {start : List Batch}
    (h : r.purged = start ++ r.batches i p) (halone : Alone i p r e)
    (hnext : r.next settings now e = some r') : r'.purged = start ++ r'.batches i p := by
  obtain ⟨s, s', -, -, ⟨-, rfl⟩ | ⟨q, gone, he, -, rfl⟩⟩ := Replicas.next_cases hnext
  · exact h
  · obtain ⟨hi, rfl⟩ := halone e.1 q gone.length (Prod.ext rfl he)
    rw [Replicas.batches_append, if_pos ⟨hi, rfl⟩, ← List.append_assoc, ← h]

/-- A pass that is done has run all of its batches, or left nothing behind. -/
def RanOut (settings : Nat → CleanupSettings) (now : Nat) (r : Replicas) (i p : Nat) : Prop :=
  ∀ s n, r.services[i]? = some s → s.passes[p]? = some (.done (.ok n)) →
    (r.batches i p).length = (settings i).maxBatches ∨ r.table.expired now = []

theorem check_accepting {count left n : Nat} (h : Pass.check true count left = .done (.ok n)) :
    left = 0 := by
  cases left with
  | zero => rfl
  | succ left => cases h

/-- The pass `p` behind a step of its own service that runs no batch. -/
theorem PassStep.ranOut {settings : CleanupSettings} {s : Service} {e : Event}
    {passes : List Pass} (h : PassStep settings s e passes) {exhausted : Prop} {p n : Nat}
    {batches : List Batch}
    (hcounted : ∀ x, s.passes[p]? = some x → PassCounted settings exhausted batches x)
    (hout : s.passes[p]? = some (.done (.ok n)) →
      batches.length = settings.maxBatches ∨ exhausted)
    (haccepting : s.accepting = true) (he : ∀ p removed, e ≠ .batchReturned p removed)
    (hx : passes[p]? = some (.done (.ok n))) :
    batches.length = settings.maxBatches ∨ exhausted := by
  have hset {q : Nat} {y z : Pass} (hq : s.passes[q]? = some y)
      (hx : (s.passes.set q z)[p]? = some (.done (.ok n)))
      (hz : q = p → z = .done (.ok n) → batches.length = settings.maxBatches ∨ exhausted) :
      batches.length = settings.maxBatches ∨ exhausted := by
    by_cases hqp : q = p
    · subst hqp
      rw [getElem?_set_of_some hq] at hx
      exact hz rfl (Option.some.inj hx)
    · rw [List.getElem?_set_ne hqp] at hx
      exact hout hx
  cases h with
  | kept => exact hout hx
  | launched =>
      rw [List.getElem?_append] at hx
      split at hx
      · exact hout hx
      · cases List.mem_singleton.mp (List.mem_of_getElem? hx)
  | began q hq =>
      refine hset hq hx fun hqp hdone => ?_
      subst hqp
      have hcreated : batches = [] := hcounted _ hq
      rw [haccepting] at hdone
      rw [hcreated, check_accepting hdone]
      exact .inl rfl
  | returned q removed => exact absurd rfl (he q removed)
  | failed q count left e hq => exact hset hq hx fun _ hdone => by cases hdone

theorem ranOut_next {i p : Nat} {e : Nat × Event} (h : Sound settings now table r)
    (hout : RanOut settings now r i p) (haccepting : Accepting i r e)
    (hnext : r.next settings now e = some r') : RanOut settings now r' i p := by
  obtain ⟨s, s', hs, hs', ⟨he, rfl⟩ | ⟨q, gone, he, hgone, rfl⟩⟩ := Replicas.next_cases hnext
  · intro t n ht hx
    obtain ⟨rfl, rfl⟩ | ⟨-, ht⟩ := services_set hs ht
    · exact (Service.passStep_of_next hs').ranOut (fun x hx => h.counted _ s p x hs hx)
        (hout s n hs) (haccepting s hs) he hx
    · exact hout t n ht hx
  · intro t n ht hx
    have hexpired : (r.table.remove gone).expired now =
        (r.table.expired now).drop (settings e.1).batchSize := by
      rw [hgone, Table.expired_remove]
    have hexhausted : r.table.expired now = [] → (r.table.remove gone).expired now = [] := by
      intro hnil
      rw [hexpired, hnil, List.drop_nil]
    rw [Replicas.batches_append]
    dsimp only at ht ⊢
    obtain ⟨rfl, rfl⟩ | ⟨hij, ht⟩ := services_set hs ht
    · have hstep := Service.passStep_of_next hs'
      rw [he] at hstep
      generalize t.passes = passes at hstep hx
      cases hstep with
      | kept _ he => exact absurd rfl (he q _)
      | launched _ he => exact absurd rfl (he q _)
      | returned _ _ count left hp =>
          by_cases hpq : q = p
          · subst hpq
            rw [getElem?_set_of_some hp] at hx
            have hdone := Option.some.inj hx
            rw [Pass.behindBatch] at hdone
            split at hdone
            · next hlt =>
                right
                rw [hgone, List.length_take] at hlt
                rw [hexpired, List.drop_eq_nil_iff]
                omega
            · left
              rw [haccepting s hs] at hdone
              obtain ⟨hlength, -⟩ := h.counted e.1 s q _ hs hp
              rw [check_accepting hdone] at hlength
              rw [if_pos ⟨rfl, rfl⟩, List.length_append]
              exact hlength
          · rw [List.getElem?_set_ne hpq] at hx
            rw [if_neg fun heq => hpq heq.2, List.append_nil]
            exact (hout s n hs hx).imp_right hexhausted
    · rw [if_neg fun heq => hij heq.1.symm, List.append_nil]
      exact (hout t n ht hx).imp_right hexhausted

-- ============================================================================
-- Exactness
-- ============================================================================

theorem Sound.of_run {es : List (Nat × Event)} (h : Sound settings now table r)
    (hrun : (replicaSystem settings now table count).run r es = some r') :
    Sound settings now table r' :=
  System.run_preserves (sound_invariant settings now table count).step h hrun

/-- A pass that has been alone with the table since it was created has removed the first expired
    rows, and has counted them. -/
theorem sweep_alone (h : Sound settings now table r) {i p n : Nat} {s s' : Service}
    {es : List (Nat × Event)} (hs : r.services[i]? = some s) (hp : s.passes[p]? = some .created)
    (hrun : (replicaSystem settings now table count).run r es = some r')
    (halone : (replicaSystem settings now table count).Along (Alone i p) r es)
    (hs' : r'.services[i]? = some s') (hp' : s'.passes[p]? = some (.done (.ok n))) :
    r'.table.rows = (r.table.remove ((r.table.expired now).take n)).rows ∧
      n = min (r.table.expired now).length
        ((settings i).batchSize * (r'.batches i p).length) ∧
      (r'.batches i p).length ≤ (settings i).maxBatches ∧
      (r'.table.expired now = [] → n = (r.table.expired now).length) := by
  have hcreated : r.batches i p = [] := h.counted i s p _ hs hp
  have hsound := h.of_run hrun
  have hpurged : r'.purged = r.purged ++ r'.batches i p :=
    System.run_preserves_along (P := fun m => m.purged = r.purged ++ m.batches i p)
      (fun m e m' hm hC hnext => alone_next hm hC hnext) (by rw [hcreated, List.append_nil])
      halone hrun
  obtain ⟨hlength, hcount, hle, hlast⟩ := hsound.counted i s' p _ hs' hp'
  have hexpired : r.table.expired now = rowsOf (r'.batches i p) ++ r'.table.expired now := by
    have htaken := hsound.taken
    rw [hpurged, rowsOf_append, List.append_assoc, h.taken] at htaken
    exact List.append_cancel_left htaken
  have htotal : (r.table.expired now).length = n + (r'.table.expired now).length := by
    rw [hexpired, List.length_append, hcount]
  refine ⟨?_, ?_, hlength, fun hnil => by rw [htotal, hnil, List.length_nil, Nat.add_zero]⟩
  · have hgone : (r.table.expired now).take n = rowsOf (r'.batches i p) := by
      rw [hexpired, List.take_left' hcount]
    rw [hgone, hsound.rows, hpurged, rowsOf_append, ← Table.rows_remove_append]
    simp only [Table.remove, h.rows]
  · obtain hfull | hnil := hlast
    · omega
    · rw [hnil, List.length_nil] at htotal
      omega

/-- A pass that found its service accepting throughout stops at its last batch or at the last
    expired row. -/
theorem sweep_accepting (h : Sound settings now table r) {i p n : Nat} {s s' : Service}
    {es : List (Nat × Event)} (hs : r.services[i]? = some s) (hp : s.passes[p]? = some .created)
    (hrun : (replicaSystem settings now table count).run r es = some r')
    (haccepting : (replicaSystem settings now table count).Along (Accepting i) r es)
    (hs' : r'.services[i]? = some s') (hp' : s'.passes[p]? = some (.done (.ok n))) :
    (r'.batches i p).length = (settings i).maxBatches ∨ r'.table.expired now = [] := by
  have hstart : RanOut settings now r i p := by
    intro t m ht hx
    obtain rfl := Option.some.inj (hs.symm.trans ht)
    cases hp.symm.trans hx
  refine (System.run_preserves_along
    (P := fun m => Sound settings now table m ∧ RanOut settings now m i p) ?_ ⟨h, hstart⟩
    haccepting hrun).2 s' n hs' hp'
  intro m e m' hm hC hnext
  exact ⟨sound_next hm.1 hnext, ranOut_next hm.1 hm.2 hC hnext⟩

-- ============================================================================
-- A sweep to its end
-- ============================================================================

theorem Service.advance_kept (s : Service) (p n left : Nat) :
    (s.advance p n left).accepting = s.accepting ∧ (s.advance p n left).calls = s.calls := by
  unfold Service.advance
  split
  · exact ⟨rfl, rfl⟩
  · split
    · exact ⟨rfl, rfl⟩
    · exact ⟨rfl, rfl⟩

theorem Service.batchReturned_kept (s : Service) (settings : CleanupSettings)
    (p n left removed : Nat) :
    (s.batchReturned settings p n left removed).accepting = s.accepting ∧
      (s.batchReturned settings p n left removed).calls = s.calls := by
  rw [Service.batchReturned]
  split
  · exact ⟨rfl, rfl⟩
  · exact s.advance_kept p _ left

/-- A batch of a pass can always return. -/
theorem batch_returns (settings : Nat → CleanupSettings) (now : Nat) {i p n left : Nat}
    {s : Service} (hbatch : 1 ≤ (settings i).batchSize ∧ (settings i).batchSize ≤ 1000)
    (hs : r.services[i]? = some s) (hp : s.passes[p]? = some (.purging n left)) :
    ∃ removed r', r.next settings now (i, .batchReturned p removed) = some r' ∧
      r'.services = r.services.set i (s.batchReturned (settings i) p n left removed) := by
  refine ⟨((r.table.expired now).take (settings i).batchSize).length, ?_⟩
  rw [Replicas.next, hs, Option.bind_some]
  simp [Service.next, hp, Table.purgeExpiredBatch, hbatch]

/-- The pass `p` can run to its end alone, while its service accepts; it leaves the calls to
    their own. -/
def RunsToEnd (S : System Replicas (Nat × Event)) (i p : Nat) (r : Replicas) : Prop :=
  ∃ es r' s s' n, S.run r es = some r' ∧ S.Along (Alone i p) r es ∧ S.Along (Accepting i) r es ∧
    r.services[i]? = some s ∧ r'.services[i]? = some s' ∧ s'.calls = s.calls ∧
    s'.accepting = true ∧ s'.passes[p]? = some (.done (.ok n))

section RunsToEnd

variable {i p : Nat} {s : Service}

theorem RunsToEnd.of_done {S : System Replicas (Nat × Event)} {n : Nat}
    (hs : r.services[i]? = some s) (haccepting : s.accepting = true)
    (hp : s.passes[p]? = some (.done (.ok n))) : RunsToEnd S i p r :=
  ⟨[], r, s, s, n, rfl, trivial, trivial, hs, hs, rfl, haccepting, hp⟩

/-- One step of the pass, ahead of a run to its end. -/
theorem RunsToEnd.of_next {e : Event} {t : Service}
    (hs : r.services[i]? = some s) (haccepting : s.accepting = true)
    (he : ∀ q removed, e = .batchReturned q removed → q = p)
    (hnext : r.next settings now (i, e) = some r') (ht : r'.services = r.services.set i t)
    (hcalls : t.calls = s.calls)
    (h : RunsToEnd (replicaSystem settings now table count) i p r') :
    RunsToEnd (replicaSystem settings now table count) i p r := by
  obtain ⟨es, r₁, t', s', n, hrun, halone, haccepts, ht', hs', hcalls', haccepting', hp⟩ := h
  have htt' : t' = t := by
    rw [ht, getElem?_set_of_some hs] at ht'
    exact (Option.some.inj ht').symm
  refine ⟨(i, e) :: es, r₁, s, s', n, System.run_cons_eq_some_iff.mpr ⟨r', hnext, hrun⟩,
    .cons ?_ hnext halone, .cons ?_ hnext haccepts, hs, hs', ?_, haccepting', hp⟩
  · rintro j q removed heq
    obtain ⟨rfl, rfl⟩ := Prod.mk.inj heq
    exact ⟨rfl, he q removed rfl⟩
  · intro x hx
    obtain rfl := Option.some.inj (hs.symm.trans hx)
    exact haccepting
  · rw [hcalls', htt', hcalls]

/-- From the check of its loop a pass runs to its end, by induction on the batches left. -/
theorem runsToEnd_check
    (hbatch : 1 ≤ (settings i).batchSize ∧ (settings i).batchSize ≤ 1000) {n left : Nat}
    (hs : r.services[i]? = some s) (haccepting : s.accepting = true)
    (hp : s.passes[p]? = some (.check true n left)) :
    RunsToEnd (replicaSystem settings now table count) i p r := by
  induction left generalizing r s n with
  | zero => exact .of_done hs haccepting hp
  | succ left ih =>
      obtain ⟨removed, r', hnext, ht⟩ := batch_returns settings now hbatch hs hp
      obtain ⟨haccepts, hcalls⟩ := s.batchReturned_kept (settings i) p n left removed
      have hs' : r'.services[i]? = some (s.batchReturned (settings i) p n left removed) := by
        rw [ht, getElem?_set_of_some hs]
      have hp' : (s.batchReturned (settings i) p n left removed).passes[p]? =
          some (.behindBatch (settings i) true n left removed) := by
        rw [Service.batchReturned_passes, haccepting,
          getElem?_set_of_some hp]
      refine .of_next hs haccepting ?_ hnext ht hcalls ?_
      · rintro q k ⟨⟩
        rfl
      · rw [Pass.behindBatch] at hp'
        split at hp'
        · exact .of_done hs' (haccepts.trans haccepting) hp'
        · exact ih hs' (haccepts.trans haccepting) hp'

theorem runsToEnd_created
    (hbatch : 1 ≤ (settings i).batchSize ∧ (settings i).batchSize ≤ 1000)
    (hs : r.services[i]? = some s) (haccepting : s.accepting = true)
    (hp : s.passes[p]? = some .created) :
    RunsToEnd (replicaSystem settings now table count) i p r := by
  obtain ⟨haccepts, hcalls⟩ := s.advance_kept p 0 (settings i).maxBatches
  have hnext : r.next settings now (i, .passBegins p) =
      some { r with services := r.services.set i (s.advance p 0 (settings i).maxBatches) } := by
    rw [Replicas.next, hs]
    simp [Service.next, hp]
  have hs' : (r.services.set i (s.advance p 0 (settings i).maxBatches))[i]? =
      some (s.advance p 0 (settings i).maxBatches) :=
    getElem?_set_of_some hs
  have hp' : (s.advance p 0 (settings i).maxBatches).passes[p]? =
      some (.check true 0 (settings i).maxBatches) := by
    rw [Service.advance_passes, haccepting,
      getElem?_set_of_some hp]
  exact .of_next hs haccepting (by simp) hnext rfl hcalls
    (runsToEnd_check hbatch hs' (haccepts.trans haccepting) hp')

end RunsToEnd

/-- The service behind a call of `sweep` that launches a pass. -/
theorem sweep_launches {s : Service} (haccepting : s.accepting = true)
    (hpending : s.pending = none) : (s.sweep .task).2 =
      { s with
        pending := some s.passes.length
        passes := s.passes ++ [.created]
        calls := s.calls ++ [⟨.task, some s.passes.length, none, true, false, false⟩] } := by
  rw [Service.sweep, hpending]
  simp [haccepting]

/-- A call of `sweep` returns behind its pass. -/
theorem call_returns (settings : CleanupSettings) {s : Service} {c p n : Nat} {call : SweepCall}
    (hc : s.calls[c]? = some call) (hcaller : call.caller = .task) (hpass : call.pass = some p)
    (hresult : call.result = none) (hp : s.passes[p]? = some (.done (.ok n))) :
    ∃ s' call', s.next settings (.callResumes c) = some s' ∧ s'.passes = s.passes ∧
      s'.calls[c]? = some call' ∧ call'.pass = some p ∧ call'.result = some (.ok n) := by
  have houtcome : s.outcome p = some (.ok n) := by
    rw [Service.outcome, hp]
    rfl
  have hawaited : s.awaited c = some (call, p) := by
    rw [Service.awaited, hc]
    simp [hresult, hpass]
  refine ⟨s.leave c call p (.ok n), { call with result := some (.ok n), settled := true }, ?_,
    s.leave_passes c call p _, ?_, hpass, rfl⟩
  · simp [Service.next, hawaited, houtcome]
  · simp [Service.leave, hcaller, houtcome,
      getElem?_set_of_some hc]

-- ============================================================================
-- Replicas
-- ============================================================================

/-- Every service of a run is in a state of a run of its own. -/
theorem tracked_replicas (settings : Nat → CleanupSettings) (now : Nat) (table : Table)
    (count : Nat) :
    (replicaSystem settings now table count).Invariant fun r =>
      ∀ (i : Nat) (s : Service), r.services[i]? = some s → s.Tracked where
  init r hr i s hs := by
    rw [show r = _ from hr] at hs
    obtain rfl := List.eq_of_mem_replicate (List.mem_of_getElem? hs)
    exact Service.tracked_new
  step r e r' h hnext i t ht := by
    obtain ⟨s, s', hs, hs', hcases⟩ := Replicas.next_cases hnext
    have hservices : r'.services = r.services.set e.1 s' := by
      obtain ⟨-, rfl⟩ | ⟨p, gone, -, -, rfl⟩ := hcases
      · rfl
      · rfl
    rw [hservices] at ht
    obtain ⟨rfl, rfl⟩ | ⟨-, ht⟩ := services_set hs ht
    · exact (h _ s hs).effect (Service.next_effect hs')
    · exact h i t ht

/-- What is promised of sweeps over one table, which is `table` at first. -/
structure PurgesExactly (settings : Nat → CleanupSettings) (now : Nat) (table : Table)
    (count : Nat) : Prop where
  /-- the services together have removed the first expired rows, each of them once, and no
      other row is gone; a pass has counted what it removed -/
  counted : ∀ r : Replicas, (replicaSystem settings now table count).Reachable r →
    ((rowsOf r.purged).map (·.scopeHash)).Nodup ∧
      (∀ row ∈ rowsOf r.purged, row ∈ table.rows ∧ row.Expired now) ∧
      rowsOf r.purged = (table.expired now).take (rowsOf r.purged).length ∧
      r.table.rows = (table.rows.filter fun row => row ∉ rowsOf r.purged) ∧
      ∀ (i : Nat) (s : Service) (p n : Nat), r.services[i]? = some s →
        s.passes[p]? = some (.done (.ok n)) →
        n = (rowsOf (r.batches i p)).length ∧
          (r.batches i p).length ≤ (settings i).maxBatches
  /-- a call of `sweep` returns the count of its pass -/
  returned : ∀ (r : Replicas) (i : Nat) (s : Service) (call : SweepCall) (p n : Nat),
    (replicaSystem settings now table count).Reachable r → r.services[i]? = some s →
    call ∈ s.calls → call.pass = some p → call.result = some (.ok n) →
    s.passes[p]? = some (.done (.ok n))
  /-- a pass that has been alone with the table has removed the first expired rows, as many as
      its batches hold, which are all of them if its service accepted throughout -/
  alone : ∀ (r r' : Replicas) (i p n : Nat) (s s' : Service) (es : List (Nat × Event)),
    (replicaSystem settings now table count).Reachable r →
    r.services[i]? = some s → s.passes[p]? = some .created →
    (replicaSystem settings now table count).run r es = some r' →
    (replicaSystem settings now table count).Along (Alone i p) r es →
    r'.services[i]? = some s' → s'.passes[p]? = some (.done (.ok n)) →
    (r'.table.rows = r.table.rows.filter fun row => row ∉ (r.table.expired now).take n) ∧
      n = min (r.table.expired now).length
        ((settings i).batchSize * (r'.batches i p).length) ∧
      (r'.batches i p).length ≤ (settings i).maxBatches ∧
      ((replicaSystem settings now table count).Along (Accepting i) r es →
        n = min (r.table.expired now).length
          ((settings i).batchSize * (settings i).maxBatches))
  /-- a batch can return -/
  batch : ∀ (r : Replicas) (i p n left : Nat) (s : Service), 1 ≤ (settings i).batchSize →
    (settings i).batchSize ≤ 1000 → r.services[i]? = some s →
    s.passes[p]? = some (.purging n left) →
    ∃ removed r', (replicaSystem settings now table count).next r
      (i, .batchReturned p removed) = some r'
  /-- a call of `sweep` creates a pass where the service accepts and has none, and there is a
      run, with the pass alone and the service accepting, at whose end the call has returned -/
  swept : ∀ (r : Replicas) (i : Nat) (s : Service),
    (replicaSystem settings now table count).Reachable r → r.services[i]? = some s →
    s.accepting = true → s.pending = none →
    1 ≤ (settings i).batchSize → (settings i).batchSize ≤ 1000 →
    ∃ (m : Replicas) (t : Service) (call : SweepCall),
      (replicaSystem settings now table count).next r (i, .sweep) = some m ∧
      m.table = r.table ∧ m.services[i]? = some t ∧ t.passes = s.passes ++ [.created] ∧
      t.calls = s.calls ++ [call] ∧ call.pass = some s.passes.length ∧ call.result = none ∧
      ∃ (es : List (Nat × Event)) (r' : Replicas) (s' : Service) (call' : SweepCall),
        (replicaSystem settings now table count).run m es = some r' ∧
        (replicaSystem settings now table count).Along (Alone i s.passes.length) m es ∧
        (replicaSystem settings now table count).Along (Accepting i) m es ∧
        r'.services[i]? = some s' ∧ s'.calls[s.calls.length]? = some call' ∧
        call'.pass = some s.passes.length ∧
        call'.result = some (.ok (min (r.table.expired now).length
          ((settings i).batchSize * (settings i).maxBatches)))

theorem counted_of_sound (h : Sound settings now table r) :
    ((rowsOf r.purged).map (·.scopeHash)).Nodup ∧
      (∀ row ∈ rowsOf r.purged, row ∈ table.rows ∧ row.Expired now) ∧
      rowsOf r.purged = (table.expired now).take (rowsOf r.purged).length ∧
      r.table.rows = (table.rows.filter fun row => row ∉ rowsOf r.purged) ∧
      ∀ (i : Nat) (s : Service) (p n : Nat), r.services[i]? = some s →
        s.passes[p]? = some (.done (.ok n)) →
        n = (rowsOf (r.batches i p)).length ∧
          (r.batches i p).length ≤ (settings i).maxBatches := by
  have htake : rowsOf r.purged = (table.expired now).take (rowsOf r.purged).length := by
    rw [h.taken, List.take_left]
  have hmem : ∀ row ∈ rowsOf r.purged, row ∈ table.expired now := fun row hrow => by
    rw [h.taken]
    exact List.mem_append_left _ hrow
  refine ⟨?_, fun row hrow => Table.mem_expired.mp (hmem row hrow), htake, h.rows, ?_⟩
  · have hkeys : ((table.expired now).map (·.scopeHash)).Nodup :=
      ((leastFirst_perm expiryKey _).map _).nodup_iff.mpr
        (table.nodupKeys.sublist (List.filter_sublist.map _))
    rw [htake]
    exact hkeys.sublist ((List.take_sublist _ _).map _)
  · intro i s p n hs hp
    obtain ⟨hlength, hcount, -⟩ := h.counted i s p _ hs hp
    exact ⟨hcount.symm, hlength⟩

/-- A pass that has been alone with the table, while its service accepted. -/
theorem sweep_alone_accepting (h : Sound settings now table r) {i p n : Nat} {s s' : Service}
    {es : List (Nat × Event)} (hs : r.services[i]? = some s) (hp : s.passes[p]? = some .created)
    (hrun : (replicaSystem settings now table count).run r es = some r')
    (halone : (replicaSystem settings now table count).Along (Alone i p) r es)
    (haccepting : (replicaSystem settings now table count).Along (Accepting i) r es)
    (hs' : r'.services[i]? = some s') (hp' : s'.passes[p]? = some (.done (.ok n))) :
    n = min (r.table.expired now).length ((settings i).batchSize * (settings i).maxBatches) := by
  obtain ⟨-, hn, hlength, hall⟩ := sweep_alone h hs hp hrun halone hs' hp'
  obtain hfull | hnil := sweep_accepting h hs hp hrun haccepting hs' hp'
  · rw [hfull] at hn
    exact hn
  · have hle := Nat.mul_le_mul_left (settings i).batchSize hlength
    have hE := hall hnil
    omega

/-- A pass that is created while its service accepts runs to its end, and its call returns what
    it removed. -/
theorem exists_run_of_created (h : Sound settings now table r) {i c p : Nat} {s : Service}
    {call : SweepCall}
    (hbatch : 1 ≤ (settings i).batchSize ∧ (settings i).batchSize ≤ 1000)
    (hs : r.services[i]? = some s) (haccepting : s.accepting = true)
    (hp : s.passes[p]? = some .created) (hc : s.calls[c]? = some call)
    (hcaller : call.caller = .task) (hpass : call.pass = some p) (hresult : call.result = none) :
    ∃ es r' s' call', (replicaSystem settings now table count).run r es = some r' ∧
      (replicaSystem settings now table count).Along (Alone i p) r es ∧
      (replicaSystem settings now table count).Along (Accepting i) r es ∧
      r'.services[i]? = some s' ∧ s'.calls[c]? = some call' ∧ call'.pass = some p ∧
      call'.result = some (.ok (min (r.table.expired now).length
        ((settings i).batchSize * (settings i).maxBatches))) := by
  have hends : RunsToEnd (replicaSystem settings now table count) i p r :=
    runsToEnd_created hbatch hs haccepting hp
  obtain ⟨es, m, s₁, t, n, hrun, halone, haccepts, hs₁, ht, hcalls, htaccepting, hdone⟩ := hends
  obtain rfl := Option.some.inj (hs.symm.trans hs₁)
  have hn := sweep_alone_accepting h hs hp hrun halone haccepts ht hdone
  rw [hn] at hdone
  obtain ⟨s', call', hnext, -, hc', hpass', hresult'⟩ :=
    call_returns (settings i) (hcalls ▸ hc) hcaller hpass hresult hdone
  have hstep : (replicaSystem settings now table count).next m (i, .callResumes c) =
      some { m with services := m.services.set i s' } := by
    show m.next settings now (i, .callResumes c) = _
    rw [Replicas.next, ht, Option.bind_some, hnext]
    rfl
  refine ⟨es ++ [(i, .callResumes c)], _, s', call', System.run_snoc hrun hstep, ?_, ?_,
    getElem?_set_of_some ht, hc', hpass', hresult'⟩
  · refine System.along_append.mpr ⟨halone, fun m' _ => ⟨?_, fun _ _ => trivial⟩⟩
    intro j q removed heq
    cases heq
  · refine System.along_append.mpr ⟨haccepts, fun m' hm' => ⟨?_, fun _ _ => trivial⟩⟩
    obtain rfl := Option.some.inj (hrun.symm.trans hm')
    intro x hx
    obtain rfl := Option.some.inj (ht.symm.trans hx)
    exact htaccepting

/-- Services that sweep one table count every removed row once, and remove nothing but expired
    rows, the first in the order of their expiry; a sweep that is alone removes as many as its
    batches hold, up to all of them, and stops early only where it is no longer accepting. -/
theorem purge_bounded_exact (settings : Nat → CleanupSettings) (now : Nat) (table : Table)
    (count : Nat) : PurgesExactly settings now table count where
  counted r hr := counted_of_sound ((sound_invariant settings now table count).of_reachable hr)
  returned r i s call p n hr hs hcall hpass hresult := by
    have ht := (tracked_replicas settings now table count).of_reachable hr i s hs
    obtain ⟨x, hx, hdone⟩ := Option.bind_eq_some_iff.mp (ht.results call hcall p n hpass hresult)
    cases x with
    | created => cases hdone
    | purging count left => cases hdone
    | done result =>
        obtain rfl := Option.some.inj hdone
        exact hx
  alone r r' i p n s s' es hr hs hp hrun halone hs' hp' := by
    have h := (sound_invariant settings now table count).of_reachable hr
    obtain ⟨hrows, hn, hlength, -⟩ := sweep_alone h hs hp hrun halone hs' hp'
    exact ⟨hrows, hn, hlength, fun haccepting =>
      sweep_alone_accepting h hs hp hrun halone haccepting hs' hp'⟩
  batch r i p n left s hmin hmax hs hp := by
    obtain ⟨removed, r', hnext, -⟩ := batch_returns settings now ⟨hmin, hmax⟩ hs hp
    exact ⟨removed, r', hnext⟩
  swept r i s hr hs haccepting hpending hmin hmax := by
    have hlaunched := sweep_launches haccepting hpending
    have hnext : r.next settings now (i, .sweep) =
        some { r with services := r.services.set i (s.sweep .task).2 } := by
      rw [Replicas.next, hs]
      rfl
    have ht : (r.services.set i (s.sweep .task).2)[i]? = some (s.sweep .task).2 :=
      getElem?_set_of_some hs
    have hsound := (sound_invariant settings now table count).of_reachable (hr.next hnext)
    refine ⟨_, (s.sweep .task).2, ⟨.task, some s.passes.length, none, true, false, false⟩, hnext,
      rfl, ht, by rw [hlaunched], by rw [hlaunched], rfl, rfl, ?_⟩
    apply exists_run_of_created hsound ⟨hmin, hmax⟩ ht
    · rw [hlaunched]
      exact haccepting
    · rw [hlaunched]
      exact List.getElem?_concat_length
    · rw [hlaunched]
      exact List.getElem?_concat_length
    · rfl
    · rfl
    · rfl

/-- A completed row that expires at this time. -/
def sampleRow (scopeHash : List Char) (expiresAt : Nat) : IdempotencyORM where
  scopeHash := scopeHash
  namespaceHash := []
  callerScope := []
  operation := []
  route := []
  fingerprint := []
  state := .completed
  responseStatus := some 204
  responseBody := some []
  completedAt := some 0
  expiresAt := some expiresAt

def sampleTable : Table where
  rows := [sampleRow ['a'] 9, sampleRow ['b'] 3, sampleRow ['c'] 5, sampleRow ['d'] 3]
  nodupKeys := by decide

/-- Of two services one is started and sweeps: its call returns 3 and one row is left. -/
theorem purge_bounded_exact_sample :
    ∃ es r s call, (replicaSystem (fun _ => ⟨2, 5⟩) 5 sampleTable 2).run
        ⟨sampleTable, [.new, .new], []⟩ es = some r ∧
      r.services[0]? = some s ∧ call ∈ s.calls ∧ call.result = some (.ok 3) ∧
      r.table.rows.map (·.scopeHash) = [['a']] := by
  have h := purge_bounded_exact (fun _ => ⟨2, 5⟩) 5 sampleTable 2
  have hstart : (replicaSystem (fun _ => ⟨2, 5⟩) 5 sampleTable 2).run
      ⟨sampleTable, [.new, .new], []⟩ [(0, .start)] =
        some ⟨sampleTable, [Service.new.start, .new], []⟩ := rfl
  have hreachable : (replicaSystem (fun _ => ⟨2, 5⟩) 5 sampleTable 2).Reachable
      ⟨sampleTable, [Service.new.start, .new], []⟩ := ⟨_, _, rfl, hstart⟩
  obtain ⟨m, t, call, hnext, htable, ht, hpasses, hcalls, hpass, hresult, es, r, s, call', hrun,
    halone, haccepting, hs, hcall, hpass', hresult'⟩ :=
    h.swept _ 0 _ hreachable rfl rfl rfl (by decide) (by decide)
  have hthree : min (sampleTable.expired 5).length (2 * 5) = 3 := by decide +kernel
  rw [hthree] at hresult'
  have hm := hreachable.next hnext
  have hdone := h.returned r 0 s call' 0 3 (hm.run hrun) hs (List.mem_of_getElem? hcall) hpass'
    hresult'
  have hcreated : t.passes[0]? = some .created := by
    rw [hpasses]
    rfl
  obtain ⟨hrows, -⟩ := h.alone m r 0 0 3 t s es hm ht hcreated hrun halone hs hdone
  refine ⟨[(0, .start)] ++ (0, .sweep) :: es, r, s, call', System.run_append.mpr
    ⟨_, hstart, System.run_cons_eq_some_iff.mpr ⟨m, hnext, hrun⟩⟩, hs,
    List.mem_of_getElem? hcall, hresult', ?_⟩
  rw [hrows, htable]
  decide +kernel

-- two services share three expired rows: the first has a full batch, the second the last row
example :
    ((replicaSystem (fun _ => ⟨2, 5⟩) 5 sampleTable 2).run
      ⟨sampleTable, [.new, .new], []⟩
      [(0, .start), (1, .start), (0, .sweep), (1, .sweep), (0, .passBegins 0), (1, .passBegins 0),
        (0, .batchReturned 0 2), (1, .batchReturned 0 1), (0, .batchReturned 0 0)]).map
      (fun r => (r.table.rows.map (·.scopeHash), r.purged.map fun b => b.rows.map (·.scopeHash))) =
    some ([['a']], [[['b'], ['d']], [['c']], []]) := by
  decide +kernel

end QuickApi.Cleanup
