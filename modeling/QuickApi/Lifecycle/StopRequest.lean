/-
  QuickApi.Lifecycle.StopRequest

  A stop stands until a shutdown has completed, unless the lifespan begins to
  start up after it: `resume` and `startup` reset what the stop has set.
-/

import QuickApi.Lifecycle.Ownership
import QuickApi.Lifecycle.Process

namespace QuickApi.Lifecycle

open QuickApi.Lib

namespace Process

/-- The stop is in force: not ready, and no request is admitted. -/
def Stopped (p : Process) : Prop := p.handler.isReady = false ∧ p.work.reject.isSome = true

/-- The event is a `resume` that succeeds or a startup that runs. -/
def resets (p : Process) : Event → Bool
  | .resume => (p.work.resume p.done).isSome
  | .startup => !p.handler.startupStarted
  | _ => false

/-- No startup begins behind a stop. -/
def KeepsStop (p : Process) (e : Event) : Prop := p.stopRequested = true → p.resets e = false

/-- What no step but a reset undoes. -/
structure Frame (p q : Process) : Prop where
  stop : q.stopRequested = true →
    p.stopRequested = true ∨ q.handler.quiescing = true ∧ q.work.drainingAt ≠ none
  quiescing : p.handler.quiescing = true → q.handler.quiescing = true
  draining : p.work.drainingAt ≠ none → q.work.drainingAt ≠ none
  failed : p.work.failed = true → q.work.failed = true

theorem quiescing_quiesce (b : Behaviour) (h : LifecycleHandler) :
    (h.quiesce b).quiescing = true := (LifecycleHandler.quiesce_spec b h).quiescing

theorem frame_arrive (p : Process) (forwarded : Bool) : Frame p (p.arrive forwarded) := by
  unfold arrive
  split
  · exact ⟨.inl, id, id, id⟩
  · cases forwarded <;> exact ⟨.inl, id, id, id⟩

/-- A drain changes only the bookkeeping of cancelled work. -/
theorem frame_wake {p : Process} {d : Drain} {r : Process × Option Drain}
    (h : p.wake d = some r) : Frame p r.1 := by
  unfold wake at h
  split at h
  · split at h
    · obtain rfl := Option.some.inj h
      exact ⟨.inl, id, id, id⟩
    · split at h
      · obtain rfl := Option.some.inj h
        exact ⟨.inl, id, id, fun _ => rfl⟩
      · cases h
  · split at h
    · obtain rfl := Option.some.inj h
      exact ⟨.inl, id, id, id⟩
    · cases h

/-- Every step but a reset. -/
theorem next_frame {p q : Process} {e : Event} (hnext : p.next e = some q)
    (hreset : p.resets e = false) : Frame p q := by
  cases e with
  | tick t =>
      rw [next] at hnext
      split at hnext <;> cases hnext
      exact ⟨.inl, id, id, id⟩
  | stop b =>
      obtain rfl := Option.some.inj hnext
      refine ⟨fun _ => .inr ⟨quiescing_quiesce b _, p.work.quiesce_drainingAt p.now⟩, ?_, ?_, ?_⟩
      · exact fun _ => quiescing_quiesce b _
      · exact fun _ => p.work.quiesce_drainingAt p.now
      · exact fun hf => (p.work.quiesce_failed p.now).trans hf
  | arrive forwarded =>
      obtain rfl := Option.some.inj hnext
      exact frame_arrive p forwarded
  | leaveAdmission i =>
      rw [next, leaveAdmission] at hnext
      split at hnext
      · split at hnext <;> cases hnext
        exact ⟨.inl, id, id, id⟩
      · cases hnext
  | finish i =>
      rw [next, finish] at hnext
      split at hnext
      · split at hnext <;> cases hnext
        exact ⟨.inl, id, id, id⟩
      · cases hnext
  | discard i =>
      rw [next] at hnext
      split at hnext <;> cases hnext
      exact ⟨.inl, id, id, id⟩
  | resume =>
      rw [resets, Option.isSome_eq_false_iff, Option.isNone_iff_eq_none] at hreset
      rw [next] at hnext
      simp only [hreset] at hnext
      split at hnext <;> cases hnext
      exact ⟨.inl, id, id, id⟩
  | startup =>
      rw [resets, Bool.not_eq_false'] at hreset
      rw [next] at hnext
      simp only [hreset, if_true] at hnext
      split at hnext <;> cases hnext
      exact ⟨.inl, id, id, id⟩
  | serviceStart ok =>
      rw [next] at hnext
      split at hnext
      · split at hnext <;> cases hnext <;> exact ⟨.inl, id, id, id⟩
      · cases hnext
  | startCancelled =>
      rw [next] at hnext
      split at hnext <;> cases hnext
      exact ⟨.inl, id, id, id⟩
  | startupDone =>
      rw [next] at hnext
      split at hnext <;> cases hnext
      exact ⟨.inl, id, id, id⟩
  | rollback b =>
      rw [next] at hnext
      split at hnext <;> cases hnext <;> exact ⟨.inl, id, id, id⟩
  | leave failed =>
      rw [next] at hnext
      split at hnext <;> cases hnext
      exact ⟨.inl, id, id, id⟩
  | beginDrain b =>
      rw [next] at hnext
      split at hnext <;> cases hnext
      refine ⟨.inl, fun _ => quiescing_quiesce b _, ?_, ?_⟩
      · exact fun _ => p.work.quiesce_drainingAt p.now
      · exact fun hf => (p.work.quiesce_failed p.now).trans hf
  | drainWake =>
      rw [next] at hnext
      split at hnext
      · obtain ⟨r, hr, rfl⟩ := Option.map_eq_some_iff.mp hnext
        obtain ⟨hstop, hq, hd, hf⟩ := frame_wake hr
        exact ⟨hstop, hq, hd, hf⟩
      · cases hnext
  | shutdown b =>
      rw [next] at hnext
      split at hnext
      · split at hnext <;> cases hnext
        · exact ⟨.inl, id, id, id⟩
        · exact ⟨.inl, fun _ => quiescing_quiesce b _, id, id⟩
      · cases hnext
  | stopService b =>
      rw [next] at hnext
      split at hnext <;> cases hnext
      · exact ⟨.inl, id, id, id⟩
      · exact ⟨nofun, id, id, id⟩
  | serverDrain =>
      obtain rfl := Option.some.inj hnext
      refine ⟨.inl, id, ?_, ?_⟩
      · exact fun _ => p.work.quiesce_drainingAt p.now
      · exact fun hf => (p.work.quiesce_failed p.now).trans hf
  | serverWake =>
      rw [next] at hnext
      split at hnext
      · obtain ⟨r, hr, rfl⟩ := Option.map_eq_some_iff.mp hnext
        obtain ⟨hstop, hq, hd, hf⟩ := frame_wake hr
        exact ⟨hstop, hq, hd, hf⟩
      · cases hnext
  | serverGivesUp =>
      rw [next] at hnext
      split at hnext <;> cases hnext
      exact ⟨.inl, id, id, fun _ => rfl⟩

-- ============================================================================
-- The stop stands
-- ============================================================================

/-- The flags that a stop sets. -/
def StopStands (p : Process) : Prop :=
  p.stopRequested = true → p.handler.quiescing = true ∧ p.work.drainingAt ≠ none

theorem StopStands.stopped {p : Process} (h : StopStands p) (hstop : p.stopRequested = true) :
    p.Stopped := by
  obtain ⟨hq, hd⟩ := h hstop
  refine ⟨?_, ?_⟩
  · simp [LifecycleHandler.isReady, hq]
  · rw [RequestWork.reject_isSome, Option.isSome_iff_ne_none]
    exact hd

theorem StopStands.frame {p q : Process} (h : StopStands p) (hf : Frame p q) :
    StopStands q := by
  intro hstop
  rcases hf.stop hstop with hp | hq
  · exact ⟨hf.quiescing (h hp).1, hf.draining (h hp).2⟩
  · exact hq

/-- A reset that no stop precedes leaves nothing to stand. -/
theorem stopRequested_of_resets {p q : Process} {e : Event} (hnext : p.next e = some q)
    (hreset : p.resets e = true) : q.stopRequested = p.stopRequested := by
  cases e with
  | resume =>
      rw [next] at hnext
      split at hnext
      · split at hnext <;> cases hnext <;> rfl
      · cases hnext
  | startup =>
      rw [next] at hnext
      split at hnext
      · split at hnext <;> cases hnext <;> rfl
      · cases hnext
  | _ => cases hreset

theorem StopStands.step {p q : Process} {e : Event} (h : StopStands p) (hkeep : p.KeepsStop e)
    (hnext : p.next e = some q) : StopStands q := by
  cases hreset : p.resets e with
  | false => exact h.frame (next_frame hnext hreset)
  | true =>
      intro hstop
      rw [stopRequested_of_resets hnext hreset] at hstop
      exact absurd (hreset.symm.trans (hkeep hstop)) nofun

/-- From a stop on, in every run without a startup that begins behind a stop, nothing is ready
    and no request is admitted until a shutdown has completed. -/
theorem stop_stands {p₀ p : Process} {es : List Event} (hinit : processSystem.init p₀)
    (hkeep : processSystem.Along KeepsStop p₀ es) (hrun : processSystem.run p₀ es = some p) :
    p.stopRequested = true → p.Stopped := by
  have hp₀ : StopStands p₀ := by
    obtain ⟨services, drainSeconds, now, rfl⟩ := hinit
    exact nofun
  have hp : StopStands p :=
    System.run_preserves_along (S := processSystem) (P := StopStands) (C := KeepsStop)
      (fun _ _ _ hs hC hnext => hs.step hC hnext) hp₀ hkeep hrun
  exact hp.stopped

/-- Services whose calls return. -/
def returning : Behaviour := ⟨fun _ => true, fun _ => true, fun _ => true⟩

/-- A stop while the application is serving. -/
theorem stop_stands_serving :
    ∃ p, processSystem.run (.created [⟨0, "database", false⟩] 30 0)
      [.resume, .startup, .serviceStart true, .startupDone, .stop returning, .arrive true] =
        some p ∧ p.stopRequested = true ∧ p.Stopped := by
  have hkeep : processSystem.Along KeepsStop (.created [⟨0, "database", false⟩] 30 0)
      [.resume, .startup, .serviceStart true, .startupDone, .stop returning, .arrive true] :=
    .cons nofun rfl <| .cons nofun rfl <| .cons nofun rfl <| .cons nofun rfl <|
      .cons nofun rfl <| .cons (fun _ => rfl) rfl trivial
  exact ⟨_, rfl, rfl, stop_stands ⟨_, _, _, rfl⟩ hkeep rfl rfl⟩

/-- A stop that comes between the loading of the application and the start of its lifespan is
    undone: behind the startup the application is ready and admits requests. -/
theorem stop_undone_by_startup :
    ∃ p, processSystem.run
      (.created [⟨0, "database", false⟩, ⟨1, "idempotency cleanup", false⟩] 30 0)
      [.stop returning, .resume, .startup, .serviceStart true, .serviceStart true,
        .startupDone] = some p ∧
      p.stopRequested = true ∧ p.handler.isReady = true ∧ p.work.reject = none :=
  ⟨_, rfl, rfl, rfl, rfl⟩

end Process

end QuickApi.Lifecycle
