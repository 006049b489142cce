/-
  QuickApi.Readiness.SingleFlight

  Probes are single-flight and their results fresh in every run in which
  `stop` and `resume` leave what they do not own: `stop` forgets the active
  probe whichever it is when it continues behind its await, so a call of it
  that is late drops the probe of the calls after the next `resume`.
-/

import Mathlib.Algebra.Order.Ring.Rat
import QuickApi.Readiness.Effect

namespace QuickApi.Readiness

open QuickApi.Lib

namespace DatabaseReadiness

variable {s s' m : DatabaseReadiness} {cache : ℚ} {e : Event} {p q : Nat}

-- ============================================================================
-- Phases
-- ============================================================================

theorem phase_of_set {x : Phase × Bool} (hstatuses : s'.statuses = s.statuses.set p x)
    (hp : p < s.statuses.length) (q : Nat) :
    s'.phase q = if p = q then some x.1 else s.phase q := by
  rw [phase_eq, hstatuses, List.getElem?_set, phase_eq]
  split
  · rfl
  · rfl

theorem Same.phase (h : Same s s') (q : Nat) : s'.phase q = s.phase q := by
  rw [phase_eq, h.statuses, phase_eq]

theorem phase_launch (q : Nat) :
    s.launch.phase q = if q = s.probes.length then some .running else s.phase q := by
  rw [DatabaseReadiness.phase, launch, List.getElem?_append, DatabaseReadiness.phase]
  by_cases hlt : q < s.probes.length
  · rw [if_pos hlt, if_neg (Nat.ne_of_lt hlt)]
  · rw [if_neg hlt]
    by_cases hq : q = s.probes.length
    · simp [hq]
    · rw [if_neg hq, List.getElem?_eq_none (by simp; omega), List.getElem?_eq_none (by omega)]

theorem lt_of_phase {x : Phase} (h : s.phase p = some x) : p < s.statuses.length := by
  rw [phase_eq] at h
  obtain ⟨status, hstatus, -⟩ := Option.map_eq_some_iff.mp h
  exact (List.getElem?_eq_some_iff.mp hstatus).1

theorem Unsettled.of_phase (h : s.Unsettled p) (hphase : s'.phase p = s.phase p) :
    s'.Unsettled p := by
  unfold Unsettled Running at h ⊢
  rw [hphase]
  exact h

/-- A step leaves every probe as it is but the one it launches, ends or settles. -/
theorem Core.phase (h : Core cache s e s') (q : Nat) :
    s'.phase q = s.phase q ∨
      (e = .check ∧ s'.active = some q ∧ s.phase q = none ∧ s'.Running q) ∨
      (∃ r, s.Running q ∧ s'.phase q = some (.ended r)) ∨
      ∃ r, e = .finished q ∧ s.phase q = some (.ended r) ∧
        s'.phase q = some (.settled r s.now) := by
  cases h with
  | same h => exact .inl (h.phase q)
  | stopped he hstopped hcached hactive hstatuses =>
      refine .inl ?_
      rw [phase_eq, hstatuses, phase_eq]
  | stopResumed i he h => exact .inl (h.phase q)
  | resumed he hstopped hidle h => exact .inl (h.phase q)
  | launched he hstopped hactive h =>
      rw [Running, h.phase, h.active, phase_launch]
      by_cases hq : q = s.probes.length
      · refine .inr (.inl ⟨he, congrArg some hq.symm, ?_, if_pos hq⟩)
        rw [DatabaseReadiness.phase, List.getElem?_eq_none (Nat.le_of_eq hq.symm)]
        rfl
      · exact .inl (if_neg hq)
  | ended p r he hrunning hstopped hactive hcached hstatuses =>
      rw [phase_of_set hstatuses (lt_of_phase hrunning)]
      split
      · next hpq => exact .inr (.inr (.inl ⟨r, hpq ▸ hrunning, rfl⟩))
      · exact .inl rfl
  | finished p r late he hended hstopped hactive hcached hstatuses =>
      have hphase : s.phase p = some (.ended r) := by rw [phase_eq, hended, Option.map_some]
      rw [phase_of_set hstatuses (lt_of_phase hphase)]
      split
      · next hpq => exact .inr (.inr (.inr ⟨r, hpq ▸ he, hpq ▸ hphase, rfl⟩))
      · exact .inl rfl

/-- The outcome of a probe that is done does not change. -/
theorem Core.outcome (h : Core cache s e s') {r : Outcome} (hr : s.outcome p = some r) :
    s'.outcome p = some r := by
  unfold DatabaseReadiness.outcome at hr ⊢
  obtain hsame | ⟨-, -, hnone, -⟩ | ⟨r', hrunning, -⟩ | ⟨r', -, hended, hsettled⟩ := h.phase p
  · rw [hsame, hr]
  · rw [hnone] at hr
    cases hr
  · rw [show s.phase p = some .running from hrunning] at hr
    cases hr
  · rw [hended] at hr
    rw [hsettled]
    exact hr

-- ============================================================================
-- What every run keeps
-- ============================================================================

/-- The active probe is not settled, and the cache holds the result of a settled probe. -/
structure Tracked (cache : ℚ) (s : DatabaseReadiness) : Prop where
  active : ∀ p, s.active = some p → s.Unsettled p
  cached : ∀ c, s.cached = some c →
    ∃ time, s.phase c.probe = some (.settled (.returned c.healthy) time) ∧ c.expires = time + cache
  stopped : s.stopped = true → s.cached = none

theorem tracked_new (cache now : ℚ) : Tracked cache (.new now) :=
  ⟨nofun, nofun, fun _ => rfl⟩

theorem settled_stays {r : Outcome} {time : ℚ} (h : Core cache s e s')
    (hsettled : s.phase p = some (.settled r time)) : s'.phase p = some (.settled r time) := by
  obtain hsame | ⟨-, -, hnone, -⟩ | ⟨r', hrunning, -⟩ | ⟨r', -, hended, -⟩ := h.phase p
  · rw [hsame, hsettled]
  · rw [hsettled] at hnone
    cases hnone
  · rw [Running, hsettled] at hrunning
    cases hrunning
  · rw [hsettled] at hended
    cases hended

theorem phase_of_statuses (h : s'.statuses = s.statuses) (q : Nat) : s'.phase q = s.phase q := by
  rw [phase_eq, h, phase_eq]

theorem Tracked.active_core (ht : Tracked cache s) (h : Core cache s e s')
    (hq : s'.active = some q) : s'.Unsettled q := by
  cases h with
  | same h => exact (ht.active q (h.active ▸ hq)).of_phase (h.phase q)
  | launched he hstopped hactive h =>
      obtain rfl : s.probes.length = q := Option.some.inj (h.active.symm.trans hq)
      refine .inl ?_
      rw [Running, h.phase, phase_launch, if_pos rfl]
  | stopped he hstopped hcached hactive hstatuses =>
      obtain hsame | ⟨hnone, -⟩ := hactive
      · exact (ht.active q (hsame ▸ hq)).of_phase (phase_of_statuses hstatuses q)
      · rw [hnone] at hq
        cases hq
  | stopResumed i he h =>
      rw [h.active] at hq
      cases hq
  | resumed he hstopped hidle h => exact (ht.active q (h.active ▸ hq)).of_phase (h.phase q)
  | ended p r he hrunning hstopped hactive hcached hstatuses =>
      have hphase := phase_of_set hstatuses (lt_of_phase hrunning) q
      split at hphase
      · exact .inr ⟨r, hphase⟩
      · exact (ht.active q (hactive ▸ hq)).of_phase hphase
  | finished p r late he hended hstopped hactive hcached hstatuses =>
      have hphase := phase_of_set hstatuses (List.getElem?_eq_some_iff.mp hended).1 q
      rw [hactive] at hq
      split at hq
      · cases hq
      · next hne =>
          have hpq : p ≠ q := by
            rintro rfl
            exact hne hq
          rw [if_neg hpq] at hphase
          exact (ht.active q hq).of_phase hphase

theorem Tracked.cached_core (ht : Tracked cache s) (h : Core cache s e s') {c : Cached}
    (hc : s'.cached = some c) :
    ∃ time, s'.phase c.probe = some (.settled (.returned c.healthy) time) ∧
      c.expires = time + cache := by
  have hkept (hsame : s.cached = some c) : ∃ time,
      s'.phase c.probe = some (.settled (.returned c.healthy) time) ∧ c.expires = time + cache := by
    obtain ⟨time, hphase, hexpires⟩ := ht.cached c hsame
    exact ⟨time, settled_stays h hphase, hexpires⟩
  cases h with
  | same h => exact hkept (h.cached ▸ hc)
  | launched he hstopped hactive h => exact hkept (h.cached ▸ hc)
  | stopped he hstopped hcached hactive hstatuses =>
      rw [hcached] at hc
      cases hc
  | stopResumed i he h => exact hkept (h.cached ▸ hc)
  | resumed he hstopped hidle h =>
      rw [h.cached] at hc
      cases hc
  | ended p r he hrunning hstopped hactive hcached hstatuses => exact hkept (hcached ▸ hc)
  | finished p r late he hended hstopped hactive hcached hstatuses =>
      obtain hsame | ⟨-, healthy, rfl, hnew⟩ := hcached
      · exact hkept (hsame ▸ hc)
      · obtain rfl := Option.some.inj (hnew.symm.trans hc)
        refine ⟨s.now, ?_, rfl⟩
        rw [phase_of_set hstatuses (List.getElem?_eq_some_iff.mp hended).1, if_pos rfl]

theorem Tracked.stopped_core (ht : Tracked cache s) (h : Core cache s e s')
    (hstopped' : s'.stopped = true) : s'.cached = none := by
  cases h with
  | same h => rw [h.cached, ht.stopped (h.stopped ▸ hstopped')]
  | launched he hstopped hactive h => rw [h.cached]; exact ht.stopped (h.stopped ▸ hstopped')
  | stopped he hstopped hcached hactive hstatuses => exact hcached
  | stopResumed i he h => rw [h.cached]; exact ht.stopped (h.stopped ▸ hstopped')
  | resumed he hstopped hidle h => rw [h.cached]; rfl
  | ended p r he hrunning hstopped hactive hcached hstatuses =>
      rw [hcached, ht.stopped (hstopped ▸ hstopped')]
  | finished p r late he hended hstopped hactive hcached hstatuses =>
      obtain hsame | ⟨hfalse, -⟩ := hcached
      · rw [hsame, ht.stopped (hstopped ▸ hstopped')]
      · rw [hstopped, hfalse] at hstopped'
        cases hstopped'

theorem Tracked.core (ht : Tracked cache s) (h : Core cache s e s') : Tracked cache s' :=
  ⟨fun _ => ht.active_core h, fun _ => ht.cached_core h, ht.stopped_core h⟩

-- ============================================================================
-- Runs in which stop and resume leave what they do not own
-- ============================================================================

/-- A call of `stop` that continues behind its await finds the service stopped, or no running
    probe in the slot; `resume` finds no result that is late and on its way into the cache. -/
def Guarded (s : DatabaseReadiness) : Event → Prop
  | .stopResumes _ => s.stopped = true ∨ ∀ p ∈ s.active, ¬ s.Running p
  | .resume => ∀ healthy, (Phase.ended (.returned healthy), true) ∉ s.statuses
  | _ => True

instance decidableRunning (s : DatabaseReadiness) (p : Nat) : Decidable (s.Running p) :=
  inferInstanceAs (Decidable (s.phase p = some .running))

instance decidableGuarded (s : DatabaseReadiness) : ∀ e, Decidable (s.Guarded e)
  | .stopResumes _ =>
      inferInstanceAs (Decidable (s.stopped = true ∨ ∀ p ∈ s.active, ¬ s.Running p))
  | .resume => inferInstanceAs
      (Decidable (∀ healthy, (Phase.ended (.returned healthy), true) ∉ s.statuses))
  | .check => isTrue trivial
  | .stop => isTrue trivial
  | .checkResumes _ => isTrue trivial
  | .checkCancelled _ => isTrue trivial
  | .stopCancelled _ => isTrue trivial
  | .probeEnds _ _ => isTrue trivial
  | .finished _ => isTrue trivial
  | .tick _ => isTrue trivial

/-- At most one probe runs, in the slot while the service is not stopped; and no result that is
    late is in the cache, or on its way into it. -/
structure Kept (s : DatabaseReadiness) : Prop where
  single : ∀ p q, s.Running p → s.Running q → p = q
  held : s.stopped = false → ∀ p, s.Running p → s.active = some p
  early : s.stopped = false → ∀ healthy, (Phase.ended (.returned healthy), true) ∉ s.statuses
  punctual : ∀ c, s.cached = some c → s.statuses[c.probe]?.map Prod.snd = some false

theorem kept_new (now : ℚ) : Kept (.new now) :=
  ⟨nofun, nofun, nofun, nofun⟩

theorem Kept.of_same (hk : Kept s) (h : Same s s') : Kept s' where
  single p q hp hq := hk.single p q ((h.phase p).symm.trans hp) ((h.phase q).symm.trans hq)
  held hstopped p hp := by
    rw [h.active]
    exact hk.held (h.stopped ▸ hstopped) p ((h.phase p).symm.trans hp)
  early hstopped healthy := by
    rw [h.statuses]
    exact hk.early (h.stopped ▸ hstopped) healthy
  punctual c hc := by
    rw [h.statuses]
    exact hk.punctual c (h.cached ▸ hc)

theorem Kept.launch (hk : Kept s) (hstopped : s.stopped = false) (hactive : s.active = none) :
    Kept s.launch := by
  have hidle (p : Nat) : ¬ s.Running p := by
    intro hp
    rw [hk.held hstopped p hp] at hactive
    cases hactive
  have hrunning (p : Nat) (hp : s.launch.Running p) : p = s.probes.length := by
    rw [Running, phase_launch] at hp
    split at hp
    · next hlast => exact hlast
    · exact absurd hp (hidle p)
  have hstatuses : s.launch.statuses = s.statuses ++ [(.running, false)] := List.map_append
  refine ⟨fun p q hp hq => (hrunning p hp).trans (hrunning q hq).symm, ?_, ?_, ?_⟩
  · intro _ p hp
    exact congrArg some (hrunning p hp).symm
  · intro _ healthy hmem
    rw [hstatuses] at hmem
    obtain hmem | hlast := List.mem_append.mp hmem
    · exact hk.early hstopped healthy hmem
    · cases List.mem_singleton.mp hlast
  · intro c hc
    have hold := hk.punctual c hc
    obtain ⟨status, hstatus, -⟩ := Option.map_eq_some_iff.mp hold
    rw [hstatuses, List.getElem?_append_left (List.getElem?_eq_some_iff.mp hstatus).1]
    exact hold

theorem Kept.ended (hk : Kept s) (ht : Tracked cache s) {r : Outcome} (hp : s.Running p)
    (hstopped : s'.stopped = s.stopped) (hactive : s'.active = s.active)
    (hcached : s'.cached = s.cached)
    (hstatuses : s'.statuses = s.statuses.set p (.ended r, s.stopped)) : Kept s' := by
  have hphase := phase_of_set hstatuses (lt_of_phase hp)
  have hrunning (q : Nat) (hq : s'.Running q) : s.Running q := by
    rw [Running, hphase] at hq
    split at hq
    · cases hq
    · exact hq
  refine ⟨fun q q' hq hq' => hk.single q q' (hrunning q hq) (hrunning q' hq'), ?_, ?_, ?_⟩
  · intro hfalse q hq
    rw [hactive]
    exact hk.held (hstopped ▸ hfalse) q (hrunning q hq)
  · intro hfalse healthy hmem
    rw [hstatuses] at hmem
    rw [hstopped] at hfalse
    obtain hmem | hnew := List.mem_or_eq_of_mem_set hmem
    · exact hk.early hfalse healthy hmem
    · rw [hfalse] at hnew
      cases hnew
  · intro c hc
    rw [hcached] at hc
    obtain ⟨time, hsettled, -⟩ := ht.cached c hc
    have hne : p ≠ c.probe := by
      rintro rfl
      rw [Running, hsettled] at hp
      cases hp
    rw [hstatuses, List.getElem?_set_ne hne]
    exact hk.punctual c hc

theorem Kept.finished (hk : Kept s) (ht : Tracked cache s) {r : Outcome} {late : Bool}
    (hended : s.statuses[p]? = some (.ended r, late)) (hstopped : s'.stopped = s.stopped)
    (hactive : s'.active = if s.active = some p then none else s.active)
    (hcached : s'.cached = s.cached ∨ s.stopped = false ∧
      ∃ healthy, r = .returned healthy ∧ s'.cached = some ⟨healthy, s.now + cache, p⟩)
    (hstatuses : s'.statuses = s.statuses.set p (.settled r s.now, late)) : Kept s' := by
  have hlt : p < s.statuses.length := (List.getElem?_eq_some_iff.mp hended).1
  have hphase : s.phase p = some (.ended r) := by rw [phase_eq, hended, Option.map_some]
  have hrunning (q : Nat) (hq : s'.Running q) : s.Running q ∧ q ≠ p := by
    rw [Running, phase_of_set hstatuses hlt] at hq
    split at hq
    · cases hq
    · next hpq => exact ⟨hq, Ne.symm hpq⟩
  refine ⟨fun q q' hq hq' => hk.single q q' (hrunning q hq).1 (hrunning q' hq').1, ?_, ?_, ?_⟩
  · intro hfalse q hq
    have hslot := hk.held (hstopped ▸ hfalse) q (hrunning q hq).1
    rw [hactive, hslot, if_neg fun heq => (hrunning q hq).2 (Option.some.inj heq)]
  · intro hfalse healthy hmem
    rw [hstatuses] at hmem
    obtain hmem | hnew := List.mem_or_eq_of_mem_set hmem
    · exact hk.early (hstopped ▸ hfalse) healthy hmem
    · cases hnew
  · intro c hc
    rw [hstatuses]
    obtain hsame | ⟨hfalse, healthy, rfl, hnew⟩ := hcached
    · rw [hsame] at hc
      obtain ⟨time, hsettled, -⟩ := ht.cached c hc
      have hne : p ≠ c.probe := by
        rintro rfl
        rw [hphase] at hsettled
        cases hsettled
      rw [List.getElem?_set_ne hne]
      exact hk.punctual c hc
    · -- a service that is not stopped stores no result that is late
      obtain rfl := Option.some.inj (hnew.symm.trans hc)
      rw [List.getElem?_set_self hlt]
      cases late with
      | false => rfl
      | true => exact absurd (List.mem_of_getElem? hended) (hk.early hfalse healthy)

/-- A step that is guarded keeps the probes single. -/
theorem Kept.core (hk : Kept s) (ht : Tracked cache s) (hguarded : s.Guarded e)
    (h : Core cache s e s') : Kept s' := by
  cases h with
  | same h => exact hk.of_same h
  | launched he hstopped hactive h => exact (hk.launch hstopped hactive).of_same h
  | stopped he hstopped hcached hactive hstatuses =>
      have hphase := phase_of_statuses hstatuses
      refine ⟨fun p q hp hq => ?_, fun hfalse => ?_, fun hfalse => ?_, fun c hc => ?_⟩
      · exact hk.single p q ((hphase p).symm.trans hp) ((hphase q).symm.trans hq)
      · rw [hstopped] at hfalse
        cases hfalse
      · rw [hstopped] at hfalse
        cases hfalse
      · rw [hcached] at hc
        cases hc
  | stopResumed i he h =>
      subst he
      have hkept : Kept { s with active := none } := by
        refine ⟨hk.single, fun hfalse p hp => ?_, hk.early, hk.punctual⟩
        obtain hstopped | hidle := hguarded
        · rw [show s.stopped = false from hfalse] at hstopped
          cases hstopped
        · exact absurd hp (hidle p (hk.held hfalse p hp))
      exact hkept.of_same h
  | resumed he hstopped hidle h =>
      subst he
      have hkept : Kept s.resume := by
        refine ⟨fun p q hp => absurd hp (hidle p), fun _ p hp => absurd hp (hidle p),
          fun _ => hguarded, fun c hc => ?_⟩
        cases hc
      exact hkept.of_same h
  | ended p r he hrunning hstopped hactive hcached hstatuses =>
      exact hk.ended ht hrunning hstopped hactive hcached hstatuses
  | finished p r late he hended hstopped hactive hcached hstatuses =>
      exact hk.finished ht hended hstopped hactive hcached hstatuses

end DatabaseReadiness

end QuickApi.Readiness
