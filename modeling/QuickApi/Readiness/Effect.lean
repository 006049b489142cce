/-
  QuickApi.Readiness.Effect

  What one step of the readiness service can do, said once (`next_effect`), and
  what it does to the slot, the cache and the probes (`Effect.core`).
-/

import QuickApi.Readiness.Service

namespace QuickApi.Readiness

open QuickApi.Lib

namespace DatabaseReadiness

variable {s s' : DatabaseReadiness} {cache : ℚ} {e : Event} {p q : Nat}

/-- How far the probes are, and which of them ended late. -/
def statuses (s : DatabaseReadiness) : List (Phase × Bool) :=
  s.probes.map fun probe => (probe.phase, probe.late)

def Running (s : DatabaseReadiness) (p : Nat) : Prop := s.phase p = some .running

/-- The callback of the probe has not run yet. -/
def Unsettled (s : DatabaseReadiness) (p : Nat) : Prop :=
  s.Running p ∨ ∃ r, s.phase p = some (.ended r)

/-- No entry of the cache is still valid. -/
def Cold (s : DatabaseReadiness) : Prop := ∀ cached, s.cached = some cached → cached.expires ≤ s.now

/-- What one step does. -/
inductive Effect (cache : ℚ) (s : DatabaseReadiness) : Event → DatabaseReadiness → Prop
  | refused (hstopped : s.stopped = true) :
      Effect cache s .check { s with checks := s.checks ++ [.returned false] }
  | joined (p : Nat) (hstopped : s.stopped = false) (hactive : s.active = some p)
      (hrunning : s.outcome p = none) :
      Effect cache s .check { s with checks := s.checks ++ [.waiting p] }
  | collected (p : Nat) (r : Outcome) (hstopped : s.stopped = false) (hactive : s.active = some p)
      (hdone : s.outcome p = some r) :
      Effect cache s .check { s with checks := s.checks ++ [r.answer] }
  | answered (cached : Cached) (hstopped : s.stopped = false) (hactive : s.active = none)
      (hcached : s.cached = some cached) (hvalid : s.now < cached.expires) :
      Effect cache s .check { s with checks := s.checks ++ [.returned cached.healthy] }
  | launched (hstopped : s.stopped = false) (hactive : s.active = none) (hcold : s.Cold) :
      Effect cache s .check s.launch
  | checkResumed (c p : Nat) (r : Outcome) (time : ℚ) (hc : s.checks[c]? = some (.waiting p))
      (hsettled : s.phase p = some (.settled r time)) :
      Effect cache s (.checkResumes c) { s with checks := s.checks.set c r.answer }
  | checkCancelled (c p : Nat) (hc : s.checks[c]? = some (.waiting p)) :
      Effect cache s (.checkCancelled c) { s with checks := s.checks.set c .cancelled }
  | stoppedIdle (hactive : s.active = none) :
      Effect cache s .stop
        { s with stopped := true, cached := none, stops := s.stops ++ [.returned none] }
  | stoppedDone (p : Nat) (r : Outcome) (hactive : s.active = some p)
      (hdone : s.outcome p = some r) :
      Effect cache s .stop
        { s with
          stopped := true
          cached := none
          active := none
          stops := s.stops ++ [.returned (some p)] }
  | stopping (p : Nat) (hactive : s.active = some p) (hrunning : s.outcome p = none) :
      Effect cache s .stop
        { s with
          stopped := true
          cached := none
          probes := cancel s.probes p
          stops := s.stops ++ [.awaiting p] }
  | stopResumed (i p : Nat) (r : Outcome) (time : ℚ) (hi : s.stops[i]? = some (.awaiting p))
      (hsettled : s.phase p = some (.settled r time)) :
      Effect cache s (.stopResumes i)
        { s with active := none, stops := s.stops.set i (.returned (some p)) }
  | stopCancelled (i p : Nat) (hi : s.stops[i]? = some (.awaiting p)) :
      Effect cache s (.stopCancelled i) { s with probes := cancel s.probes p }
  | resumed (hstopped : s.stopped = true) (hidle : s.anyRunning = false) :
      Effect cache s .resume s.resume
  | probeEnded (p : Nat) (r : Outcome) (probe : Probe) (hp : s.probes[p]? = some probe)
      (hrunning : probe.phase = .running) :
      Effect cache s (.probeEnds p r)
        { s with probes := s.probes.set p { probe with phase := .ended r, late := s.stopped } }
  | finished (p : Nat) (r : Outcome) (probe : Probe) (hp : s.probes[p]? = some probe)
      (hended : probe.phase = .ended r) :
      Effect cache s (.finished p) (s.finished cache p probe r)
  | ticked (d : ℚ) (hd : 0 ≤ d) : Effect cache s (.tick d) { s with now := s.now + d }

theorem check_effect (cache : ℚ) (s : DatabaseReadiness) : Effect cache s .check s.check := by
  unfold check
  split
  · next hstopped => exact .refused hstopped
  · next hstopped =>
      have hstopped : s.stopped = false := Bool.not_eq_true _ ▸ hstopped
      split
      · next p hactive =>
          split
          · next r hdone => exact .collected p r hstopped hactive hdone
          · next hrunning => exact .joined p hstopped hactive hrunning
      · next hactive =>
          split
          · next cached hcached =>
              split
              · next hvalid => exact .answered cached hstopped hactive hcached hvalid
              · next hexpired =>
                  refine .launched hstopped hactive fun cached' hcached' => ?_
                  obtain rfl := Option.some.inj (hcached.symm.trans hcached')
                  exact Rat.not_lt.mp hexpired
          · next hcached =>
              refine .launched hstopped hactive fun cached' hcached' => ?_
              rw [hcached] at hcached'
              cases hcached'

theorem stop_effect (cache : ℚ) (s : DatabaseReadiness) : Effect cache s .stop s.stop := by
  unfold stop
  dsimp only
  split
  · next hactive => exact .stoppedIdle hactive
  · next p hactive =>
      split
      · next r hdone => exact .stoppedDone p r hactive hdone
      · next hrunning => exact .stopping p hactive hrunning

theorem next_effect (h : next cache s e = some s') : Effect cache s e s' := by
  cases e with
  | check =>
      obtain rfl := Option.some.inj h
      exact check_effect cache s
  | stop =>
      obtain rfl := Option.some.inj h
      exact stop_effect cache s
  | resume =>
      obtain ⟨⟨hstopped, hidle⟩, hs⟩ := Option.ite_none_right_eq_some.mp h
      obtain rfl := Option.some.inj hs
      exact .resumed hstopped hidle
  | tick d =>
      obtain ⟨hd, hs⟩ := Option.ite_none_right_eq_some.mp h
      obtain rfl := Option.some.inj hs
      exact .ticked d hd
  | checkResumes c =>
      simp only [next] at h
      split at h
      · next p hc =>
          split at h
          · next r time hsettled =>
              obtain rfl := Option.some.inj h
              exact .checkResumed c p r time hc hsettled
          · cases h
      · cases h
  | checkCancelled c =>
      simp only [next] at h
      split at h
      · next p hc =>
          obtain rfl := Option.some.inj h
          exact .checkCancelled c p hc
      · cases h
  | stopResumes i =>
      simp only [next] at h
      split at h
      · next p hi =>
          split at h
          · next r time hsettled =>
              obtain rfl := Option.some.inj h
              exact .stopResumed i p r time hi hsettled
          · cases h
      · cases h
  | stopCancelled i =>
      simp only [next] at h
      split at h
      · next p hi =>
          obtain rfl := Option.some.inj h
          exact .stopCancelled i p hi
      · cases h
  | probeEnds p r =>
      simp only [next] at h
      split at h
      · next probe hp =>
          obtain ⟨hrunning, hs⟩ := Option.ite_none_right_eq_some.mp h
          obtain rfl := Option.some.inj hs
          exact .probeEnded p r probe hp hrunning
      · cases h
  | finished p =>
      simp only [next] at h
      split at h
      · next probe hp =>
          split at h
          · next r hended =>
              obtain rfl := Option.some.inj h
              exact .finished p r probe hp hended
          · cases h
      · cases h

-- ============================================================================
-- The slot, the cache and the probes
-- ============================================================================

theorem phase_eq (s : DatabaseReadiness) (p : Nat) : s.phase p = s.statuses[p]?.map Prod.fst := by
  rw [phase, statuses, List.getElem?_map, Option.map_map]
  rfl

theorem statuses_cancel (probes : List Probe) (p : Nat) :
    (cancel probes p).map (fun probe => (probe.phase, probe.late)) =
      probes.map fun probe => (probe.phase, probe.late) := by
  refine List.ext_getElem? fun q => ?_
  rw [List.getElem?_map, List.getElem?_map, cancel, List.getElem?_modify]
  cases probes[q]? with
  | none => rfl
  | some probe =>
      by_cases hpq : p = q
      · by_cases hrunning : probe.phase = .running
        · simp [hpq, hrunning]
        · simp [hpq, hrunning]
      · simp [hpq]

theorem not_running_of_outcome {r : Outcome} (h : s.outcome p = some r) : ¬ s.Running p := by
  intro hrunning
  rw [outcome, hrunning] at h
  cases h

theorem anyRunning_eq_false_iff : s.anyRunning = false ↔ ∀ p, ¬ s.Running p := by
  rw [anyRunning, List.any_eq_false]
  constructor
  · intro h p hp
    obtain ⟨probe, hprobe, hphase⟩ := Option.map_eq_some_iff.mp hp
    exact h probe (List.mem_of_getElem? hprobe) (by simpa using hphase)
  · intro h probe hprobe hphase
    obtain ⟨p, hp⟩ := List.mem_iff_getElem?.mp hprobe
    refine h p ?_
    rw [Running, phase, hp]
    exact congrArg some (by simpa using hphase)

/-- From `s` to `s'` only calls, requests to cancel and the time changed. -/
structure Same (s s' : DatabaseReadiness) : Prop where
  stopped : s'.stopped = s.stopped
  active : s'.active = s.active
  cached : s'.cached = s.cached
  statuses : s'.statuses = s.statuses

/-- What one step does to the slot, the cache and the probes. -/
inductive Core (cache : ℚ) (s : DatabaseReadiness) (e : Event) (s' : DatabaseReadiness) : Prop
  | same (h : Same s s')
  | launched (he : e = .check) (hstopped : s.stopped = false) (hactive : s.active = none)
      (h : Same s.launch s')
  | stopped (he : e = .stop) (hstopped : s'.stopped = true) (hcached : s'.cached = none)
      (hactive : s'.active = s.active ∨
        s'.active = none ∧ ∀ p, s.active = some p → ¬ s.Running p)
      (hstatuses : s'.statuses = s.statuses)
  | stopResumed (i : Nat) (he : e = .stopResumes i) (h : Same { s with active := none } s')
  | resumed (he : e = .resume) (hstopped : s.stopped = true) (hidle : ∀ p, ¬ s.Running p)
      (h : Same s.resume s')
  | ended (p : Nat) (r : Outcome) (he : e = .probeEnds p r) (hrunning : s.Running p)
      (hstopped : s'.stopped = s.stopped) (hactive : s'.active = s.active)
      (hcached : s'.cached = s.cached)
      (hstatuses : s'.statuses = s.statuses.set p (.ended r, s.stopped))
  | finished (p : Nat) (r : Outcome) (late : Bool) (he : e = .finished p)
      (hended : s.statuses[p]? = some (.ended r, late))
      (hstopped : s'.stopped = s.stopped)
      (hactive : s'.active = if s.active = some p then none else s.active)
      (hcached : s'.cached = s.cached ∨ s.stopped = false ∧
        ∃ healthy, r = .returned healthy ∧ s'.cached = some ⟨healthy, s.now + cache, p⟩)
      (hstatuses : s'.statuses = s.statuses.set p (.settled r s.now, late))

theorem Effect.core (h : Effect cache s e s') : Core cache s e s' := by
  cases h with
  | refused => exact .same ⟨rfl, rfl, rfl, rfl⟩
  | joined => exact .same ⟨rfl, rfl, rfl, rfl⟩
  | collected => exact .same ⟨rfl, rfl, rfl, rfl⟩
  | answered => exact .same ⟨rfl, rfl, rfl, rfl⟩
  | checkResumed => exact .same ⟨rfl, rfl, rfl, rfl⟩
  | checkCancelled => exact .same ⟨rfl, rfl, rfl, rfl⟩
  | ticked => exact .same ⟨rfl, rfl, rfl, rfl⟩
  | stopCancelled i p hi => exact .same ⟨rfl, rfl, rfl, statuses_cancel s.probes p⟩
  | launched hstopped hactive hcold => exact .launched rfl hstopped hactive ⟨rfl, rfl, rfl, rfl⟩
  | stoppedIdle hactive => exact .stopped rfl rfl rfl (.inl rfl) rfl
  | stoppedDone p r hactive hdone =>
      refine .stopped rfl rfl rfl (.inr ⟨rfl, fun q hq => ?_⟩) rfl
      obtain rfl := Option.some.inj (hactive.symm.trans hq)
      exact not_running_of_outcome hdone
  | stopping p hactive hrunning =>
      exact .stopped rfl rfl rfl (.inl rfl) (statuses_cancel s.probes p)
  | stopResumed i p r time hi hsettled => exact .stopResumed i rfl ⟨rfl, rfl, rfl, rfl⟩
  | resumed hstopped hidle =>
      exact .resumed rfl hstopped (anyRunning_eq_false_iff.mp hidle) ⟨rfl, rfl, rfl, rfl⟩
  | probeEnded p r probe hp hrunning =>
      refine .ended p r rfl ?_ rfl rfl rfl (List.map_set)
      rw [Running, phase, hp, Option.map_some, hrunning]
  | finished p r probe hp hended =>
      refine .finished p r probe.late rfl ?_ rfl rfl ?_ List.map_set
      · rw [statuses, List.getElem?_map, hp, Option.map_some, hended]
      · cases r with
        | cancelled => exact .inl rfl
        | returned healthy =>
            cases hstopped : s.stopped with
            | true => exact .inl (if_pos hstopped)
            | false => exact .inr ⟨rfl, healthy, rfl, if_neg (by rw [hstopped]; decide)⟩

end DatabaseReadiness

end QuickApi.Readiness
