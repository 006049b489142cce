/-
  QuickApi.Readiness.Probes

  What is promised of the readiness probes in every run: one at a time, fresh
  answers, no cancellation by a caller of `check`, nothing while stopped.  All
  but the first and the last hold of every run; those hold exactly in the runs
  that are guarded (`probes_hold_iff`).
-/

import QuickApi.Readiness.SingleFlight

namespace QuickApi.Readiness

open QuickApi.Lib

/-- The task that a call of `stop` has cancelled. -/
def StopCall.task : StopCall → Option Nat
  | .awaiting p => some p
  | .returned found => found

namespace DatabaseReadiness

variable {s s' m : DatabaseReadiness} {cache : ℚ} {e : Event} {p q c : Nat}

-- ============================================================================
-- Answers
-- ============================================================================

/-- A probe that may answer a call of `check` made in `m`: it is not settled, the call starts it,
    or its callback ran less than `cache` seconds before. -/
def Serves (cache : ℚ) (m : DatabaseReadiness) (p : Nat) : Prop :=
  m.Unsettled p ∨ (m.phase p = none ∧ m.check.Running p) ∨
    ∃ r time, m.phase p = some (.settled r time) ∧ m.now < time + cache

/-- What a call of `check` made in `m` may be in `s`. -/
inductive Answers (cache : ℚ) (m s : DatabaseReadiness) : CheckCall → Prop
  | waiting (p : Nat) (hp : Serves cache m p) : Answers cache m s (.waiting p)
  | refused (hstopped : m.stopped = true) : Answers cache m s (.returned false)
  | returned (p : Nat) (healthy : Bool) (hp : Serves cache m p)
      (hr : s.outcome p = some (.returned healthy)) : Answers cache m s (.returned healthy)
  | cancelled : Answers cache m s .cancelled

theorem Answers.answer {r : Outcome} (hp : Serves cache m p) (hr : s.outcome p = some r) :
    Answers cache m s r.answer := by
  cases r with
  | returned healthy => exact .returned p healthy hp hr
  | cancelled => exact .cancelled

/-- What a new call of `check` is. -/
theorem answers_check (ht : Tracked cache m) :
    ∃ call, m.check.checks = m.checks ++ [call] ∧ Answers cache m m.check call := by
  have heffect := check_effect cache m
  generalize hm : m.check = m' at heffect
  cases heffect with
  | refused hstopped => exact ⟨_, rfl, .refused hstopped⟩
  | joined p hstopped hactive hrunning => exact ⟨_, rfl, .waiting p (.inl (ht.active p hactive))⟩
  | collected p r hstopped hactive hdone =>
      exact ⟨_, rfl, .answer (.inl (ht.active p hactive)) hdone⟩
  | answered cached hstopped hactive hcached hvalid =>
      obtain ⟨time, hphase, hexpires⟩ := ht.cached cached hcached
      rw [hexpires] at hvalid
      refine ⟨_, rfl, .returned cached.probe cached.healthy
        (.inr (.inr ⟨_, time, hphase, hvalid⟩)) ?_⟩
      show (m.phase cached.probe).bind Phase.outcome = _
      rw [hphase]
      rfl
  | launched hstopped hactive hcold =>
      refine ⟨_, rfl, .waiting m.probes.length (.inr (.inl ⟨?_, ?_⟩))⟩
      · rw [DatabaseReadiness.phase, List.getElem?_eq_none (Nat.le_refl _)]
        rfl
      · rw [hm, Running, phase_launch, if_pos rfl]

theorem Answers.core {call : CheckCall} (ha : Answers cache m s call) (h : Core cache s e s') :
    Answers cache m s' call := by
  cases ha with
  | waiting p hp => exact .waiting p hp
  | refused hstopped => exact .refused hstopped
  | returned p healthy hp hr => exact .returned p healthy hp (h.outcome hr)
  | cancelled => exact .cancelled

/-- A step changes no call of `check` but by letting it continue behind its await. -/
theorem Effect.checks (h : Effect cache s e s') {call : CheckCall} (hc : s.checks[c]? = some call) :
    s'.checks[c]? = some call ∨
      ∃ p, call = .waiting p ∧ (s'.checks[c]? = some .cancelled ∨
        ∃ r, s'.outcome p = some r ∧ s'.checks[c]? = some r.answer) := by
  have happend (new : CheckCall) (hs' : s'.checks = s.checks ++ [new]) :
      s'.checks[c]? = some call := by
    rw [hs', List.getElem?_append_left (List.getElem?_eq_some_iff.mp hc).1, hc]
  have hset (i : Nat) (hne : i ≠ c) (new : CheckCall) (hs' : s'.checks = s.checks.set i new) :
      s'.checks[c]? = some call := by
    rw [hs', List.getElem?_set_ne hne, hc]
  have hself (new : CheckCall) : (s.checks.set c new)[c]? = some new :=
    List.getElem?_set_self (List.getElem?_eq_some_iff.mp hc).1
  cases h with
  | refused hstopped => exact .inl (happend _ rfl)
  | joined p hstopped hactive hrunning => exact .inl (happend _ rfl)
  | collected p r hstopped hactive hdone => exact .inl (happend _ rfl)
  | answered cached hstopped hactive hcached hvalid => exact .inl (happend _ rfl)
  | launched hstopped hactive hcold => exact .inl (happend _ rfl)
  | checkResumed i p r time hi hsettled =>
      by_cases hic : i = c
      · subst hic
        obtain rfl := Option.some.inj (hi.symm.trans hc)
        refine .inr ⟨p, rfl, .inr ⟨r, ?_, hself _⟩⟩
        show (s.phase p).bind Phase.outcome = _
        rw [hsettled]
        rfl
      · exact .inl (hset i hic _ rfl)
  | checkCancelled i p hi =>
      by_cases hic : i = c
      · subst hic
        obtain rfl := Option.some.inj (hi.symm.trans hc)
        exact .inr ⟨p, rfl, .inl (hself _)⟩
      · exact .inl (hset i hic _ rfl)
  | stoppedIdle hactive => exact .inl hc
  | stoppedDone p r hactive hdone => exact .inl hc
  | stopping p hactive hrunning => exact .inl hc
  | stopResumed i p r time hi hsettled => exact .inl hc
  | stopCancelled i p hi => exact .inl hc
  | resumed hstopped hidle => exact .inl hc
  | probeEnded p r probe hp hrunning => exact .inl hc
  | finished p r probe hp hended => exact .inl hc
  | ticked d hd => exact .inl hc

/-- Behind a call of `check` every run keeps what the call may be. -/
theorem run_answers {es : List Event} (ht : Tracked cache m)
    (hrun : (readinessSystem cache).run m.check es = some s) :
    ∃ call, s.checks[m.checks.length]? = some call ∧ Answers cache m s call := by
  refine System.run_preserves
    (P := fun s => ∃ call, s.checks[m.checks.length]? = some call ∧ Answers cache m s call)
    ?_ ?_ hrun
  · rintro s e s' ⟨call, hc, ha⟩ hnext
    have heffect := next_effect hnext
    obtain hsame | ⟨p, rfl, hcancelled | ⟨r, hr, hanswer⟩⟩ := heffect.checks hc
    · exact ⟨call, hsame, ha.core heffect.core⟩
    · exact ⟨_, hcancelled, .cancelled⟩
    · cases ha with
      | waiting p hp => exact ⟨_, hanswer, .answer hp hr⟩
  · obtain ⟨call, hchecks, ha⟩ := answers_check ht
    refine ⟨call, ?_, ha⟩
    rw [hchecks]
    simp

-- ============================================================================
-- Cancellation, and the time between stop and resume
-- ============================================================================

/-- Every probe that was asked to cancel itself was asked by a call of `stop`. -/
def Requested (s : DatabaseReadiness) : Prop :=
  ∀ p probe, s.probes[p]? = some probe → probe.cancelRequested = true →
    some p ∈ s.stops.map StopCall.task

theorem requested_new (now : ℚ) : Requested (.new now) := by
  intro p probe hp
  simp [new] at hp

theorem requested_cancel (hr : Requested s) (hs' : s'.probes = cancel s.probes p)
    (hmem : some p ∈ s'.stops.map StopCall.task)
    (hstops : ∀ call ∈ s.stops.map StopCall.task, call ∈ s'.stops.map StopCall.task) :
    Requested s' := by
  intro q probe' hq hrequested
  by_cases hpq : p = q
  · exact hpq ▸ hmem
  · simp only [hs', cancel, List.getElem?_modify, if_neg hpq, id_map'] at hq
    exact hstops _ (hr q probe' hq hrequested)

/-- A probe whose new record asks for nothing new. -/
theorem requested_set (hr : Requested s) {probe new : Probe} (hp : s.probes[p]? = some probe)
    (hs' : s'.probes = s.probes.set p new) (hnew : new.cancelRequested = probe.cancelRequested)
    (hstops : s'.stops = s.stops) : Requested s' := by
  intro q probe' hq hrequested
  rw [hstops]
  by_cases hpq : p = q
  · subst hpq
    rw [hs', List.getElem?_set_self (List.getElem?_eq_some_iff.mp hp).1] at hq
    obtain rfl := Option.some.inj hq
    exact hr p probe hp (hnew ▸ hrequested)
  · rw [hs', List.getElem?_set_ne hpq] at hq
    exact hr q probe' hq hrequested

theorem Effect.requested (h : Effect cache s e s') (hr : Requested s) : Requested s' := by
  have happend (call : StopCall) (l : List Probe) (hl : l = s.probes) (hs' : s'.probes = l)
      (hstops : s'.stops = s.stops ++ [call]) : Requested s' := by
    intro q probe hq hrequested
    rw [hstops, List.map_append]
    exact List.mem_append_left _ (hr q probe (hl ▸ hs' ▸ hq) hrequested)
  cases h with
  | refused hstopped => exact hr
  | joined p hstopped hactive hrunning => exact hr
  | collected p r hstopped hactive hdone => exact hr
  | answered cached hstopped hactive hcached hvalid => exact hr
  | launched hstopped hactive hcold =>
      intro q probe hq hrequested
      change (s.probes ++ [⟨.running, false, false⟩])[q]? = some probe at hq
      rw [List.getElem?_append] at hq
      split at hq
      · exact hr q probe hq hrequested
      · rw [List.mem_singleton.mp (List.mem_of_getElem? hq)] at hrequested
        cases hrequested
  | checkResumed i p r time hi hsettled => exact hr
  | checkCancelled i p hi => exact hr
  | stoppedIdle hactive => exact happend _ _ rfl rfl rfl
  | stoppedDone p r hactive hdone => exact happend _ _ rfl rfl rfl
  | stopping p hactive hrunning =>
      refine requested_cancel hr rfl ?_ ?_
      · simp [StopCall.task]
      · intro call hcall
        rw [List.map_append]
        exact List.mem_append_left _ hcall
  | stopResumed i p r time hi hsettled =>
      have htask : (s.stops.map StopCall.task)[i]? = some (some p) := by
        rw [List.getElem?_map, hi]
        rfl
      obtain ⟨hlt, hget⟩ := List.getElem?_eq_some_iff.mp htask
      have hstops : (s.stops.set i (.returned (some p))).map StopCall.task =
          s.stops.map StopCall.task := by
        rw [List.map_set]
        exact hget ▸ List.set_getElem_self hlt
      intro q probe hq hrequested
      rw [hstops]
      exact hr q probe hq hrequested
  | stopCancelled i p hi =>
      exact requested_cancel hr rfl (List.mem_map_of_mem (List.mem_of_getElem? hi)) fun _ => id
  | resumed hstopped hidle => exact hr
  | probeEnded p r probe hp hrunning => exact requested_set hr hp rfl rfl rfl
  | finished p r probe hp hended => exact requested_set hr hp rfl rfl rfl
  | ticked d hd => exact hr

theorem stopped_stop (s : DatabaseReadiness) : s.stop.stopped = true := by
  unfold stop
  dsimp only
  split
  · rfl
  · split
    · rfl
    · rfl

/-- While it is not resumed the service stays stopped. -/
theorem run_stopped {es : List Event} (hstopped : s.stopped = true) (hes : .resume ∉ es)
    (hrun : (readinessSystem cache).run s es = some s') : s'.stopped = true := by
  induction es generalizing s with
  | nil =>
      obtain rfl := Option.some.inj hrun
      exact hstopped
  | cons e es ih =>
      obtain ⟨m, hnext, hrest⟩ := System.run_cons_eq_some_iff.mp hrun
      rw [List.mem_cons, not_or] at hes
      refine ih ?_ hes.2 hrest
      cases (next_effect hnext).core with
      | same h => rw [h.stopped, hstopped]
      | launched he hfalse hactive h =>
          rw [hstopped] at hfalse
          cases hfalse
      | stopped he htrue hcached hactive hstatuses => exact htrue
      | stopResumed i he h => exact h.stopped.trans hstopped
      | resumed he htrue hidle h => exact absurd he.symm hes.1
      | ended p r he hrunning hsame hactive hcached hstatuses => rw [hsame, hstopped]
      | finished p r late he hended hsame hactive hcached hstatuses => rw [hsame, hstopped]

-- ============================================================================
-- Probes
-- ============================================================================

/-- What is promised of the service in the state `s` that the events `es` lead to. -/
structure ProbesHold (cache now : ℚ) (es : List Event) (s : DatabaseReadiness) : Prop where
  /-- at most one probe runs -/
  single : ∀ p q, s.Running p → s.Running q → p = q
  /-- a call of `check` returns `False` while stopped, and else what a probe returned that was
      not settled when it was called, or was started by it, or was settled less than `cache`
      seconds before -/
  fresh : ∀ before after m, es = before ++ .check :: after →
    (readinessSystem cache).run (.new now) before = some m →
    ∀ healthy, s.checks[m.checks.length]? = some (.returned healthy) →
      (m.stopped = true ∧ healthy = false) ∨
        ∃ p, Serves cache m p ∧ s.outcome p = some (.returned healthy)
  /-- to cancel a call of `check` changes no probe; those that were asked to cancel themselves
      were asked by `stop` -/
  shared : ∀ c m, next cache s (.checkCancelled c) = some m →
    m.probes = s.probes ∧ m.active = s.active
  requested : Requested s
  /-- from `stop` to the next `resume` a call of `check` returns `False` and starts nothing -/
  refused : ∀ before after, es = before ++ .stop :: after → .resume ∉ after →
    next cache s .check = some { s with checks := s.checks ++ [.returned false] }
  /-- a probe that ended after `stop` does not fill the cache -/
  punctual : ∀ c, s.cached = some c → s.statuses[c.probe]?.map Prod.snd = some false

theorem tracked_of_run {now : ℚ} {es : List Event}
    (hrun : (readinessSystem cache).run (.new now) es = some s) : Tracked cache s :=
  System.run_preserves (P := Tracked cache)
    (fun _ _ _ ht hnext => ht.core (next_effect hnext).core) (tracked_new cache now) hrun

/-- What holds of every run, guarded or not. -/
theorem probesHold_of_run {now : ℚ} {es : List Event}
    (hrun : (readinessSystem cache).run (.new now) es = some s)
    (hsingle : ∀ p q, s.Running p → s.Running q → p = q)
    (hpunctual : ∀ c, s.cached = some c → s.statuses[c.probe]?.map Prod.snd = some false) :
    s.ProbesHold cache now es where
  single := hsingle
  punctual := hpunctual
  requested := System.run_preserves (P := Requested)
    (fun _ _ _ hr hnext => (next_effect hnext).requested hr) (requested_new now) hrun
  shared c m hnext := by
    cases next_effect hnext with
    | checkCancelled i p hi => exact ⟨rfl, rfl⟩
  fresh before after m hes hbefore healthy hhealthy := by
    subst hes
    obtain ⟨m', hm', hrest⟩ := System.run_append.mp hrun
    obtain rfl := Option.some.inj (hbefore.symm.trans hm')
    obtain ⟨m', hcheck, hafter⟩ := System.run_cons_eq_some_iff.mp hrest
    obtain rfl := Option.some.inj hcheck
    have ht := tracked_of_run hbefore
    obtain ⟨call, hcall, hanswers⟩ := run_answers ht hafter
    obtain rfl := Option.some.inj (hcall.symm.trans hhealthy)
    cases hanswers with
    | refused hstopped => exact .inl ⟨hstopped, rfl⟩
    | returned p healthy hp hr => exact .inr ⟨p, hp, hr⟩
  refused before after hes hafter := by
    subst hes
    obtain ⟨m, -, hrest⟩ := System.run_append.mp hrun
    obtain ⟨m', hstop, hrest⟩ := System.run_cons_eq_some_iff.mp hrest
    obtain rfl := Option.some.inj hstop
    exact congrArg some (if_pos (run_stopped m.stopped_stop hafter hrest))

/-- One more check, after some time, or one more callback. -/
inductive Probing : List Event → Prop
  | nothing : Probing []
  | check (d : ℚ) : Probing [.tick d, .check]
  | finished (p : Nat) : Probing [.finished p]

theorem check_of_cold (hstopped : s.stopped = false) (hactive : s.active = none) (hcold : s.Cold) :
    s.check = s.launch := by
  unfold check
  rw [if_neg (by rw [hstopped]; decide), hactive]
  dsimp only
  split
  · next cached hcached => exact if_neg (Rat.not_lt.mpr (hcold cached hcached))
  · rfl

/-- A probe that runs outside the slot of a service that is not stopped is joined by another. -/
theorem two_running (cache : ℚ) (hstopped : s.stopped = false) (hactive : s.active = none)
    (hp : s.Running p) : ∃ d t, (readinessSystem cache).run s [.tick d, .check] = some t ∧
      ∃ q, t.Running p ∧ t.Running q ∧ p ≠ q := by
  obtain ⟨d, hd, hcold⟩ : ∃ d : ℚ, 0 ≤ d ∧ Cold { s with now := s.now + d } := by
    cases hcached : s.cached with
    | none => exact ⟨0, le_refl 0, fun c hc => nomatch hc⟩
    | some cached =>
        refine ⟨max 0 (cached.expires - s.now), le_max_left _ _, fun c hc => ?_⟩
        obtain rfl := Option.some.inj hc
        exact sub_le_iff_le_add'.mp (le_max_right 0 (cached.expires - s.now))
  have hcheck := check_of_cold (s := { s with now := s.now + d }) hstopped hactive hcold
  have hlt : p < s.probes.length := by
    have hlength := lt_of_phase hp
    rwa [statuses, List.length_map] at hlength
  refine ⟨d, launch { s with now := s.now + d }, ?_, s.probes.length, ?_, ?_, Nat.ne_of_lt hlt⟩
  · refine System.run_cons_eq_some_iff.mpr ⟨_, if_pos hd, ?_⟩
    refine System.run_cons_eq_some_iff.mpr ⟨_, congrArg some hcheck, rfl⟩
  · rw [Running, phase_launch, if_neg (Nat.ne_of_lt hlt)]
    exact hp
  · rw [Running, phase_launch]
    exact if_pos rfl

theorem Probing.guarded {f : List Event} (hf : Probing f) (s : DatabaseReadiness) :
    (readinessSystem cache).Along Guarded s f := by
  cases hf with
  | nothing => trivial
  | check d => exact ⟨trivial, fun _ _ => ⟨trivial, fun _ _ => trivial⟩⟩
  | finished p => exact ⟨trivial, fun _ _ => trivial⟩

/-- A step that is not guarded breaks what is promised, at the next check or callback. -/
theorem breaks_of_not_guarded (hnext : next cache s e = some m) (hnot : ¬ s.Guarded e) :
    ∃ f, Probing f ∧ ∃ t, (readinessSystem cache).run m f = some t ∧
      ¬ ((∀ p q, t.Running p → t.Running q → p = q) ∧
        ∀ c, t.cached = some c → t.statuses[c.probe]?.map Prod.snd = some false) := by
  cases next_effect hnext with
  | stopResumed i p r time hi hsettled =>
      rw [Guarded, not_or, Bool.not_eq_true] at hnot
      obtain ⟨hstopped, hrunning⟩ := hnot
      push Not at hrunning
      obtain ⟨q, hq, hq'⟩ := hrunning
      obtain ⟨d, t, ht, q', hrunning, hrunning', hne⟩ := two_running cache
        (s := { s with active := none, stops := s.stops.set i (.returned (some p)) })
        hstopped rfl (p := q) hq'
      exact ⟨_, .check d, t, ht, fun h => hne (h.1 q q' hrunning hrunning')⟩
  | resumed hstopped hidle =>
      rw [Guarded] at hnot
      push Not at hnot
      obtain ⟨healthy, hmem⟩ := hnot
      obtain ⟨probe, hprobe, hstatus⟩ := List.mem_map.mp hmem
      obtain ⟨p, hp⟩ := List.mem_iff_getElem?.mp hprobe
      obtain ⟨hphase, hlate⟩ := Prod.mk.inj hstatus
      refine ⟨_, .finished p, s.resume.finished cache p probe (.returned healthy), ?_, fun h => ?_⟩
      · refine System.run_cons_eq_some_iff.mpr ⟨_, ?_, rfl⟩
        show next cache s.resume (.finished p) = _
        have hp' : s.resume.probes[p]? = some probe := hp
        simp only [next, hp', hphase]
      · have hpunctual := h.2 ⟨healthy, s.now + cache, p⟩ rfl
        have hlt := (List.getElem?_eq_some_iff.mp hp).1
        have hstatuses : (s.resume.finished cache p probe (.returned healthy)).statuses[p]? =
            some (.settled (.returned healthy) s.now, true) := by
          show ((s.probes.set p _).map _)[p]? = _
          rw [List.getElem?_map, List.getElem?_set_self hlt, Option.map_some, hlate]
          rfl
        rw [hstatuses] at hpunctual
        cases hpunctual
  | _ => exact absurd trivial hnot

theorem guarded_of_keeps {es : List Event} (ht : Tracked cache s) (hk : Kept s)
    (hrun : (readinessSystem cache).run s es = some s')
    (hkeeps : ∀ before f t, before <+: es → Probing f →
      (readinessSystem cache).run s (before ++ f) = some t →
      (∀ p q, t.Running p → t.Running q → p = q) ∧
        ∀ c, t.cached = some c → t.statuses[c.probe]?.map Prod.snd = some false) :
    (readinessSystem cache).Along Guarded s es := by
  induction es generalizing s with
  | nil => trivial
  | cons e es ih =>
      obtain ⟨m, hnext, hrest⟩ := System.run_cons_eq_some_iff.mp hrun
      have hguarded : s.Guarded e := by
        by_contra hnot
        obtain ⟨f, hf, t, ht, hbreaks⟩ := breaks_of_not_guarded hnext hnot
        refine hbreaks (hkeeps [e] f t (List.prefix_append [e] es) hf ?_)
        exact System.run_cons_eq_some_iff.mpr ⟨m, hnext, ht⟩
      have hcore := (next_effect hnext).core
      refine System.Along.cons hguarded hnext ?_
      refine ih (ht.core hcore) (hk.core ht hguarded hcore) hrest fun before f t hbefore hf hrunf => ?_
      refine hkeeps (e :: before) f t ((List.prefix_cons_inj e).mpr hbefore) hf ?_
      exact System.run_cons_eq_some_iff.mpr ⟨m, hnext, hrunf⟩

/-- What is promised holds in every state of a run, also behind one more check or callback at any
    point of it, exactly if every step of the run is guarded. -/
theorem probes_hold_iff {now : ℚ} {es : List Event}
    (hrun : (readinessSystem cache).run (.new now) es = some s) :
    (∀ before f t, before <+: es → Probing f →
      (readinessSystem cache).run (.new now) (before ++ f) = some t →
      t.ProbesHold cache now (before ++ f)) ↔
      (readinessSystem cache).Along Guarded (.new now) es := by
  constructor
  · intro hkeeps
    refine guarded_of_keeps (tracked_new cache now) (kept_new now) hrun ?_
    intro before f t hbefore hf hrunf
    have hholds := hkeeps before f t hbefore hf hrunf
    exact ⟨hholds.single, hholds.punctual⟩
  · intro hguarded before f t hbefore hf hrunf
    have hbefore' : (readinessSystem cache).Along Guarded (.new now) before := by
      obtain ⟨after, rfl⟩ := hbefore
      exact (System.along_append.mp hguarded).1
    have hall := System.along_append.mpr ⟨hbefore', fun m _ => hf.guarded m⟩
    obtain ⟨-, hkept⟩ := System.run_preserves_along (P := fun s => Tracked cache s ∧ Kept s)
      (fun s e s' h hC hnext => ⟨h.1.core (next_effect hnext).core,
        h.2.core h.1 hC (next_effect hnext).core⟩)
      ⟨tracked_new cache now, kept_new now⟩ hall hrunf
    exact probesHold_of_run hrunf hkept.single hkept.punctual

/-- Two calls share a probe, one of them is cancelled; the service is stopped and resumed, and
    probes anew. -/
theorem probes_hold_shared :
    ∃ s, (readinessSystem 1).run (.new 0)
        [.resume, .check, .check, .checkCancelled 0, .probeEnds 0 (.returned true), .finished 0,
          .checkResumes 1, .tick 1, .check, .stop, .probeEnds 1 .cancelled, .finished 1,
          .stopResumes 0, .resume, .check] = some s ∧
      s.probes.length = 3 ∧ s.checks[1]? = some (.returned true) ∧
      s.ProbesHold 1 0
        [.resume, .check, .check, .checkCancelled 0, .probeEnds 0 (.returned true), .finished 0,
          .checkResumes 1, .tick 1, .check, .stop, .probeEnds 1 .cancelled, .finished 1,
          .stopResumes 0, .resume, .check] := by
  have hrun : ((readinessSystem 1).run (.new 0)
      [.resume, .check, .check, .checkCancelled 0, .probeEnds 0 (.returned true), .finished 0,
        .checkResumes 1, .tick 1, .check, .stop, .probeEnds 1 .cancelled, .finished 1,
        .stopResumes 0, .resume, .check]).map (fun s => (s.probes.length, s.checks[1]?)) =
      some (3, some (.returned true)) := by
    decide +kernel
  have hguarded : (readinessSystem 1).Along Guarded (.new 0)
      [.resume, .check, .check, .checkCancelled 0, .probeEnds 0 (.returned true), .finished 0,
        .checkResumes 1, .tick 1, .check, .stop, .probeEnds 1 .cancelled, .finished 1,
        .stopResumes 0, .resume, .check] := by
    decide +kernel
  obtain ⟨s, hs, hfacts⟩ := Option.map_eq_some_iff.mp hrun
  obtain ⟨hprobes, hchecks⟩ := Prod.mk.inj hfacts
  refine ⟨s, hs, hprobes, hchecks, ?_⟩
  exact (probes_hold_iff hs).mpr hguarded _ [] s (List.prefix_refl _) .nothing (by simpa using hs)

/-- Two calls of `stop` wait for one probe; the first returns, the service is resumed and checked,
    and then the second forgets the new probe: the next call of `check` starts another beside
    it. -/
theorem probe_forgotten_by_late_stop :
    ¬ ∀ cache now es s, (readinessSystem cache).run (.new now) es = some s →
      s.ProbesHold cache now es := by
  intro hall
  have hrun : ((readinessSystem 1).run (.new 0)
      [.resume, .check, .stop, .stop, .probeEnds 0 .cancelled, .finished 0, .stopResumes 0,
        .resume, .check, .stopResumes 1, .check]).map (fun s => (s.phase 1, s.phase 2)) =
      some (some .running, some .running) := by
    decide +kernel
  obtain ⟨s, hs, hphases⟩ := Option.map_eq_some_iff.mp hrun
  obtain ⟨hone, htwo⟩ := Prod.mk.inj hphases
  exact absurd ((hall _ _ _ s hs).single 1 2 hone htwo) (by decide)

end DatabaseReadiness

end QuickApi.Readiness
