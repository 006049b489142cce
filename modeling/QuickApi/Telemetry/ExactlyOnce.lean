/-
  QuickApi.Telemetry.ExactlyOnce

  Every run of a request keeps the account of its history, so its outcome is
  reported once, whatever the order in which observers subscribe and messages,
  failures, cancellation and the end of the application arrive.
-/

import QuickApi.Telemetry.Account

namespace QuickApi.Telemetry

open QuickApi.Lib
open QuickApi.RequestTimeout (Message)

namespace Request

variable {σ : Type} {routeMatches : BaseRoute → σ → Match × σ} {r m : Request σ}

-- ============================================================================
-- What an event does
-- ============================================================================

/-- The ways in which an event reaches the observation. -/
inductive Effect (routeMatches : BaseRoute → σ → Match × σ) (r : Request σ) :
    Event → Request σ → Prop
  | pass {e : Event} {m : Request σ} (hobs : m.observation = r.observation)
      (hpath : m.path = r.path) (hhistory : m.history = r.history) (hcalls : m.calls = r.calls)
      (hsettlements : m.settlements = r.settlements) (hmetrics : m.metrics = r.metrics)
      (hsettles : e.settles = false) (hstatus : e.status? = none) (hkey : e.key? r.path = none) :
      Effect routeMatches r e m
  | enter : Effect routeMatches r .enter r.enter
  | start (status : Nat) (hsome : r.observation.isSome) :
      Effect routeMatches r (.accepted (.start status)) (r.accepted routeMatches (.start status))
  | settle {e : Event} {outcome : Outcome} (hsettles : e.settles = true)
      (hkey : e.key? r.path = none) (houtcome : outcome = .completed ↔ e.completes = true) :
      Effect routeMatches r e (r.settle routeMatches outcome)
  | observe {e : Event} {key : String} {callback : Callback} (hsettles : e.settles = false)
      (hstatus : e.status? = none) (hkey : e.key? r.path = some key)
      (hown : ∀ history : List Event, OwnKey (history ++ [e]) key callback) :
      Effect routeMatches r e (r.observe key callback)

theorem effect_accepted (hsome : r.observation.isSome) (message : Message) :
    Effect routeMatches r (.accepted message) (r.accepted routeMatches message) := by
  cases message with
  | start status => exact .start status hsome
  | body data moreBody =>
      cases moreBody with
      | true => exact .pass rfl rfl rfl rfl rfl rfl rfl rfl rfl
      | false => exact .settle rfl rfl (by simp [Event.completes, Message.isFinal])

/-- `await send(message)` or `await receive()` raises. -/
theorem effect_failed {failure : Failure} {e : Event}
    (he : e = .sendFailed failure ∨ e = .receiveFailed failure) :
    Effect routeMatches r e (r.failed routeMatches failure) := by
  cases failure with
  | osError => obtain rfl | rfl := he <;> exact .settle rfl rfl (by simp [Event.completes])
  | timeoutError =>
      obtain rfl | rfl := he <;> exact .pass rfl rfl rfl rfl rfl rfl rfl rfl rfl
  | other => obtain rfl | rfl := he <;> exact .pass rfl rfl rfl rfl rfl rfl rfl rfl rfl

theorem effect_of_handle {e : Event} (h : r.handle routeMatches e = some m) :
    Effect routeMatches r e m := by
  cases e <;> simp only [handle, Option.ite_none_right_eq_some, Option.some.injEq] at h
  case tick t =>
    obtain ⟨_, rfl⟩ := h
    exact .pass rfl rfl rfl rfl rfl rfl rfl rfl rfl
  case enter =>
    subst h
    exact .enter
  case observe key callback =>
    subst h
    refine .observe rfl rfl rfl fun history => ⟨fun hc => absurd hc (by simp), fun hk hall => ?_⟩
    exact absurd (by rw [hk]; simp) (hall callback)
  case prometheus =>
    subst h
    split
    · next hpath => exact .pass rfl rfl rfl rfl rfl rfl rfl rfl (by simp [Event.key?, hpath])
    · next hpath =>
        exact .observe rfl rfl (by simp [Event.key?, hpath]) fun history =>
          ⟨fun _ => rfl, fun _ _ => rfl⟩
  case routed terminal =>
    subst h
    exact .pass rfl rfl rfl rfl rfl rfl rfl rfl rfl
  case accepted message =>
    obtain ⟨hsome, rfl⟩ := h
    exact effect_accepted hsome message
  case sendFailed failure =>
    obtain ⟨_, rfl⟩ := h
    exact effect_failed (.inl rfl)
  case received =>
    subst h
    exact .pass rfl rfl rfl rfl rfl rfl rfl rfl rfl
  case disconnected =>
    obtain ⟨_, rfl⟩ := h
    exact .settle rfl rfl (by simp [Event.completes])
  case receiveFailed failure =>
    obtain ⟨_, rfl⟩ := h
    exact effect_failed (.inr rfl)
  case abort =>
    subst h
    exact .settle rfl rfl (by simp [Event.completes])
  case leave ending =>
    obtain ⟨_, rfl⟩ := h
    exact .settle rfl rfl (by simp [Event.completes])

-- ============================================================================
-- One step keeps the account
-- ============================================================================

theorem recorded_of_observed {o : RequestObservation Callback} (h : r.observation = some o)
    (e : Event) : r.recorded e = { r with history := r.history ++ [e] } := by
  simp [recorded, h]

theorem recorded_of_unobserved (h : r.observation = none) (e : Event) : r.recorded e = r := by
  simp [recorded, h]

/-- A request that has an observation with an account. -/
theorem Told.of_observed {o : RequestObservation Callback} (hobs : r.observation = some o)
    (h : Observed r o) : Told r := by
  refine ⟨fun hnone => ?_, fun o' ho' => ?_⟩
  · rw [hobs] at hnone
    cases hnone
  · obtain rfl := Option.some.inj (hobs.symm.trans ho')
    exact h

/-- A new observation has nothing to tell. -/
theorem Observed.new (h : Told r) (hnone : r.observation = none) {now : ℚ} :
    Observed { r with observation := some (.new now) } (.new now) := by
  obtain ⟨hhistory, hcalls, hsettlements, hmetrics⟩ := h.unobserved hnone
  refine ⟨?_, ?_, fun _ => ⟨?_, ?_, hcalls, hsettlements, ?_, ?_⟩, ?_⟩
  · simp [keys, hhistory, RequestObservation.new]
  · simp [hcalls, hmetrics, metricsOf]
  · simp [hhistory]
  · simp [hhistory, RequestObservation.new, acceptedStatus]
  · simp [RequestObservation.new, OrderedDict.keys, OrderedDict.empty]
  · simp [RequestObservation.new, OrderedDict.empty]
  · simp [RequestObservation.new]

/-- An event that leaves the observation alone. -/
theorem Told.pass (h : Told r) {e : Event} (hobs : m.observation = r.observation)
    (hpath : m.path = r.path) (hhistory : m.history = r.history) (hcalls : m.calls = r.calls)
    (hsettlements : m.settlements = r.settlements) (hmetrics : m.metrics = r.metrics)
    (hsettles : e.settles = false) (hstatus : e.status? = none) (hkey : e.key? r.path = none) :
    Told (m.recorded e) := by
  cases ho : r.observation with
  | none =>
      rw [ho] at hobs
      obtain ⟨h1, h2, h3, h4⟩ := h.unobserved ho
      rw [recorded_of_unobserved hobs]
      refine ⟨fun _ => ⟨hhistory.trans h1, hcalls.trans h2, hsettlements.trans h3,
        hmetrics.trans h4⟩, fun o' ho' => ?_⟩
      rw [hobs] at ho'
      cases ho'
  | some o =>
      rw [ho] at hobs
      rw [recorded_of_observed hobs]
      refine .of_observed hobs ((h.observed o ho).pass hpath ?_ hcalls hsettlements hmetrics
        rfl rfl rfl (fun _ => ⟨hsettles, ?_⟩) fun k hk => ?_)
      · rw [hhistory]
      · rw [hstatus]
        rfl
      · rw [hkey] at hk
        cases hk

theorem Told.enter (h : Told r) : Told (r.enter.recorded .enter) := by
  cases ho : r.observation with
  | none =>
      have henter : r.enter = { r with observation := some (.new r.now) } := by
        simp [Request.enter, ho]
      rw [henter, recorded_of_observed rfl]
      exact .of_observed rfl ((Observed.new h ho).pass rfl rfl rfl rfl rfl rfl rfl rfl
        (fun _ => ⟨rfl, rfl⟩) fun k hk => by cases hk)
  | some o =>
      have henter : r.enter = r := by simp [Request.enter, ho]
      rw [henter]
      exact h.pass rfl rfl rfl rfl rfl rfl rfl rfl rfl

theorem Told.settle (h : Told r) {e : Event} (hsettles : e.settles = true)
    (hkey : e.key? r.path = none) {outcome : Outcome}
    (houtcome : outcome = .completed ↔ e.completes = true) :
    Told ((r.settle routeMatches outcome).recorded e) := by
  cases ho : r.observation with
  | none =>
      have hsettle : r.settle routeMatches outcome = r := by simp [Request.settle, ho]
      rw [hsettle, recorded_of_unobserved ho]
      exact h
  | some o =>
      have hsome : (r.settle routeMatches outcome).observation =
          some (o.settle r.method
            (routeTemplate routeMatches r.terminal r.incoming "" none r.routes) r.now
            outcome).1 := by
        simp [Request.settle, ho, withObservation]
      rw [recorded_of_observed hsome]
      refine .of_observed hsome ?_
      cases hresult : o.result with
      | none =>
          refine (h.observed o ho).first_settled hresult hsettles hkey houtcome _ _ _ ?_ ?_ ?_ ?_ ?_
          all_goals simp [Request.settle, ho, withObservation, hresult]
      | some out =>
          have hkeep : ∀ route, o.settle r.method route r.now outcome = (o, []) := by
            intro route
            simp [RequestObservation.settle, hresult]
          refine (h.observed o ho).pass (e := e) ?_ ?_ ?_ ?_ ?_ ?_ ?_ ?_ ?_ ?_
          all_goals simp [Request.settle, ho, withObservation, hresult, hkeep, hkey]

theorem Told.observe (h : Told r) {key : String} {callback : Callback} {e : Event}
    (hsettles : e.settles = false) (hstatus : e.status? = none)
    (hkey : e.key? r.path = some key)
    (hown : ∀ history : List Event, OwnKey (history ++ [e]) key callback) :
    Told ((r.observe key callback).recorded e) := by
  have hentered : ∃ o, r.enter.observation = some o ∧ Observed r.enter o ∧
      r.enter.path = r.path := by
    cases ho : r.observation with
    | none =>
        have henter : r.enter = { r with observation := some (.new r.now) } := by
          simp [Request.enter, ho]
        rw [henter]
        exact ⟨_, rfl, Observed.new h ho, rfl⟩
    | some o =>
        have henter : r.enter = r := by simp [Request.enter, ho]
        rw [henter]
        exact ⟨o, ho, h.observed o ho, rfl⟩
  obtain ⟨o, ho, hobserved, hpath⟩ := hentered
  have hobserve : r.observe key callback =
      r.enter.withObservation (o.subscribe key callback) := by
    simp [Request.observe, ho]
  rw [hobserve, recorded_of_observed rfl]
  refine .of_observed rfl (hobserved.subscribe hsettles hstatus ?_ (hown _) rfl rfl rfl rfl rfl)
  rw [hpath]
  exact hkey

theorem Told.start (h : Told r) (hsome : r.observation.isSome) (status : Nat) :
    Told ((r.accepted routeMatches (.start status)).recorded (.accepted (.start status))) := by
  obtain ⟨o, ho⟩ := Option.isSome_iff_exists.mp hsome
  have hobs : (r.accepted routeMatches (.start status)).observation =
      some { o with status := some status } := by
    simp [Request.accepted, ho]
  rw [recorded_of_observed hobs]
  exact .of_observed hobs ((h.observed o ho).pass rfl rfl rfl rfl rfl rfl rfl rfl
    (fun _ => ⟨rfl, rfl⟩) fun k hk => by cases hk)

theorem told_arrived {method path : String} {incoming : σ} {routes : List BaseRoute} {now : ℚ} :
    Told (arrived method path incoming routes now) :=
  ⟨fun _ => ⟨rfl, rfl, rfl, rfl⟩, fun o ho => by cases ho⟩

theorem Told.next (h : Told r) {e : Event} {r' : Request σ}
    (hnext : r.next routeMatches e = some r') : Told r' := by
  obtain ⟨m, hhandle, rfl⟩ := Option.map_eq_some_iff.mp hnext
  cases effect_of_handle hhandle with
  | pass hobs hpath hhistory hcalls hsettlements hmetrics hsettles hstatus hkey =>
      exact h.pass hobs hpath hhistory hcalls hsettlements hmetrics hsettles hstatus hkey
  | enter => exact h.enter
  | start status hsome => exact h.start hsome status
  | settle hsettles hkey houtcome => exact h.settle hsettles hkey houtcome
  | observe hsettles hstatus hkey hown => exact h.observe hsettles hstatus hkey hown

theorem told_invariant : (requestSystem routeMatches).Invariant Told where
  init := by
    rintro r ⟨method, path, incoming, routes, now, rfl⟩
    exact told_arrived
  step _ _ _ h hnext := h.next hnext

-- ============================================================================
-- Settlements and metrics of a run
-- ============================================================================

theorem enter_settlements (r : Request σ) : r.enter.settlements = r.settlements := by
  unfold enter
  split <;> rfl

theorem observe_settlements (r : Request σ) (key : String) (callback : Callback) :
    (r.observe key callback).settlements = r.settlements := by
  rw [← r.enter_settlements]
  cases ho : r.enter.observation with
  | none => simp [observe, ho]
  | some o => simp [observe, ho, withObservation]

theorem settle_settlements (r : Request σ) (outcome : Outcome) :
    r.settlements <+: (r.settle routeMatches outcome).settlements := by
  unfold settle
  split
  · exact List.prefix_rfl
  · split
    · exact List.prefix_append _ _
    · exact List.prefix_rfl

theorem recorded_settlements (r : Request σ) (e : Event) :
    (r.recorded e).settlements = r.settlements := by
  unfold recorded
  split <;> rfl

/-- A settlement is never taken back. -/
theorem settlements_prefix_next {e : Event} {r' : Request σ}
    (hnext : r.next routeMatches e = some r') : r.settlements <+: r'.settlements := by
  obtain ⟨m, hhandle, rfl⟩ := Option.map_eq_some_iff.mp hnext
  rw [recorded_settlements]
  cases effect_of_handle hhandle with
  | pass _ _ _ _ hsettlements _ _ _ _ =>
      exact hsettlements ▸ List.prefix_rfl
  | enter =>
      exact enter_settlements r ▸ List.prefix_rfl
  | start status _ => exact List.prefix_rfl
  | settle _ _ _ => exact r.settle_settlements _
  | observe _ _ _ _ =>
      exact observe_settlements r .. ▸ List.prefix_rfl

theorem settlements_prefix {es : List Event} {r' : Request σ}
    (hrun : (requestSystem routeMatches).run r es = some r') :
    r.settlements <+: r'.settlements :=
  System.run_preserves (P := fun s => r.settlements <+: s.settlements)
    (fun _ _ _ hs hnext => hs.trans (settlements_prefix_next hnext)) List.prefix_rfl hrun

/-- Where Prometheus alone calls its key, one call counts, and the others do not. -/
theorem metricsOf_once {out : RequestOutcome} {calls : List (String × Callback × RequestOutcome)}
    (hsame : ∀ c ∈ calls, c.2.2 = out) (hnodup : (calls.map Prod.fst).Nodup)
    (hown : ∀ c ∈ calls, c.2.1 = .prometheus ↔ c.1 = "metrics") (m : Metrics) :
    calls.foldl (fun m call => call.2.1.call m call.2.2) m =
      if "metrics" ∈ calls.map Prod.fst then m.record out else m := by
  induction calls generalizing m with
  | nil => rfl
  | cons call calls ih =>
      obtain ⟨key, callback, result⟩ := call
      obtain rfl : result = out := hsame (key, callback, result) (by simp)
      have hhead := hown (key, callback, result) (by simp)
      simp only [List.map_cons, List.nodup_cons] at hnodup
      rw [List.foldl_cons, ih (fun c hc => hsame c (List.mem_cons_of_mem _ hc)) hnodup.2
        (fun c hc => hown c (List.mem_cons_of_mem _ hc))]
      cases callback with
      | prometheus =>
          have hkey : key = "metrics" := hhead.mp rfl
          rw [hkey] at hnodup
          simp [hkey, hnodup.1, Callback.call]
      | other object =>
          have hkey : "metrics" ≠ key := fun hk => by simpa using hhead.mpr hk.symm
          simp only [List.map_cons, List.mem_cons, hkey, false_or, Callback.call]

/-- Prometheus is called once where nobody else subscribes under its key. -/
theorem Settled.metrics {out : RequestOutcome} (h : Settled r out)
    (hother : ∀ c, Event.observe "metrics" c ∉ r.history) (he : Event.prometheus ∈ r.history)
    (hpath : r.path ∉ excludedPaths) : metricsOf r.calls = Metrics.empty.record out := by
  have hkey : "metrics" ∈ r.keys :=
    List.mem_filterMap.mpr ⟨_, he, by simp [Event.key?, hpath]⟩
  have honce := metricsOf_once h.same h.once
    (fun c hc => ⟨(h.own c hc).1, fun hk => (h.own c hc).2 hk hother⟩) .empty
  rw [if_pos ((h.called _).mpr hkey)] at honce
  exact honce

/-- Whatever has settled did so at the first settling event of the history. -/
theorem Told.settled (h : Told r) {e : Event} (he : e ∈ r.history) (hsettles : e.settles = true) :
    ∃ o out, r.observation = some o ∧ o.result = some out ∧ Observed r o ∧ Settled r out := by
  cases ho : r.observation with
  | none =>
      rw [(h.unobserved ho).1] at he
      cases he
  | some o =>
      have hobserved := h.observed o ho
      cases hresult : o.result with
      | none => exact absurd hsettles (by simp [(hobserved.pending hresult).unsettled e he])
      | some out => exact ⟨o, out, rfl, hresult, hobserved, hobserved.settled out hresult⟩

theorem Told.unsettled (h : Told r) (hnone : ∀ e ∈ r.history, e.settles = false) :
    r.settlements = [] ∧ r.calls = [] ∧ r.metrics = .empty := by
  cases ho : r.observation with
  | none => exact ⟨(h.unobserved ho).2.2.1, (h.unobserved ho).2.1, (h.unobserved ho).2.2.2⟩
  | some o =>
      have hobserved := h.observed o ho
      cases hresult : o.result with
      | none =>
          have hp := hobserved.pending hresult
          refine ⟨hp.settlements, hp.calls, ?_⟩
          rw [hobserved.metrics, hp.calls]
          rfl
      | some out =>
          obtain ⟨before, e, after, hsplit, _, hsettles, _⟩ := (hobserved.settled out hresult).first
          exact absurd hsettles (by simp [hnone e (by simp [hsplit])])

/-- A history has one first settling event. -/
theorem first_settling_unique {before before' after after' : List Event} {e e' : Event}
    (h : before ++ e :: after = before' ++ e' :: after')
    (hbefore : ∀ d ∈ before, d.settles = false) (hbefore' : ∀ d ∈ before', d.settles = false)
    (he : e.settles = true) (he' : e'.settles = true) : before = before' ∧ e = e' := by
  induction before generalizing before' with
  | nil =>
      cases before' with
      | nil => exact ⟨rfl, (List.cons.inj h).1⟩
      | cons d before' =>
          rw [(List.cons.inj h).1] at he
          exact absurd he (by simp [hbefore' d (by simp)])
  | cons d before ih =>
      cases before' with
      | nil =>
          rw [← (List.cons.inj h).1] at he'
          exact absurd he' (by simp [hbefore d (by simp)])
      | cons d' before' =>
          obtain ⟨rfl, htail⟩ := List.cons.inj h
          obtain ⟨rfl, rfl⟩ := ih htail (fun x hx => hbefore x (List.mem_cons_of_mem _ hx))
            (fun x hx => hbefore' x (List.mem_cons_of_mem _ hx))
          exact ⟨rfl, rfl⟩

-- ============================================================================
-- The outcome is reported exactly once
-- ============================================================================

/-- In every run the first settling event settles the observation, completed if and only if it is
    the acceptance of the final body, with the status accepted before it; nothing settles it
    again.  Each key that ever subscribes is called once, with that result, and Prometheus
    counts it once. -/
theorem outcome_reported_once (hr : (requestSystem routeMatches).Reachable r) :
    ((∀ e ∈ r.history, e.settles = false) →
      r.settlements = [] ∧ r.calls = [] ∧ r.metrics = .empty) ∧
    ∀ before e after, r.history = before ++ e :: after →
      (∀ d ∈ before, d.settles = false) → e.settles = true →
      ∃ out, r.settlements = [out] ∧ r.observation.bind RequestObservation.result = some out ∧
        (out.outcome = .completed ↔ e.completes = true) ∧
        out.status = acceptedStatus before ∧
        (∀ key, (r.calls.map Prod.fst).count key = if key ∈ r.keys then 1 else 0) ∧
        (∀ es r', (requestSystem routeMatches).run r es = some r' →
          r'.settlements = [out] ∧ ∀ call ∈ r'.calls, call.2.2 = out) ∧
        ((∀ c, Event.observe "metrics" c ∉ r.history) → Event.prometheus ∈ r.history →
          r.path ∉ excludedPaths →
          r.metrics = Metrics.empty.record out ∧
          r.metrics.requestDuration.length = r.metrics.requestCount.length ∧
          r.metrics.requestCount.length = (if e.completes then 1 else 0) ∧
          r.metrics.requestAborted.length = (if e.completes then 0 else 1)) := by
  have htold := told_invariant.of_reachable hr
  refine ⟨htold.unsettled, fun before e after hsplit hbefore hsettles => ?_⟩
  obtain ⟨o, out, ho, hresult, hobserved, hsettled⟩ :=
    htold.settled (e := e) (by simp [hsplit]) hsettles
  obtain ⟨before', e', after', hsplit', hbefore', hsettles', houtcome, hstatus⟩ := hsettled.first
  obtain ⟨rfl, rfl⟩ := first_settling_unique (hsplit.symm.trans hsplit') hbefore hbefore'
    hsettles hsettles'
  refine ⟨out, hsettled.settlements, by simp [ho, hresult], houtcome, hstatus, fun key => ?_,
    fun es r' hrun => ?_, fun hother hprometheus hpath => ?_⟩
  · rw [hsettled.once.count]
    simp only [hsettled.called]
  · -- what has settled later settled at the same event
    obtain ⟨later, hlater⟩ := settlements_prefix hrun
    have htold' := told_invariant.of_reachable (hr.run hrun)
    have hsome : ∃ d ∈ r'.history, d.settles = true := by
      by_contra hnone
      have hempty := (htold'.unsettled fun d hd => by
        simpa using fun hd' => hnone ⟨d, hd, hd'⟩).1
      rw [← hlater, hsettled.settlements] at hempty
      cases hempty
    obtain ⟨d, hd, hdsettles⟩ := hsome
    obtain ⟨_, out', _, _, _, hsettled'⟩ := htold'.settled hd hdsettles
    rw [hsettled.settlements, hsettled'.settlements] at hlater
    obtain rfl : out = out' := (List.cons.inj hlater).1
    exact ⟨hsettled'.settlements, hsettled'.same⟩
  · have hmetrics : r.metrics = Metrics.empty.record out := by
      rw [hobserved.metrics, hsettled.metrics hother hprometheus hpath]
    rw [hmetrics]
    cases houtcome' : out.outcome with
    | completed =>
        simp [Metrics.record, houtcome', houtcome.mp houtcome', Metrics.empty]
    | aborted =>
        have hcompletes : e.completes = false := by
          rw [← Bool.not_eq_true, ← houtcome, houtcome']
          simp
        simp [Metrics.record, houtcome', hcompletes, Metrics.empty]

/-- A response that is sent before `abort_request`, with a subscriber after both. -/
theorem outcome_reported_once_late_subscriber :
    ∃ (r : Request Unit) (out : RequestOutcome),
      (requestSystem fun _ incoming => (.none, incoming)).run (arrived "GET" "/items" () [] 0)
        ([.enter, .prometheus, .accepted (.start 200)] ++
          .accepted (.body (.bytes []) false) :: [.abort, .observe "late" 1, .leave .returned]) =
        some r ∧
      r.settlements = [out] ∧ out.outcome = .completed ∧ out.status = some 200 ∧
      (r.calls.map Prod.fst).count "late" = 1 ∧ r.metrics.requestCount.length = 1 := by
  have hrun : ((requestSystem fun _ incoming => (.none, incoming)).run
      (arrived "GET" "/items" () [] 0)
      ([.enter, .prometheus, .accepted (.start 200)] ++
        .accepted (.body (.bytes []) false) :: [.abort, .observe "late" 1, .leave .returned])).map
      (fun r => (r.history, r.path)) =
      some ([.enter, .prometheus, .accepted (.start 200)] ++
        .accepted (.body (.bytes []) false) :: [.abort, .observe "late" 1, .leave .returned],
        "/items") := rfl
  obtain ⟨r, hrun, hr⟩ := Option.map_eq_some_iff.mp hrun
  obtain ⟨hhistory, hpath⟩ := Prod.mk.inj hr
  obtain ⟨out, hsettlements, -, houtcome, hstatus, hcalls, -, hmetrics⟩ :=
    (outcome_reported_once ⟨_, _, ⟨_, _, _, _, _, rfl⟩, hrun⟩).2 _ _ _ hhistory (by decide) rfl
  refine ⟨r, out, hrun, hsettlements, houtcome.mpr rfl, hstatus, ?_, ?_⟩
  · rw [hcalls, if_pos (by simp [keys, hhistory, Event.key?])]
  · exact (hmetrics (by simp [hhistory]) (by simp [hhistory]) (by rw [hpath]; decide)).2.2.1

end Request

end QuickApi.Telemetry
