/-
  QuickApi.Telemetry.Account

  What the history of a request says about its observation: before the first
  settling event the subscribers wait, and that event fixes the result that
  every subscriber, whenever it comes, is called with.  Every step keeps the
  account.
-/

import QuickApi.Telemetry.System

namespace QuickApi.Telemetry

open QuickApi.Lib
open QuickApi.RequestTimeout (Message)

-- ============================================================================
-- What the history says
-- ============================================================================

namespace Event

/-- The connection is lost, or the application gives up or ends. -/
def aborts : Event → Bool
  | .sendFailed .osError => true
  | .receiveFailed .osError => true
  | .disconnected => true
  | .abort => true
  | .leave _ => true
  | _ => false

/-- The final body is accepted. -/
def completes : Event → Bool
  | .accepted m => m.isFinal
  | _ => false

def settles (e : Event) : Bool := e.aborts || e.completes

/-- The status that an event accepts. -/
def status? : Event → Option Nat
  | .accepted (.start status) => some status
  | _ => none

/-- The key that an event subscribes in a request for `path`. -/
def key? (path : String) : Event → Option String
  | .observe key _ => some key
  | .prometheus => if path ∈ excludedPaths then none else some "metrics"
  | _ => none

end Event

/-- The status of the start accepted last. -/
def acceptedStatus (history : List Event) : Option Nat :=
  history.foldl (fun status e => e.status?.or status) none

theorem acceptedStatus_snoc (history : List Event) (e : Event) :
    acceptedStatus (history ++ [e]) = e.status?.or (acceptedStatus history) := by
  simp [acceptedStatus]

namespace Request

variable {σ : Type} {routeMatches : BaseRoute → σ → Match × σ}

/-- The keys subscribed so far. -/
def keys (r : Request σ) : List String := r.history.filterMap (Event.key? r.path)

/-- The metrics behind calls of callbacks. -/
def metricsOf (calls : List (String × Callback × RequestOutcome)) : Metrics :=
  calls.foldl (fun m call => call.2.1.call m call.2.2) .empty

/-- The callback of Prometheus is subscribed under its own key, where nobody else subscribes
    unless the history shows it. -/
def OwnKey (history : List Event) (key : String) (callback : Callback) : Prop :=
  (callback = .prometheus → key = "metrics") ∧
    (key = "metrics" → (∀ c, Event.observe "metrics" c ∉ history) → callback = .prometheus)

/-- Nothing has settled yet: the subscribers wait. -/
structure Pending (r : Request σ) (o : RequestObservation Callback) : Prop where
  unsettled : ∀ e ∈ r.history, e.settles = false
  status : o.status = acceptedStatus r.history
  calls : r.calls = []
  settlements : r.settlements = []
  waiting : ∀ k, k ∈ o.callbacks.keys ↔ k ∈ o.subscribers
  own : ∀ e ∈ o.callbacks.entries, OwnKey r.history e.1 e.2

/-- The first settling event has fixed the result. -/
structure Settled (r : Request σ) (out : RequestOutcome) : Prop where
  first : ∃ before e after, r.history = before ++ e :: after ∧
    (∀ d ∈ before, d.settles = false) ∧ e.settles = true ∧
    (out.outcome = .completed ↔ e.completes = true) ∧ out.status = acceptedStatus before
  settlements : r.settlements = [out]
  same : ∀ c ∈ r.calls, c.2.2 = out
  once : (r.calls.map Prod.fst).Nodup
  called : ∀ k, k ∈ r.calls.map Prod.fst ↔ k ∈ r.keys
  own : ∀ c ∈ r.calls, OwnKey r.history c.1 c.2.1

/-- The account of a request whose observation is `o`. -/
structure Observed (r : Request σ) (o : RequestObservation Callback) : Prop where
  subscribers : ∀ k, k ∈ o.subscribers ↔ k ∈ r.keys
  metrics : r.metrics = metricsOf r.calls
  pending : o.result = none → Pending r o
  settled : ∀ out, o.result = some out → Settled r out

/-- The account of a request. -/
structure Told (r : Request σ) : Prop where
  unobserved : r.observation = none →
    r.history = [] ∧ r.calls = [] ∧ r.settlements = [] ∧ r.metrics = .empty
  observed : ∀ o, r.observation = some o → Observed r o

theorem keys_snoc {r r' : Request σ} {e : Event} (hpath : r'.path = r.path)
    (hhistory : r'.history = r.history ++ [e]) :
    r'.keys = r.keys ++ (e.key? r.path).toList := by
  rw [keys, keys, hpath, hhistory, List.filterMap_append]
  cases h : e.key? r.path <;> simp [h]

theorem metricsOf_append (calls calls' : List (String × Callback × RequestOutcome)) :
    metricsOf (calls ++ calls') =
      calls'.foldl (fun m call => call.2.1.call m call.2.2) (metricsOf calls) :=
  List.foldl_append

theorem OwnKey.snoc {history : List Event} {key : String} {callback : Callback} (e : Event)
    (h : OwnKey history key callback) : OwnKey (history ++ [e]) key callback :=
  ⟨h.1, fun hk hall => h.2 hk fun c hc => hall c (List.mem_append_left _ hc)⟩

/-- An event that changes neither the result nor the subscribers, and the status only as its
    message says, keeps the account. -/
theorem Observed.pass {r r' : Request σ} {o o' : RequestObservation Callback} (h : Observed r o)
    {e : Event} (hpath : r'.path = r.path) (hhistory : r'.history = r.history ++ [e])
    (hcalls : r'.calls = r.calls) (hsettlements : r'.settlements = r.settlements)
    (hmetrics : r'.metrics = r.metrics) (hsubscribers : o'.subscribers = o.subscribers)
    (hcallbacks : o'.callbacks = o.callbacks) (hresult : o'.result = o.result)
    (hquiet : o.result = none → e.settles = false ∧ o'.status = e.status?.or o.status)
    (hkey : ∀ k, e.key? r.path = some k → k ∈ r.keys) : Observed r' o' := by
  have hkeys : ∀ k, k ∈ r'.keys ↔ k ∈ r.keys := by
    intro k
    rw [keys_snoc hpath hhistory]
    simp only [List.mem_append, Option.mem_toList]
    exact ⟨fun hk => hk.elim id (hkey k), Or.inl⟩
  refine ⟨fun k => ?_, ?_, fun hnone => ?_, fun out hout => ?_⟩
  · rw [hsubscribers, hkeys]
    exact h.subscribers k
  · rw [hmetrics, hcalls]
    exact h.metrics
  · rw [hresult] at hnone
    have hp := h.pending hnone
    obtain ⟨hsettles, hstatus⟩ := hquiet hnone
    refine ⟨?_, ?_, by rw [hcalls, hp.calls], by rw [hsettlements, hp.settlements],
      fun k => ?_, ?_⟩
    · intro d hd
      rw [hhistory, List.mem_append, List.mem_singleton] at hd
      obtain hd | rfl := hd
      · exact hp.unsettled d hd
      · exact hsettles
    · rw [hstatus, hp.status, hhistory, acceptedStatus_snoc]
    · rw [hcallbacks, hsubscribers]
      exact hp.waiting k
    · rw [hcallbacks, hhistory]
      exact fun d hd => (hp.own d hd).snoc e
  · rw [hresult] at hout
    obtain ⟨hfirst, hset, hsame, honce, hcalled, hown⟩ := h.settled out hout
    refine ⟨?_, by rw [hsettlements, hset], by rw [hcalls]; exact hsame,
      by rw [hcalls]; exact honce, fun k => ?_, ?_⟩
    · obtain ⟨before, d, after, hsplit, hrest⟩ := hfirst
      exact ⟨before, d, after ++ [e], by rw [hhistory, hsplit]; simp, hrest⟩
    · rw [hcalls, hkeys]
      exact hcalled k
    · rw [hcalls, hhistory]
      exact fun c hc => (hown c hc).snoc e

/-- The first settling event: every waiting subscriber is called with the new result. -/
theorem Observed.first_settled {r : Request σ} {o : RequestObservation Callback}
    (h : Observed r o) (hresult : o.result = none) {e : Event} (hsettles : e.settles = true)
    (hkey : e.key? r.path = none) {outcome : Outcome}
    (houtcome : outcome = .completed ↔ e.completes = true) (method route : String) (now : ℚ)
    {r' : Request σ} (hpath : r'.path = r.path) (hhistory : r'.history = r.history ++ [e])
    (hcalls : r'.calls = r.calls ++ (o.settle method route now outcome).2)
    (hmetrics : r'.metrics = (o.settle method route now outcome).2.foldl
      (fun m call => call.2.1.call m call.2.2) r.metrics)
    (hsettlements : r'.settlements =
      r.settlements ++ (o.settle method route now outcome).1.result.toList) :
    Observed r' (o.settle method route now outcome).1 := by
  have hp := h.pending hresult
  have hkeys : r'.keys = r.keys := by
    rw [keys_snoc hpath hhistory, hkey]
    exact List.append_nil _
  refine ⟨fun k => ?_, ?_, fun hnone => ?_, fun out hout => ?_⟩
  · rw [RequestObservation.settle_subscribers, hkeys]
    exact h.subscribers k
  · rw [hmetrics, h.metrics, hcalls, metricsOf_append]
  · simp [RequestObservation.settle, hresult] at hnone
  · simp only [RequestObservation.settle, hresult, Option.some.injEq] at hout hcalls hsettlements
    rw [hp.calls, List.nil_append] at hcalls
    rw [hp.settlements, List.nil_append] at hsettlements
    rw [hout] at hcalls hsettlements
    have hfst : r'.calls.map Prod.fst = o.callbacks.keys := by
      rw [hcalls, List.map_map]
      rfl
    refine ⟨⟨r.history, e, [], hhistory, hp.unsettled, hsettles, ?_, ?_⟩, hsettlements, ?_, ?_,
      fun k => ?_, ?_⟩
    · rw [← hout]
      exact houtcome
    · rw [← hout]
      exact hp.status
    · intro c hc
      rw [hcalls] at hc
      obtain ⟨d, _, rfl⟩ := List.mem_map.mp hc
      rfl
    · rw [hfst]
      exact o.callbacks.nodupKeys
    · rw [hfst, hkeys, hp.waiting, h.subscribers]
    · intro c hc
      rw [hcalls] at hc
      obtain ⟨d, hd, rfl⟩ := List.mem_map.mp hc
      rw [hhistory]
      exact (hp.own d hd).snoc e

/-- A key subscribes for the first time: it waits, or is called at once. -/
theorem Observed.subscribed {r : Request σ} {o : RequestObservation Callback}
    (h : Observed r o) {key : String} (hnew : key ∉ o.subscribers) {callback : Callback}
    {e : Event} (hsettles : e.settles = false) (hstatus : e.status? = none)
    (hkey : e.key? r.path = some key) (hown : OwnKey (r.history ++ [e]) key callback)
    {r' : Request σ} (hpath : r'.path = r.path) (hhistory : r'.history = r.history ++ [e])
    (hcalls : r'.calls = r.calls ++ (o.subscribe key callback).2)
    (hmetrics : r'.metrics = (o.subscribe key callback).2.foldl
      (fun m call => call.2.1.call m call.2.2) r.metrics)
    (hsettlements : r'.settlements = r.settlements) :
    Observed r' (o.subscribe key callback).1 := by
  have hkeys : ∀ k, k ∈ r'.keys ↔ k ∈ r.keys ∨ k = key := by
    intro k
    rw [keys_snoc hpath hhistory, hkey]
    simp [eq_comm]
  refine ⟨fun k => ?_, ?_, fun hnone => ?_, fun out hout => ?_⟩
  · rw [hkeys, ← h.subscribers, RequestObservation.subscribe_subscribers]
  · rw [hmetrics, h.metrics, hcalls, metricsOf_append]
  · rw [RequestObservation.subscribe_result] at hnone
    have hp := h.pending hnone
    have hwait : key ∉ o.callbacks.keys := fun hk => hnew ((hp.waiting key).mp hk)
    simp only [RequestObservation.subscribe, hnew, hnone, if_false, List.append_nil] at hcalls ⊢
    have hentries := OrderedDict.set_entries_of_new (d := o.callbacks) hwait callback
    refine ⟨?_, ?_, hcalls.trans hp.calls, hsettlements.trans hp.settlements, fun k => ?_, ?_⟩
    · intro d hd
      rw [hhistory, List.mem_append, List.mem_singleton] at hd
      obtain hd | rfl := hd
      · exact hp.unsettled d hd
      · exact hsettles
    · rw [hhistory, acceptedStatus_snoc, hstatus]
      exact hp.status
    · rw [OrderedDict.keys, hentries, List.map_append, List.mem_append]
      simp only [List.map_cons, List.map_nil, List.mem_cons, List.not_mem_nil, or_false]
      rw [← hp.waiting, OrderedDict.keys]
      exact or_comm
    · intro d hd
      rw [hentries, List.mem_append, List.mem_singleton] at hd
      rw [hhistory]
      obtain hd | rfl := hd
      · exact (hp.own d hd).snoc e
      · exact hown
  · rw [RequestObservation.subscribe_result] at hout
    obtain ⟨hfirst, hset, hsame, honce, hcalled, hownCalls⟩ := h.settled out hout
    simp only [RequestObservation.subscribe, hnew, hout, if_false] at hcalls
    refine ⟨?_, hsettlements.trans hset, ?_, ?_, fun k => ?_, ?_⟩
    · obtain ⟨before, d, after, hsplit, hrest⟩ := hfirst
      exact ⟨before, d, after ++ [e], by rw [hhistory, hsplit]; simp, hrest⟩
    · intro c hc
      rw [hcalls, List.mem_append, List.mem_singleton] at hc
      obtain hc | rfl := hc
      · exact hsame c hc
      · rfl
    · have hfresh : key ∉ r.calls.map Prod.fst := by
        rw [hcalled, ← h.subscribers]
        exact hnew
      rw [hcalls, List.map_append]
      exact honce.append (by simp) (by simpa using hfresh)
    · rw [hcalls, List.map_append, List.mem_append, hcalled, hkeys]
      simp
    · intro c hc
      rw [hcalls, List.mem_append, List.mem_singleton] at hc
      rw [hhistory]
      obtain hc | rfl := hc
      · exact (hownCalls c hc).snoc e
      · exact hown

theorem Observed.subscribe {r : Request σ} {o : RequestObservation Callback} (h : Observed r o)
    {key : String} {callback : Callback} {e : Event} (hsettles : e.settles = false)
    (hstatus : e.status? = none) (hkey : e.key? r.path = some key)
    (hown : OwnKey (r.history ++ [e]) key callback) {r' : Request σ} (hpath : r'.path = r.path)
    (hhistory : r'.history = r.history ++ [e])
    (hcalls : r'.calls = r.calls ++ (o.subscribe key callback).2)
    (hmetrics : r'.metrics = (o.subscribe key callback).2.foldl
      (fun m call => call.2.1.call m call.2.2) r.metrics)
    (hsettlements : r'.settlements = r.settlements) :
    Observed r' (o.subscribe key callback).1 := by
  by_cases hold : key ∈ o.subscribers
  · simp only [RequestObservation.subscribe, hold, if_true, List.append_nil, List.foldl_nil]
      at hcalls hmetrics ⊢
    refine h.pass hpath hhistory hcalls hsettlements hmetrics rfl rfl rfl
      (fun _ => ⟨hsettles, ?_⟩) fun k hk => ?_
    · rw [hstatus]
      rfl
    · obtain rfl := Option.some.inj (hkey.symm.trans hk)
      exact (h.subscribers key).mp hold
  · exact h.subscribed hold hsettles hstatus hkey hown hpath hhistory hcalls hmetrics hsettlements

end Request

end QuickApi.Telemetry
