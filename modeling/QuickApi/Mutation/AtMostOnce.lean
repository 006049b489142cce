/-
  QuickApi.Mutation.AtMostOnce

  What the chronicle says of requests: each commits as a whole or not at all,
  a scope with an unexpired record takes no more writes, and a request with a
  key that succeeds returns what is stored.
-/

import QuickApi.Mutation.Chronicle

namespace QuickApi.Mutation

open QuickApi.Fingerprint (Text)
open QuickApi.Lib

variable {W D : Type} {cfg : Config}

-- ============================================================================
-- How the records change
-- ============================================================================

/-- The committed records are the same, or a commit has changed them and is in the history. -/
def Server.Enters (sv sv' : Server W) : Prop :=
  sv'.history = sv.history ∧ sv'.db.rows.committed = sv.db.rows.committed ∨
    ∃ i c, sv'.history = sv.history ++ [sv.db.entry i c] ∧ sv'.db = sv.db.commit c

theorem Server.Enters.refl (sv : Server W) : sv.Enters sv := .inl ⟨rfl, rfl⟩

theorem Server.Performed.enters {sv sv' : Server W} {i : Nat} {conn conn' : Option Nat} {op : Op W}
    {v : op.Ans D} (h : sv.Performed i conn op v conn' sv') : sv.Enters sv' := by
  by_cases hop : op = .stmt .commit
  · subst hop
    cases h with
    | @stmt c _ _ _ _ _ hc hk hholder hexchange =>
        rcases Server.exchange_cases hexchange with ⟨e, -, rfl⟩ | ⟨e, -, -, rfl⟩ | ⟨v, -, -, hex⟩
        · exact .inl ⟨rfl, rfl⟩
        · exact .inl ⟨rfl, rfl⟩
        · obtain ⟨hdb, hhistory⟩ := Server.execute_commit hex
          exact .inr ⟨i, c, hhistory, hdb⟩
  · obtain ⟨hhistory, hcommitted, -⟩ := h.history hop
    exact .inl ⟨hhistory, hcommitted⟩

theorem State.enters_next {s s' : State W D} {e : Event W D} (hnext : s.next cfg e = some s') :
    s.server.Enters s'.server := by
  cases State.stepped hnext with
  | arrive job activity sessionKey context => exact .refl _
  | pass milliseconds _ => exact .inl ⟨rfl, rfl⟩
  | abandon hp habandon => exact .refl _
  | resume hp htree hperformed => exact hperformed.enters
  | @late c k i st a v sv hk hholder halive hex =>
      by_cases hst : st = .commit
      · subst hst
        obtain ⟨hdb, hhistory⟩ := Server.execute_commit hex
        exact .inr ⟨i, c, hhistory, hdb⟩
      · obtain ⟨hhistory, heffects⟩ := Server.execute_other hst hex
        exact .inl ⟨hhistory, heffects.committed.1⟩
  | drop hk => exact .inl ⟨rfl, rfl⟩

/-- The record is stored under `k`, or was before some commit. -/
def Server.Stored (sv : Server W) (k : Text) (r : IdempotencyORM) : Prop :=
  (∃ e ∈ sv.history, e.before k = some r) ∨ sv.db.rows.committed k = some r

/-- What was stored stays so. -/
theorem Server.Stored.enters {sv sv' : Server W} {k : Text} {r : IdempotencyORM}
    (h : sv.Stored k r) (henters : sv.Enters sv') : sv'.Stored k r := by
  rcases henters with ⟨hhistory, hcommitted⟩ | ⟨i, c, hhistory, -⟩
  · unfold Server.Stored
    rw [hhistory, hcommitted]
    exact h
  · left
    rw [hhistory]
    rcases h with ⟨e, he, hr⟩ | hr
    · exact ⟨e, List.mem_append_left _ he, hr⟩
    · exact ⟨sv.db.entry i c, by simp, hr⟩

theorem Chronicle.stored {s : State W D} (h : Chronicle cfg s) {e : Commit W}
    (he : e ∈ s.server.history) {k : Text} {r : IdempotencyORM} (hr : e.after k = some r) :
    s.server.Stored k r := by
  rcases h.ledger.later he with ⟨e', he', hlink⟩ | hlast
  · exact .inl ⟨e', he', by rw [hlink]; exact hr⟩
  · exact .inr (by rw [← hlast]; exact hr)

-- ============================================================================
-- What requests have found
-- ============================================================================

section Found

variable {s s' : State W D} {i : Nat} {p : Process W D}

/-- What an operation has let its mutation find: what it had found before, or the record that is
    stored in its scope. -/
theorem Coherent.found_cases (h : Coherent cfg s) (hp : s.processes[i]? = some p) {op : Op W}
    {l : Local W} (hallowed : op.Allowed cfg p.ghost.core p.ghost.fresh l.vars) {v : op.Ans D}
    {conn' : Option Nat} {server' : Server W}
    (hperformed : s.server.Performed i p.connection op v conn' server') {r : IdempotencyORM}
    {unexpired : Bool} (hfound : (p.ghost.after op v l).core.found = some (r, unexpired)) :
    p.ghost.core.found = some (r, unexpired) ∨
      p.ghost.core.role = .keyed (some r.scopeHash) ∧
        s.server.db.rows.committed r.scopeHash = some r := by
  cases hperformed with
  | @stmt c k st a v _ hc hk hholder hexchange =>
      obtain ⟨hout, hdoomed, hst⟩ := hallowed
      rcases Server.exchange_cases hexchange with ⟨e, rfl, -⟩ | ⟨e, rfl, -⟩ | ⟨v, rfl, halive, hex⟩
      · exact .inl hfound
      · exact .inl hfound
      · cases st with
        | find scopeHash =>
            obtain rfl : v = some (r, unexpired) := hfound
            obtain ⟨-, hlinked⟩ := h.mine hp hout hdoomed hc hk
            have hlink := hlinked halive
            obtain ⟨hr, -⟩ := hlink.finds h.records hst.2 (Server.execute_eq_some hex).1
            obtain rfl := h.records.keyedCommitted scopeHash r hr
            exact .inr ⟨hlink.asks _ (.inl hst.1), hr⟩
        | _ => exact .inl hfound
  | checkout hcheckout => exact .inl hfound
  | refused r hr =>
      cases r with
      | ok _ => exact .inl hfound
      | failed e => exact .inl hfound
      | lost e => exact .inl hfound
  | _ => exact .inl hfound

/-- What a request has found was stored in its scope. -/
structure Witnessed (cfg : Config) (s : State W D) : Prop where
  coherent : Coherent cfg s
  found : ∀ (i : Nat) (p : Process W D), s.processes[i]? = some p →
    ∀ r unexpired, p.ghost.core.found = some (r, unexpired) →
      p.ghost.core.role = .keyed (some r.scopeHash) ∧ s.server.Stored r.scopeHash r

/-- Mutations that have found nothing else. -/
theorem Witnessed.carry (h : Witnessed cfg s) (hcoherent : Coherent cfg s')
    (henters : s.server.Enters s'.server)
    (hfound : ∀ (j : Nat) (q' : Process W D), s'.processes[j]? = some q' →
      q'.ghost.core.found = none ∨ ∃ q, s.processes[j]? = some q ∧ q'.ghost = q.ghost) :
    Witnessed cfg s' where
  coherent := hcoherent
  found j q' hq' r unexpired hr := by
    rcases hfound j q' hq' with hnone | ⟨q, hq, hsame⟩
    · rw [hnone] at hr
      cases hr
    · rw [hsame] at hr ⊢
      obtain ⟨hrole, hstored⟩ := h.found j q hq r unexpired hr
      exact ⟨hrole, hstored.enters henters⟩

theorem Witnessed.next (h : Witnessed cfg s) {e : Event W D} (hnext : s.next cfg e = some s') :
    Witnessed cfg s' := by
  have hcoherent := h.coherent.next hnext
  have henters := State.enters_next hnext
  cases State.stepped hnext with
  | arrive job activity sessionKey context =>
      refine h.carry hcoherent henters fun j q hq => ?_
      rcases Nat.lt_or_ge j s.processes.length with hlt | hge
      · exact .inr ⟨q, (List.getElem?_append_left hlt).symm.trans hq, rfl⟩
      · rw [List.getElem?_append_right hge, List.getElem?_singleton] at hq
        split at hq
        · obtain rfl := Option.some.inj hq
          exact .inl rfl
        · cases hq
  | pass milliseconds _ => exact h.carry hcoherent henters fun j q hq => .inr ⟨q, hq, rfl⟩
  | @abandon i p p' reason hp habandon =>
      obtain ⟨-, -, hghost⟩ := (h.coherent.keeps i p hp).abandon habandon
      refine h.carry hcoherent henters fun j q hq => .inr ?_
      rcases getElem?_set_cases hq with ⟨rfl, rfl⟩ | ⟨-, hq⟩
      · exact ⟨p, hp, hghost⟩
      · exact ⟨q, hq, rfl⟩
  | @resume i p l op kont a v conn' server' hp htree hperformed =>
      have hallowed := (h.coherent.keeps i p hp).allowed htree
      refine ⟨hcoherent, fun j q hq r unexpired hr => ?_⟩
      rcases getElem?_set_cases hq with ⟨rfl, rfl⟩ | ⟨-, hq⟩
      · have hrole := (p.ghost.after_role op v { l with activity := p.activity }).1
        rcases h.coherent.found_cases (l := { l with activity := p.activity }) hp hallowed
          hperformed hr with hold | ⟨hkeyed, hcommitted⟩
        · obtain ⟨hkeyed, hstored⟩ := h.found i p hp r unexpired hold
          exact ⟨hrole.trans hkeyed, hstored.enters henters⟩
        · exact ⟨hrole.trans hkeyed, Server.Stored.enters (.inr hcommitted) henters⟩
      · obtain ⟨hkeyed, hstored⟩ := h.found j q hq r unexpired hr
        exact ⟨hkeyed, hstored.enters henters⟩
  | late hk hholder halive hex =>
      exact h.carry hcoherent henters fun j q hq => .inr ⟨q, hq, rfl⟩
  | drop hk => exact h.carry hcoherent henters fun j q hq => .inr ⟨q, hq, rfl⟩

theorem witnessed_invariant (cfg : Config) :
    (mutationSystem cfg W D).Invariant (Witnessed cfg) where
  init s hinit := by
    refine ⟨coherent_init hinit, fun i p hp => ?_⟩
    obtain ⟨now, rows, monotonic, -, rfl⟩ := hinit
    cases hp
  step _ _ _ h := h.next

end Found

-- ============================================================================
-- Requests
-- ============================================================================

section Requests

variable {s : State W D} {i : Nat} {p : Process W D} {req : Request W D} {l : Local W}

/-- How a request ends. -/
theorem Coherent.ended (h : Coherent cfg s) (hp : s.processes[i]? = some p)
    (hjob : p.job = .request req) {r : Except Exc (Option Response)} (htree : p.tree = .ret l r) :
    ∃ r', r = r'.map some ∧ Finished cfg req p.sessionKey p.context p.ghost l r' := by
  have hconforms := (h.keeps i p hp).conforms
  rw [htree, hjob] at hconforms
  exact hconforms

/-- A request that returns a response. -/
theorem Coherent.returned (h : Coherent cfg s) (hp : s.processes[i]? = some p)
    (hjob : p.job = .request req) {response : Response}
    (htree : p.tree = .ret l (.ok (some response))) :
    Finished cfg req p.sessionKey p.context p.ghost l (.ok response) := by
  obtain ⟨r', heq, hfinished⟩ := h.ended hp hjob htree
  cases r' with
  | error e => cases heq
  | ok response' =>
      obtain rfl := Option.some.inj (Except.ok.inj heq)
      exact hfinished

/-- Behind a commit the records of a scope are the same until they have expired. -/
theorem Chronicle.keeps (h : Chronicle cfg s) {pre mid post : List (Commit W)} {e e' : Commit W}
    (hhistory : s.server.history = pre ++ e :: (mid ++ e' :: post)) {k : Text} {r : IdempotencyORM}
    (hr : e.after k = some r) (hunexpired : ¬ r.Expired e'.time) : e'.before k = some r := by
  refine h.ledger.keeps (P := fun rows => rows k = some r) hhistory hr fun x hx htime hbefore => ?_
  have hmem : x ∈ s.server.history := by
    rw [hhistory]
    simp [hx]
  obtain ⟨q, -, -, haccounts⟩ := h.entries x hmem
  exact (haccounts.keeps hbefore fun hold => hunexpired (hold.mono htime)).1

/-- A request with a key that succeeds has committed its response, or has found it stored. -/
theorem Chronicle.returns (h : Chronicle cfg s) (hfound : Witnessed cfg s)
    (hp : s.processes[i]? = some p) (hjob : p.job = .request req)
    (hkeyed : (req.role cfg).isKeyed = true) {response : Response}
    (htree : p.tree = .ret l (.ok (some response))) (hstatus : response.status < 400) :
    ∃ r, req.role cfg = .keyed (some r.scopeHash) ∧ s.server.Stored r.scopeHash r ∧
      l.vars.fingerprint = some r.fingerprint ∧ r.responseStatus = some response.status ∧
      r.responseBody = some response.body := by
  have hfinished := h.coherent.returned hp hjob htree
  have hrole : p.ghost.core.role = req.role cfg := by
    rw [(h.coherent.keeps i p hp).role, hjob]
    rfl
  rcases hfinished.keyed response rfl hkeyed hstatus with ⟨claim, writes, hcommitted, hfingerprint⟩ |
    ⟨record, hrecord, hfingerprint, hresponse⟩
  · obtain ⟨hscope, e, he, status, body, t, hstored, hafter⟩ :=
      h.recorded i p hp claim writes hcommitted
    obtain ⟨-, -, -, hreturned⟩ := hfinished.committed response rfl _ writes hcommitted
    obtain ⟨rfl, rfl⟩ := Prod.mk.inj (Option.some.inj (hstored.symm.trans (hreturned claim rfl)))
    exact ⟨claim.record.complete response.status response.body t, hrole.symm.trans hscope,
      h.stored he hafter, hfingerprint, rfl, rfl⟩
  · obtain ⟨hscope, hstored⟩ := hfound.found i p hp record true hrecord
    exact ⟨record, hrole.symm.trans hscope, hstored, hfingerprint, hresponse⟩

end Requests

/-- Every commit makes all writes of its mutation durable and at most one record, of a request
    whose prepared response is a success; a mutation commits once; the records change by commits
    only; and behind a request the session key and the context are as they were on arrival, and
    the response it returns, if it is in the history, is the one it has committed. -/
theorem mutations_atomic (cfg : Config) {s : State W D}
    (hs : (mutationSystem cfg W D).Reachable s) :
    (∀ e ∈ s.server.history, ∃ p, s.processes[e.mutation]? = some p ∧
        p.ghost.core.role = p.job.role cfg ∧ e.Accounts cfg p.ghost.core p.ghost.sent) ∧
      (s.server.history.map Commit.mutation).Nodup ∧
      (∀ event s', s.next cfg event = some s' → s.server.Enters s'.server) ∧
      ∀ (i : Nat) (p : Process W D) req l r, s.processes[i]? = some p → p.job = .request req →
        p.tree = .ret l r → l.vars.sessionKey = p.sessionKey ∧ l.vars.context = p.context ∧
          ∀ response, r = .ok (some response) → ∀ e ∈ s.server.history, e.mutation = i →
            response.Success ∧ e.Accounts cfg p.ghost.core (some response) := by
  have h := (chronicle_invariant cfg).of_reachable hs
  refine ⟨fun e he => ?_, h.once, fun _ _ hnext => State.enters_next hnext,
    fun i p req l r hp hjob htree => ?_⟩
  · obtain ⟨p, hp, -, haccounts⟩ := h.entries e he
    exact ⟨p, hp, (h.coherent.keeps _ p hp).role, haccounts⟩
  · obtain ⟨r', -, hended⟩ := h.coherent.ended hp hjob htree
    refine ⟨hended.sessionKey, hended.context, ?_⟩
    rintro response rfl e he rfl
    obtain ⟨q, hq, -, haccounts⟩ := h.entries e he
    obtain rfl := Option.some.inj (hp.symm.trans hq)
    have hfinished := h.coherent.returned hp hjob htree
    have hrequest : p.ghost.core.role ≠ .sweep := by
      rw [(h.coherent.keeps _ p hp).role, hjob]
      show req.role cfg ≠ .sweep
      unfold Request.role
      split <;> exact nofun
    obtain ⟨sent, hsent, hsuccess⟩ := haccounts.response hrequest
    -- what was sent with the commit is still the prepared response, which is returned
    obtain rfl : sent = response := Option.some.inj
      ((hfinished.sent sent hsent).symm.trans (hfinished.prepared response rfl))
    exact ⟨hsuccess, hsent ▸ haccounts⟩

/-- The one commit of the sample request. -/
theorem mutations_atomic_sample :
    ∃ s e p, (mutationSystem sampleConfig Unit Unit).run sampleStart sampleFirst = some s ∧
      s.server.history = [e] ∧ e.writes = [()] ∧ s.processes[0]? = some p ∧
      e.Accounts sampleConfig p.ghost.core p.ghost.sent := by
  have hrun : ((mutationSystem sampleConfig Unit Unit).run sampleStart sampleFirst).map
      (fun s => s.server.history.map fun e => (e.mutation, e.writes)) = some [(0, [()])] := by
    decide +kernel
  obtain ⟨s, hs, hhistory⟩ := Option.map_eq_some_iff.mp hrun
  obtain ⟨e, hlist, he⟩ : ∃ e, s.server.history = [e] ∧ (e.mutation, e.writes) = (0, [()]) := by
    obtain ⟨e, rest, hcons, he, hrest⟩ := List.map_eq_cons_iff.mp hhistory
    obtain rfl := List.map_eq_nil_iff.mp hrest
    exact ⟨e, hcons, he⟩
  obtain ⟨hmutation, hwrites⟩ := Prod.mk.inj he
  obtain ⟨p, hp, -, haccounts⟩ := (mutations_atomic sampleConfig (sample_reachable hs)).1 e
    (by rw [hlist]; exact List.mem_singleton_self e)
  rw [hmutation] at hp
  exact ⟨s, e, p, hs, hlist, hwrites, hp, haccounts⟩

/-- Once a record of a scope is committed, no later commit changes it and no guarded request of the
    scope commits writes, until it has expired; and a request with a key that succeeds returns
    status and body of a record that is, or was, stored in its scope under its fingerprint. -/
theorem keyed_at_most_once (cfg : Config) {s : State W D}
    (hs : (mutationSystem cfg W D).Reachable s) :
    (∀ pre mid post e e' k r, s.server.history = pre ++ e :: (mid ++ e' :: post) →
        e.after k = some r → ¬ r.Expired e'.time →
        e'.after k = some r ∧
          ∀ p req, s.processes[e'.mutation]? = some p → p.job = .request req →
            req.role cfg = .keyed (some k) → req.guarded = true → e'.writes = []) ∧
      ∀ (i : Nat) (p : Process W D) req l response, s.processes[i]? = some p →
        p.job = .request req → (req.role cfg).isKeyed = true →
        p.tree = .ret l (.ok (some response)) → response.status < 400 →
        ∃ r, req.role cfg = .keyed (some r.scopeHash) ∧ s.server.Stored r.scopeHash r ∧
          l.vars.fingerprint = some r.fingerprint ∧ r.responseStatus = some response.status ∧
          r.responseBody = some response.body := by
  have h := (chronicle_invariant cfg).of_reachable hs
  have hfound := (witnessed_invariant cfg).of_reachable hs
  refine ⟨fun pre mid post e e' k r hhistory hr hunexpired => ?_,
    fun i p req l response hp hjob hkeyed htree hstatus =>
      h.returns hfound hp hjob hkeyed htree hstatus⟩
  have hbefore := h.keeps hhistory hr hunexpired
  have hmem : e' ∈ s.server.history := by
    rw [hhistory]
    simp
  obtain ⟨q, hq, -, haccounts⟩ := h.entries e' hmem
  obtain ⟨hafter, hnothing⟩ := haccounts.keeps hbefore hunexpired
  refine ⟨hafter, fun p req hp hjob hrole hguarded => ?_⟩
  obtain rfl := Option.some.inj (hp.symm.trans hq)
  have hkeeps := h.coherent.keeps _ p hp
  refine hnothing ?_ ?_
  · rw [hkeeps.role, hjob]
    exact hrole
  · rw [hkeeps.guarded, hjob]
    exact hguarded

/-- The second sample request commits behind the first: the record is the same, and nothing is
    written. -/
theorem keyed_at_most_once_replayed :
    ∃ s e e' r, (mutationSystem sampleConfig Unit Unit).run sampleStart
        (sampleFirst ++ sampleSecond) = some s ∧
      s.server.history = [e, e'] ∧ e.after ['h'] = some r ∧ r.responseStatus = some 201 ∧
      e'.after ['h'] = some r ∧ e'.writes = [] := by
  have hrun : ((mutationSystem sampleConfig Unit Unit).run sampleStart
      (sampleFirst ++ sampleSecond)).map (fun s =>
        (s.server.history.map fun e => (e.mutation, e.time, e.after ['h']),
          s.processes.map fun p => (p.job.role sampleConfig, p.job.guarded))) =
      some ([(0, 0, some (sampleRecord.complete 201 [] 0)),
          (1, 0, some (sampleRecord.complete 201 [] 0))],
        [(.keyed (some ['h']), true), (.keyed (some ['h']), true)]) := by
    decide +kernel
  obtain ⟨s, hs, hseen⟩ := Option.map_eq_some_iff.mp hrun
  obtain ⟨hhistory, hjobs⟩ := Prod.mk.inj hseen
  obtain ⟨e, rest, hcons, he, hrest⟩ := List.map_eq_cons_iff.mp hhistory
  obtain ⟨e', rest', rfl, he', hnil⟩ := List.map_eq_cons_iff.mp hrest
  obtain rfl := List.map_eq_nil_iff.mp hnil
  obtain ⟨-, -, hafter⟩ : e.mutation = 0 ∧ e.time = 0 ∧ _ := by simpa using he
  obtain ⟨hmutation, htime, -⟩ : e'.mutation = 1 ∧ e'.time = 0 ∧ _ := by simpa using he'
  have honce := (keyed_at_most_once sampleConfig (sample_reachable hs)).1 [] [] [] e e' ['h'] _
    hcons hafter (by rw [htime]; decide)
  refine ⟨s, e, e', _, hs, hcons, hafter, rfl, honce.1, ?_⟩
  have hjob : (s.processes.map fun p => (p.job.role sampleConfig, p.job.guarded))[1]? =
      some (.keyed (some ['h']), true) := by rw [hjobs]; rfl
  rw [List.getElem?_map] at hjob
  obtain ⟨p, hp, hpair⟩ := Option.map_eq_some_iff.mp hjob
  obtain ⟨hrole, hguarded⟩ := Prod.mk.inj hpair
  cases hj : p.job with
  | sweep limit =>
      rw [hj] at hrole
      cases hrole
  | request req =>
      rw [hj] at hrole hguarded
      exact honce.2 p req (by rw [hmutation]; exact hp) hj hrole hguarded

end QuickApi.Mutation
