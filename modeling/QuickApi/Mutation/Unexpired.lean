/-
  QuickApi.Mutation.Unexpired

  While a committed record of a scope has not expired: it stays as it is, later
  requests of the scope commit no writes, and those that look it up return it.
  A request that has read the record before may still return that one.
-/

import QuickApi.Mutation.AtMostOnce

namespace QuickApi.Mutation

open QuickApi.Fingerprint (Text)
open QuickApi.Lib

variable {W D : Type} {cfg : Config}

-- ============================================================================
-- Runs in which a record does not expire
-- ============================================================================

/-- The mutation has neither read an unexpired record but `r`, nor completed another. -/
structure Core.Current (core : Core W) (r : IdempotencyORM) : Prop where
  found : ∀ r', core.found = some (r', true) → r' = r
  committed : ∀ claim writes, core.committed = some (some claim, writes) →
    ∃ status body t, claim.response = some (status, body) ∧ r = claim.record.complete status body t

section Steps

variable {s s' : State W D} {i : Nat} {p : Process W D} {k : Text} {r : IdempotencyORM}

/-- A commit that is answered has made the claim of its transaction a record. -/
theorem Coherent.completed (h : Coherent cfg s) (hp : s.processes[i]? = some p) {l : Local W}
    (hallowed : (Op.stmt .commit).Allowed cfg p.ghost.core p.ghost.fresh l.vars)
    {v : Reply Unit} {conn' : Option Nat} {server' : Server W}
    (hperformed : s.server.Performed (D := D) i p.connection (.stmt .commit) v conn' server')
    {claim : Claim} {writes : List W}
    (hcommitted : (p.ghost.after (D := D) (.stmt .commit) v l).core.committed =
      some (some claim, writes)) :
    p.ghost.core.role = .keyed (some claim.record.scopeHash) ∧
      ∃ status body t, claim.response = some (status, body) ∧
        server'.db.rows.committed claim.record.scopeHash =
          some (claim.record.complete status body t) := by
  obtain ⟨hout, hdoomed, hcommit⟩ := hallowed
  cases hperformed with
  | stmt hc hk hholder hexchange =>
      rcases Server.exchange_cases hexchange with ⟨e, rfl, -⟩ | ⟨e, rfl, -, -⟩ |
        ⟨v, rfl, halive, hex⟩
      · exact absurd (hcommit.1.symm.trans hcommitted) nofun
      · exact absurd (hcommit.1.symm.trans hcommitted) nofun
      · obtain ⟨-, hlinked⟩ := h.mine hp hout hdoomed hc hk
        obtain ⟨hclaim, -⟩ := Prod.mk.inj (Option.some.inj hcommitted)
        rw [(Server.execute_commit hex).1]
        exact (hlinked halive).claim_committed (i := i) hcommit hclaim

/-- The operation of a request of scope `k`, whose record `r` is the same behind it. -/
theorem Coherent.current_performed (h : Coherent cfg s) (hp : s.processes[i]? = some p)
    (hrole : p.ghost.core.role = .keyed (some k)) (hcurrent : p.ghost.core.Current r)
    (hr : s.server.db.rows.committed k = some r) {l : Local W} {op : Op W}
    (hallowed : op.Allowed cfg p.ghost.core p.ghost.fresh l.vars) {v : op.Ans D}
    {conn' : Option Nat} {server' : Server W}
    (hperformed : s.server.Performed i p.connection op v conn' server')
    (hr' : server'.db.rows.committed k = some r) : (p.ghost.after op v l).core.Current r where
  found r' hfound := by
    rcases h.found_cases hp hallowed hperformed hfound with hold | ⟨hkeyed, hcommitted⟩
    · exact hcurrent.found r' hold
    · obtain rfl := Option.some.inj (Role.keyed.inj (hrole.symm.trans hkeyed))
      exact Option.some.inj (hcommitted.symm.trans hr)
  committed claim writes hcommitted := by
    by_cases hop : op = .stmt .commit
    · subst hop
      obtain ⟨hkeyed, status, body, t, hresponse, hrow⟩ :=
        h.completed hp hallowed hperformed hcommitted
      obtain rfl := Option.some.inj (Role.keyed.inj (hrole.symm.trans hkeyed))
      exact ⟨status, body, t, hresponse, Option.some.inj (hr'.symm.trans hrow)⟩
    · rw [p.ghost.after_committed hop v l] at hcommitted
      exact hcurrent.committed claim writes hcommitted

/-- Request `i`, once it works in scope `k`, has read and completed no record but `r`. -/
def State.Current (s : State W D) (i : Nat) (k : Text) (r : IdempotencyORM) : Prop :=
  ∀ p, s.processes[i]? = some p → p.ghost.core.role = .keyed (some k) → p.ghost.core.Current r

theorem Coherent.current_next (h : Coherent cfg s) (hcurrent : s.Current i k r)
    (hr : s.server.db.rows.committed k = some r) {e : Event W D} (hnext : s.next cfg e = some s')
    (hr' : s'.server.db.rows.committed k = some r) : s'.Current i k r := by
  intro p' hp' hrole'
  cases State.stepped hnext with
  | arrive job activity sessionKey context =>
      rcases Nat.lt_or_ge i s.processes.length with hlt | hge
      · exact hcurrent p' ((List.getElem?_append_left hlt).symm.trans hp') hrole'
      · rw [List.getElem?_append_right hge, List.getElem?_singleton] at hp'
        split at hp'
        · obtain rfl := Option.some.inj hp'
          exact ⟨nofun, nofun⟩
        · cases hp'
  | pass milliseconds _ => exact hcurrent p' hp' hrole'
  | @abandon j p q reason hp habandon =>
      rcases getElem?_set_cases hp' with ⟨rfl, rfl⟩ | ⟨-, hp'⟩
      · obtain ⟨-, -, hghost⟩ := (h.keeps _ p hp).abandon habandon
        rw [hghost] at hrole' ⊢
        exact hcurrent p hp hrole'
      · exact hcurrent p' hp' hrole'
  | @resume j p l op kont a v conn' server' hp htree hperformed =>
      rcases getElem?_set_cases hp' with ⟨rfl, rfl⟩ | ⟨-, hp'⟩
      · have hallowed := (h.keeps _ p hp).allowed htree
        have hrole : p.ghost.core.role = .keyed (some k) :=
          (p.ghost.after_role op v _).1.symm.trans hrole'
        exact h.current_performed (l := { l with activity := p.activity }) hp hrole
          (hcurrent p hp hrole) hr hallowed hperformed hr'
      · exact hcurrent p' hp' hrole'
  | late hk hholder halive hex => exact hcurrent p' hp' hrole'
  | drop hk => exact hcurrent p' hp' hrole'

/-- A commit is the only way from one history to the next, and it is made in the state before. -/
theorem State.entry_of_append (hnext : s.server.Enters s'.server) :
    s'.server.history = s.server.history ∨
      ∃ x, s'.server.history = s.server.history ++ [x] ∧ x.before = s.server.db.rows.committed ∧
        x.time = s.server.db.now := by
  rcases hnext with ⟨hhistory, -⟩ | ⟨j, c, hhistory, -⟩
  · exact .inl hhistory
  · exact .inr ⟨_, hhistory, rfl, rfl⟩

/-- From `s` to `s'` record `r` of scope `k` was there and had not expired; since `s` there were the
    commits `later`. -/
structure State.Retains (cfg : Config) (s s' : State W D) (k : Text) (r : IdempotencyORM) :
    Prop where
  stored : s'.server.db.rows.committed k = some r
  current : ∀ i, s.Current i k r → s'.Current i k r
  later : ∃ later, s'.server.history = s.server.history ++ later ∧
    ∀ x ∈ later, x.before k = some r ∧ ¬ r.Expired x.time

theorem State.Retains.refl (hr : s.server.db.rows.committed k = some r) :
    s.Retains cfg s k r where
  stored := hr
  current _ h := h
  later := ⟨[], (List.append_nil _).symm, nofun⟩

theorem State.Retains.next {m : State W D} (h : s.Retains cfg m k r) (hm : Coherent cfg m)
    {e : Event W D} (hnext : m.next cfg e = some s') (hunexpired : ¬ r.Expired s'.server.db.now) :
    s.Retains cfg s' k r := by
  have hmoved := State.moved_next hnext
  have hstored := (hm.records.kept hmoved h.stored).resolve_right hunexpired
  refine ⟨hstored, fun i hi => hm.current_next (h.current i hi) h.stored hnext hstored, ?_⟩
  obtain ⟨later, hhistory, hlater⟩ := h.later
  rcases State.entry_of_append (State.enters_next hnext) with hsame | ⟨x, hentry, hbefore, htime⟩
  · exact ⟨later, hsame.trans hhistory, hlater⟩
  · refine ⟨later ++ [x], ?_, fun y hy => ?_⟩
    · rw [hentry, hhistory, List.append_assoc]
    · rcases List.mem_append.mp hy with hy | hy
      · exact hlater y hy
      · obtain rfl := List.mem_singleton.mp hy
        rw [hbefore, htime]
        exact ⟨h.stored, fun hold => hunexpired (hold.mono hmoved.now_le)⟩

/-- Over every run. -/
theorem Coherent.retains_run {es : List (Event W D)} (h : Coherent cfg s)
    (hr : s.server.db.rows.committed k = some r)
    (hrun : (mutationSystem cfg W D).run s es = some s')
    (hunexpired : ¬ r.Expired s'.server.db.now) : s.Retains cfg s' k r := by
  refine ((System.run_preserves (S := mutationSystem cfg W D)
    (P := fun m => Coherent cfg m ∧ (r.Expired m.server.db.now ∨ s.Retains cfg m k r))
    (fun m e m' hm hnext => ⟨hm.1.next hnext, ?_⟩) ⟨h, .inr (.refl hr)⟩ hrun).2).resolve_left
    hunexpired
  by_cases hexpired : r.Expired m'.server.db.now
  · exact .inl hexpired
  · refine .inr ((hm.2.resolve_left fun hold => hexpired ?_).next hm.1 hnext hexpired)
    exact hold.mono (State.moved_next hnext).now_le

end Steps

-- ============================================================================
-- Successes
-- ============================================================================

section Successes

variable {s s' : State W D} {i : Nat} {p : Process W D} {k : Text} {r : IdempotencyORM}

/-- A request of scope `k` that succeeds returns the record it has completed or read. -/
theorem Coherent.returns_current (h : Coherent cfg s) (hp : s.processes[i]? = some p)
    {req : Request W D} (hjob : p.job = .request req) (hrole : req.role cfg = .keyed (some k))
    (hcurrent : s.Current i k r) {l : Local W} {response : Response}
    (htree : p.tree = .ret l (.ok (some response))) (hstatus : response.status < 400) :
    l.vars.fingerprint = some r.fingerprint ∧ r.responseStatus = some response.status ∧
      r.responseBody = some response.body := by
  have hfinished := h.returned hp hjob htree
  have hcore : p.ghost.core.role = .keyed (some k) := by
    rw [(h.keeps i p hp).role, hjob]
    exact hrole
  have hmine := hcurrent p hp hcore
  have hkeyed : (req.role cfg).isKeyed = true := by
    rw [hrole]
    rfl
  rcases hfinished.keyed response rfl hkeyed hstatus with
    ⟨claim, writes, hcommitted, hfingerprint⟩ | ⟨record, hrecord, hfingerprint, hresponse⟩
  · obtain ⟨status, body, t, hstored, rfl⟩ := hmine.committed claim writes hcommitted
    obtain ⟨-, -, -, hreturned⟩ := hfinished.committed response rfl _ writes hcommitted
    obtain ⟨rfl, rfl⟩ := Prod.mk.inj (Option.some.inj (hstored.symm.trans (hreturned claim rfl)))
    exact ⟨hfingerprint, rfl, rfl⟩
  · obtain rfl := hmine.found record hrecord
    exact ⟨hfingerprint, hresponse⟩

end Successes

/-- From a state in which a record of a scope is committed, over every run, until it expires: the
    record stays as it is, no later commit of a request of the scope whose dependencies only read
    holds writes, and every success of a request of the scope that has not read or completed an
    earlier record returns its fingerprint, status and body. -/
theorem keyed_mutation_at_most_once (cfg : Config) {s s' : State W D} {es : List (Event W D)}
    (hs : (mutationSystem cfg W D).Reachable s) {k : Text} {r : IdempotencyORM}
    (hr : s.server.db.rows.committed k = some r)
    (hrun : (mutationSystem cfg W D).run s es = some s')
    (hunexpired : ¬ r.Expired s'.server.db.now) :
    s'.server.db.rows.committed k = some r ∧
      (∃ later, s'.server.history = s.server.history ++ later ∧
        ∀ x ∈ later, ∀ p req, s'.processes[x.mutation]? = some p → p.job = .request req →
          req.role cfg = .keyed (some k) → req.guarded = true → x.writes = []) ∧
      ∀ (i : Nat) (p : Process W D) req l response, s'.processes[i]? = some p →
        p.job = .request req → req.role cfg = .keyed (some k) → s.Current i k r →
        p.tree = .ret l (.ok (some response)) → response.status < 400 →
        l.vars.fingerprint = some r.fingerprint ∧ r.responseStatus = some response.status ∧
          r.responseBody = some response.body := by
  have h := (coherent_invariant cfg).of_reachable hs
  have h' := (chronicle_invariant cfg).of_reachable (hs.run hrun)
  have hretains := h.retains_run hr hrun hunexpired
  obtain ⟨later, hhistory, hlater⟩ := hretains.later
  refine ⟨hretains.stored, ⟨later, hhistory, fun x hx p req hp hjob hrole hguarded => ?_⟩,
    fun i p req l response hp hjob hrole hcurrent htree hstatus =>
      h'.coherent.returns_current hp hjob hrole (hretains.current i hcurrent) htree hstatus⟩
  obtain ⟨q, hq, -, haccounts⟩ := h'.entries x (by
    rw [hhistory]
    exact List.mem_append_right _ hx)
  obtain rfl := Option.some.inj (hp.symm.trans hq)
  obtain ⟨hbefore, htime⟩ := hlater x hx
  have hkeeps := h'.coherent.keeps _ p hp
  refine (haccounts.keeps hbefore htime).2 ?_ ?_
  · rw [hkeeps.role, hjob]
    exact hrole
  · rw [hkeeps.guarded, hjob]
    exact hguarded

-- ============================================================================
-- Samples
-- ============================================================================

/-- The response a request has returned. -/
def Process.returned (p : Process W D) : Option Response :=
  match p.tree with
  | .ret _ (.ok response) => response
  | _ => none

theorem Process.tree_of_returned {p : Process W D} {response : Response}
    (h : p.returned = some response) : ∃ l, p.tree = .ret l (.ok (some response)) := by
  unfold Process.returned at h
  split at h
  · next l r htree => exact ⟨l, h ▸ htree⟩
  · cases h

/-- A request like the sample, whose endpoint writes and returns `1`. -/
def returningRequest : Request Unit Unit :=
  { sampleRequest with
    endpoint := fun _ => .call () (.execute ()) fun _ _ => .ret () (.ok ⟨true, false, 201, [49]⟩) }

/-- The record of its claim, completed at the time `now`. -/
def returnedRecord (now : Nat) : IdempotencyORM := sampleRecord.complete 201 [49] now

/-- It arrives and returns. -/
def returningRun : List (Event Unit Unit) :=
  .arrive (.request returningRequest) .new false none :: .resume 0 .done ::
    .resume 0 (.connection 0) :: (List.replicate 8 (.resume 0 .done) ++ .resume 0 (.data ()) ::
      (List.replicate 6 (.resume 0 .done) ++ [.resume 0 (.data ())]))

/-- A second one finds the record and returns. -/
def replayingRun : List (Event Unit Unit) :=
  .arrive (.request returningRequest) .new false none :: .resume 1 .done ::
    .resume 1 (.connection 0) :: (List.replicate 10 (.resume 1 .done) ++ [.resume 1 (.data ())])

/-- The second request returns what the first one has committed. -/
theorem keyed_mutation_at_most_once_replayed :
    ∃ s s' p response, (mutationSystem sampleConfig Unit Unit).run sampleStart returningRun = some s ∧
      (mutationSystem sampleConfig Unit Unit).run s replayingRun = some s' ∧
      s'.processes[1]? = some p ∧ p.returned = some response ∧
      (returnedRecord 0).responseStatus = some response.status ∧
      (returnedRecord 0).responseBody = some response.body := by
  have hrun : (((mutationSystem sampleConfig Unit Unit).run sampleStart returningRun).any fun s =>
      decide (s.server.db.rows.committed ['h'] = some (returnedRecord 0)) &&
      decide (s.processes.length = 1) &&
      ((mutationSystem sampleConfig Unit Unit).run s replayingRun).any fun s' =>
        decide (s'.server.db.now = 0) &&
        decide ((s'.processes.map fun p =>
          (p.job.role sampleConfig, p.returned.map Response.status))[1]? =
            some (.keyed (some ['h']), some 201))) = true := by
    decide +kernel
  simp only [Option.any_eq_true, Bool.and_eq_true, decide_eq_true_eq] at hrun
  obtain ⟨s, hs, ⟨hrow, hlength⟩, s', hs', hnow, hsecond⟩ := hrun
  rw [List.getElem?_map] at hsecond
  obtain ⟨p, hp, hpair⟩ := Option.map_eq_some_iff.mp hsecond
  obtain ⟨hrole, hreturned⟩ := Prod.mk.inj hpair
  obtain ⟨response, hresponse, hstatus⟩ := Option.map_eq_some_iff.mp hreturned
  obtain ⟨l, htree⟩ := Process.tree_of_returned hresponse
  -- the second request has not been there yet
  have hcurrent : s.Current 1 ['h'] (returnedRecord 0) := by
    intro q hq
    have hlt := (List.getElem?_eq_some_iff.mp hq).1
    rw [hlength] at hlt
    exact absurd hlt (lt_irrefl 1)
  have hunexpired : ¬ (returnedRecord 0).Expired s'.server.db.now := by
    rw [hnow]
    decide
  cases hjob : p.job with
  | sweep limit =>
      rw [hjob] at hrole
      cases hrole
  | request req =>
      rw [hjob] at hrole
      obtain ⟨-, -, hreturns⟩ :=
        keyed_mutation_at_most_once sampleConfig (sample_reachable hs) hrow hs' hunexpired
      obtain ⟨-, hsame⟩ := hreturns 1 p req l response hp hjob hrole hcurrent htree (by
        rw [hstatus]
        decide)
      exact ⟨s, s', p, response, hs, hs', hp, hresponse, hsame⟩

/-- In the event from `s` to `s'` request `i` of scope `k` returns `response`. -/
structure State.Answers (cfg : Config) (s s' : State W D) (i : Nat) (k : Text)
    (response : Response) : Prop where
  before : ∃ p, s.processes[i]? = some p ∧ p.job.role cfg = .keyed (some k) ∧
    p.tree.pending ≠ none
  behind : ∃ p, s'.processes[i]? = some p ∧ p.returned = some response

/-- A record that was completed a day ago, but for a millisecond. -/
def lateStart : State Unit Unit :=
  ⟨.start 86399999 (fun k => if k = ['h'] then some (sampleRecord.complete 200 [48] 0) else none) 0,
    []⟩

/-- A first request reads that record, commits and releases its lock; a second one finds it expired,
    and commits a new one; the first has still to close its session. -/
def lateRun : List (Event Unit Unit) :=
  .arrive (.request returningRequest) .new false none :: .resume 0 .done ::
    .resume 0 (.connection 0) :: (List.replicate 9 (.resume 0 .done) ++ .pass 0 1 ::
      .arrive (.request returningRequest) .new false none :: .resume 1 .done ::
      .resume 1 (.connection 1) :: (List.replicate 9 (.resume 1 .done) ++ .resume 1 (.data ()) ::
        (List.replicate 4 (.resume 1 .done) ++ [.resume 0 .done])))

/-- A request like the sample, with a dependency that writes. -/
def writingRequest : Request Unit Unit :=
  { returningRequest with
    dependencies :=
      .call () (.execute ()) fun _ _ => .ret () (.ok ⟨⟨.null, .null, .null⟩, (), false⟩)
    guarded := false
    dependencies_readOnly := fun h => absurd h Bool.false_ne_true }

/-- It comes second, up to its commit. -/
def writingRun : List (Event Unit Unit) :=
  .arrive (.request writingRequest) .new false none :: .resume 1 .done ::
    .resume 1 (.connection 0) :: (List.replicate 2 (.resume 1 .done) ++ .resume 1 (.data ()) ::
      List.replicate 6 (.resume 1 .done))

/-- While a record is unexpired, a request that had read the one before returns that one; and a
    request whose dependency writes commits what it wrote, with the record that it replays. -/
theorem keyed_mutation_exceptions :
    (∃ s s', (mutationSystem sampleConfig Unit Unit).init lateStart ∧
      (mutationSystem sampleConfig Unit Unit).run lateStart lateRun = some s ∧
      s.next sampleConfig (.resume 0 (.data ())) = some s' ∧
      s.server.db.rows.committed ['h'] = some (returnedRecord 86400000) ∧
      s'.server.db.rows.committed ['h'] = some (returnedRecord 86400000) ∧
      ¬ (returnedRecord 86400000).Expired s'.server.db.now ∧
      s.Answers sampleConfig s' 0 ['h'] ⟨true, false, 200, [48]⟩) ∧
    ∃ s e x, (mutationSystem sampleConfig Unit Unit).run sampleStart (returningRun ++ writingRun) =
        some s ∧
      s.server.history = [e, x] ∧ e.after ['h'] = some (returnedRecord 0) ∧
      ¬ (returnedRecord 0).Expired x.time ∧
      (∃ p, s.processes[x.mutation]? = some p ∧ p.job.role sampleConfig = .keyed (some ['h'])) ∧
      x.writes = [()] := by
  constructor
  · have hrun : (((mutationSystem sampleConfig Unit Unit).run lateStart lateRun).any fun s =>
        decide (s.server.db.rows.committed ['h'] = some (returnedRecord 86400000)) &&
        decide ((s.processes.map fun p => (p.job.role sampleConfig, p.tree.pending.isSome))[0]? =
          some (.keyed (some ['h']), true)) &&
        (s.next sampleConfig (.resume 0 (.data ()))).any fun s' =>
          decide (s'.server.db.rows.committed ['h'] = some (returnedRecord 86400000)) &&
          decide (s'.server.db.now = 86400000) &&
          decide ((s'.processes.map Process.returned)[0]? =
            some (some ⟨true, false, 200, [48]⟩))) = true := by
      decide +kernel
    simp only [Option.any_eq_true, Bool.and_eq_true, decide_eq_true_eq, List.getElem?_map] at hrun
    obtain ⟨s, hs, ⟨hrow, hbefore⟩, s', hs', ⟨hrow', hnow⟩, hbehind⟩ := hrun
    obtain ⟨p, hp, hpair⟩ := Option.map_eq_some_iff.mp hbefore
    obtain ⟨hrole, hpending⟩ := Prod.mk.inj hpair
    refine ⟨s, s', ?_, hs, hs', hrow, hrow', ?_, ⟨⟨p, hp, hrole, ?_⟩,
      Option.map_eq_some_iff.mp hbehind⟩⟩
    · refine ⟨_, _, _, fun k r hr => ?_, rfl⟩
      obtain ⟨rfl, hr⟩ := Option.ite_none_right_eq_some.mp hr
      obtain rfl := Option.some.inj hr
      exact ⟨.of_complete (by decide) _ _, rfl⟩
    · rw [hnow]
      decide
    · exact Option.isSome_iff_ne_none.mp hpending
  · have hrun : (((mutationSystem sampleConfig Unit Unit).run sampleStart
        (returningRun ++ writingRun)).any fun s =>
          decide (s.server.history.map (fun e => (e.mutation, e.time, e.writes)) =
            [(0, 0, [()]), (1, 0, [()])]) &&
          decide ((s.server.history.map fun e => e.after ['h'])[0]? =
            some (some (returnedRecord 0))) &&
          decide ((s.processes.map fun p => p.job.role sampleConfig)[1]? =
            some (.keyed (some ['h'])))) = true := by
      decide +kernel
    simp only [Option.any_eq_true, Bool.and_eq_true, decide_eq_true_eq, List.getElem?_map] at hrun
    obtain ⟨s, hs, ⟨hhistory, hfirst⟩, hsecond⟩ := hrun
    obtain ⟨e, rest, hcons, -, hrest⟩ := List.map_eq_cons_iff.mp hhistory
    obtain ⟨x, rest', rfl, hx, hnil⟩ := List.map_eq_cons_iff.mp hrest
    obtain rfl := List.map_eq_nil_iff.mp hnil
    obtain ⟨hmutation, hx⟩ := Prod.mk.inj hx
    obtain ⟨htime, hwrites⟩ := Prod.mk.inj hx
    rw [hcons] at hfirst
    refine ⟨s, e, x, hs, hcons, Option.some.inj hfirst, ?_, ?_, hwrites⟩
    · rw [htime]
      decide
    · rw [hmutation]
      exact Option.map_eq_some_iff.mp hsecond

end QuickApi.Mutation
