/-
  QuickApi.Mutation.Atomicity

  What a run leaves of one request: nothing, or one commit with all its writes
  and, of a new claim, the completed record, sent behind a check that has
  passed; and a scope that is as the request has found it.
-/

import QuickApi.Mutation.Abandonment
import QuickApi.Mutation.AtMostOnce

namespace QuickApi.Mutation

open QuickApi.Fingerprint (Text)
open QuickApi.Lib

variable {W D : Type} {cfg : Config}

-- ============================================================================
-- The claim of a transaction
-- ============================================================================

/-- The claim of the transaction that was committed, or may be. -/
def Core.claim (core : Core W) : Option Claim :=
  match core.committed with
  | some (claim, _) => claim
  | none => core.view.claim

/-- A commit without a claim leaves the records alone; with one it stores the claim, completed with
    the response that was sent with it. -/
structure Commit.Claims (e : Commit W) (core : Core W) (sent : Option Response) : Prop where
  none : core.role ≠ .sweep → core.claim = none → e.after = e.before
  some : ∀ claim, core.claim = some claim →
    core.role = .keyed (some claim.record.scopeHash) ∧ ∃ r t, sent = some r ∧ t ≤ e.time ∧
      e.after = Function.update e.before claim.record.scopeHash
        (some (claim.record.complete r.status r.body t))

section Claims

variable {db : Database W} {c i : Nat} {core : Core W} {fresh : Bool} {vars : Vars}

theorem Linked.claims (h : Linked cfg db c core.role core.view)
    (hallowed : Stmt.commit.Allowed cfg core fresh vars) :
    (db.entry i c).Claims core vars.response := by
  have hclaim : core.claim = core.view.claim := by
    unfold Core.claim
    rw [hallowed.1]
  constructor
  case none =>
    intro hrole hnone
    rw [hclaim] at hnone
    obtain ⟨-, r, -, hcommittable⟩ := hallowed.2.resolve_left hrole
    exact h.same_rows hrole hnone fun hkeyed => hcommittable.kept hkeyed hnone
  case some =>
    intro claim hsome
    rw [hclaim] at hsome
    obtain ⟨hkeyed, -, -, -, row, hrow, hclaimRow⟩ := h.claimed claim hsome
    have hrole : core.role ≠ .sweep := by
      rw [hkeyed]
      exact nofun
    obtain ⟨-, r, hresponse, hcommittable⟩ := hallowed.2.resolve_left hrole
    have hstored := hcommittable.claimed claim hsome
    refine ⟨hkeyed, r, ?_⟩
    rcases hclaimRow with ⟨hnone, -⟩ | ⟨status, body, t, hbody, ht, rfl, -⟩
    · rw [hstored] at hnone
      cases hnone
    · obtain ⟨rfl, rfl⟩ := Prod.mk.inj (Option.some.inj (hstored.symm.trans hbody))
      exact ⟨t, hresponse, ht, h.claimed_rows hsome hrow⟩

theorem Commit.Claims.congr {e : Commit W} {core core' : Core W} {sent sent' : Option Response}
    (h : e.Claims core sent) (hrole : core'.role = core.role) (hclaim : core'.claim = core.claim)
    (hsent : sent' = sent) : e.Claims core' sent' := by
  obtain rfl := hsent
  obtain ⟨hnone, hsome⟩ := h
  constructor
  case none =>
    rw [hrole, hclaim]
    exact hnone
  case some =>
    rw [hrole, hclaim]
    exact hsome

/-- A mutation that is done keeps its claim. -/
theorem Core.Done.claim {g : Ghost W} (h : g.core.Done) {op : Op W} {vars : Vars}
    (hallowed : op.Allowed cfg g.core g.fresh vars) (a : op.Ans D) (s : Local W) :
    (g.after op a s).core.claim = g.core.claim := by
  have hsettled := (h.after hallowed a s).2.committed
  cases hcommitted : g.core.committed with
  | some x =>
      unfold Core.claim
      rw [hsettled, hcommitted]
  | none =>
      -- its connection is gone, so that no statement is answered any more
      obtain ⟨htaken, hgone⟩ := h.resolve_left fun hne => hne hcommitted
      have hview : (g.after op a s).core.view = g.core.view := by
        cases op with
        | checkout =>
            rw [show g.core.taken = false from hallowed] at htaken
            cases htaken
        | stmt st =>
            obtain ⟨hout, hdoomed, -⟩ := hallowed
            exact absurd (hdoomed.symm.trans (hgone hout)) nofun
        | _ => rfl
      unfold Core.claim
      rw [hsettled, hcommitted, hview]

end Claims

-- ============================================================================
-- Events
-- ============================================================================

/-- What an event leaves of mutation `p`. -/
inductive Process.Follows (p : Process W D) : Process W D → Prop where
  | waits {p' : Process W D} (tree : p'.tree = p.tree) (ghost : p'.ghost = p.ghost)
      (sessionKey : p'.sessionKey = p.sessionKey) : p.Follows p'
  | resumes {l : Local W} {op : Op W}
      {kont : op.Ans D → Local W →
        Coro (Op W) (Op.Ans D) (Local W) (Except Exc (Option Response))}
      {p' : Process W D} (tree : p.tree = .call l op kont) (a : op.Ans D)
      (ghost : p'.ghost = p.ghost.after op a { l with activity := p.activity })
      (sessionKey : p'.sessionKey = p.sessionKey) : p.Follows p'

section Events

variable {s s' : State W D} {i c : Nat} {p p' : Process W D} {e : Event W D}

theorem Coherent.follows (h : Coherent cfg s) (hnext : s.next cfg e = some s')
    (hp : s.processes[i]? = some p) (hp' : s'.processes[i]? = some p') : p.Follows p' := by
  have hi : i < s.processes.length := (List.getElem?_eq_some_iff.mp hp).1
  have hsame (hq : s.processes[i]? = some p') : p.Follows p' := by
    obtain rfl := Option.some.inj (hp.symm.trans hq)
    exact .waits rfl rfl rfl
  cases State.stepped hnext with
  | arrive job activity sessionKey context =>
      exact hsame ((List.getElem?_append_left hi).symm.trans hp')
  | pass milliseconds _ => exact hsame hp'
  | abandon hq habandon =>
      rcases getElem?_set_cases hp' with ⟨rfl, rfl⟩ | ⟨-, hp'⟩
      · obtain rfl := Option.some.inj (hp.symm.trans hq)
        obtain ⟨-, -, hghost⟩ := (h.keeps _ p hp).abandon habandon
        unfold Process.abandon at habandon
        split at habandon
        · cases habandon
        · obtain rfl := Option.some.inj habandon
          exact .waits rfl hghost rfl
      · exact hsame hp'
  | resume hq htree hperformed =>
      rcases getElem?_set_cases hp' with ⟨rfl, rfl⟩ | ⟨-, hp'⟩
      · obtain rfl := Option.some.inj (hp.symm.trans hq)
        exact .resumes htree _ rfl rfl
      · exact hsame hp'
  | late hk hholder halive hex => exact hsame hp'
  | drop hk => exact hsame hp'

/-- COMMIT of mutation `i` was sent: it is awaited, still on its way, or executed. -/
def State.Sent (s : State W D) (i : Nat) : Prop :=
  (∃ p, s.processes[i]? = some p ∧ p.Committing) ∨ s.server.Pending i ∨
    ∃ x ∈ s.server.history, x.mutation = i

/-- An operation that comes back enters its own commit only. -/
theorem Chronicle.entered_performed (h : Chronicle cfg s) (hp : s.processes[i]? = some p)
    {l : Local W} {op : Op W}
    {kont : op.Ans D → Local W → Coro (Op W) (Op.Ans D) (Local W) (Except Exc (Option Response))}
    (htree : p.tree = .call l op kont) {v : op.Ans D} {conn' : Option Nat} {server' : Server W}
    (hperformed : s.server.Performed i p.connection op v conn' server') {x : Commit W}
    (hx : x ∈ server'.history) :
    x ∈ s.server.history ∨ x.mutation = i ∧ p.Committing ∧
      x.Claims (p.ghost.after op v { l with activity := p.activity }).core
        (p.ghost.after op v { l with activity := p.activity }).sent := by
  have hallowed := (h.coherent.keeps i p hp).allowed htree
  by_cases hop : op = .stmt .commit
  · subst hop
    obtain ⟨hout, hdoomed, hcommit⟩ := hallowed
    cases hperformed with
    | stmt hc hk hholder hexchange =>
        rcases Server.exchange_cases hexchange with ⟨e, -, rfl⟩ | ⟨e, -, -, rfl⟩ |
          ⟨v, rfl, halive, hex⟩
        · exact .inl hx
        · exact .inl hx
        · obtain ⟨-, hlinked⟩ := h.coherent.mine hp hout hdoomed hc hk
          obtain ⟨-, hhistory⟩ := Server.execute_commit hex
          rw [hhistory] at hx
          refine (List.mem_append.mp hx).imp_right fun hnew => ?_
          obtain rfl := List.mem_singleton.mp hnew
          refine ⟨rfl, ?_, ?_⟩
          · unfold Process.Committing
            rw [htree]
            rfl
          · refine ((hlinked halive).claims hcommit).congr rfl ?_ rfl
            unfold Core.claim
            rw [hcommit.1]
            rfl
  · obtain ⟨hhistory, -⟩ := hperformed.history hop
    exact .inl (hhistory ▸ hx)

/-- What is new in the history was sent by its mutation, and does what its claim says. -/
theorem Chronicle.entered (h : Chronicle cfg s) (hnext : s.next cfg e = some s') {x : Commit W}
    (hx : x ∈ s'.server.history) :
    x ∈ s.server.history ∨ s.Sent x.mutation ∧ ∃ p', s'.processes[x.mutation]? = some p' ∧
      x.Claims p'.ghost.core p'.ghost.sent := by
  cases State.stepped hnext with
  | arrive job activity sessionKey context => exact .inl hx
  | pass milliseconds _ => exact .inl hx
  | abandon hp habandon => exact .inl hx
  | resume hp htree hperformed =>
      refine (h.entered_performed hp htree hperformed hx).imp_right ?_
      rintro ⟨rfl, hcommitting, hclaims⟩
      have hi := (List.getElem?_eq_some_iff.mp hp).1
      exact ⟨.inl ⟨_, hp, hcommitting⟩, _, List.getElem?_set_self hi, hclaims⟩
  | @late d k j st a v sv hk hholder halive hex =>
      by_cases hst : st = .commit
      · subst hst
        have hfits := (h.coherent.fits d k hk).2
        rw [hholder] at hfits
        obtain ⟨p, hp, -, -, hsent⟩ := hfits
        obtain ⟨hlinked, fresh, vars, hallowed, hvars⟩ := hsent halive .commit rfl
        change x ∈ sv.history at hx
        rw [(Server.execute_commit hex).2] at hx
        refine (List.mem_append.mp hx).imp_right fun hnew => ?_
        obtain rfl := List.mem_singleton.mp hnew
        refine ⟨.inr (.inl ⟨d, k, hk, hholder⟩), p, hp, ?_⟩
        rw [hvars rfl]
        exact hlinked.claims hallowed
      · change x ∈ sv.history at hx
        rw [(Server.execute_other hst hex).1] at hx
        exact .inl hx
  | drop hk => exact .inl hx

/-- Where COMMIT of a request was sent in an event, its activity had just been checked. -/
theorem Chronicle.sent_next (h : Chronicle cfg s) (hnext : s.next cfg e = some s')
    (hp' : s'.processes[i]? = some p') {req : Request W D} (hjob : p'.job = .request req)
    (hsent : s'.Sent i) :
    s.Sent i ∨ p'.Committing ∧ ∃ p, s.processes[i]? = some p ∧ p.tree.pending = some .clock ∧
      p.activity.Active s.server.monotonic := by
  rcases hsent with ⟨q, hq, hcommitting⟩ | hpending | ⟨x, hx, rfl⟩
  · obtain rfl := Option.some.inj (hp'.symm.trans hq)
    obtain ⟨p, hp, ⟨hold, -⟩ | hchecked⟩ := h.coherent.sent hnext hp' hjob hcommitting
    · exact .inl (.inl ⟨p, hp, hold⟩)
    · exact .inr ⟨hcommitting, p, hp, hchecked⟩
  · left
    cases State.stepped hnext with
    | arrive job activity sessionKey context => exact .inr (.inl hpending)
    | pass milliseconds _ => exact .inr (.inl hpending)
    | abandon hp habandon => exact .inr (.inl hpending)
    | @resume j p l op kont a v conn' server' hp htree hperformed =>
        have hallowed := (h.coherent.keeps j p hp).allowed htree
        rcases (h.coherent.reheld hp hallowed hperformed).2 i hpending with hold | ⟨rfl, rfl⟩
        · exact .inr (.inl hold)
        · refine .inl ⟨p, hp, ?_⟩
          unfold Process.Committing
          rw [htree]
          rfl
    | late hk hholder halive hex =>
        exact .inr (.inl ((Server.reheld_late hk hholder hex).2 i hpending))
    | drop hk => exact .inr (.inl ((Server.reheld_drop hk _).2 i hpending))
  · exact .inl ((h.entered hnext hx).elim (fun hold => .inr (.inr ⟨x, hold, rfl⟩)) And.left)

end Events

-- ============================================================================
-- The claims of the history
-- ============================================================================

section Attributed

variable {s s' : State W D}

/-- Every commit does what the claim of its mutation says. -/
structure Attributed (cfg : Config) (s : State W D) : Prop where
  chronicle : Chronicle cfg s
  claims : ∀ x ∈ s.server.history, ∀ p, s.processes[x.mutation]? = some p →
    x.Claims p.ghost.core p.ghost.sent

theorem Attributed.next (h : Attributed cfg s) {e : Event W D} (hnext : s.next cfg e = some s') :
    Attributed cfg s' where
  chronicle := h.chronicle.next hnext
  claims x hx p' hp' := by
    rcases h.chronicle.entered hnext hx with hold | ⟨-, q, hq, hclaims⟩
    · obtain ⟨p, hp, hdone, -⟩ := h.chronicle.entries x hold
      have hclaims := h.claims x hold p hp
      cases h.chronicle.coherent.follows hnext hp hp' with
      | waits tree ghost sessionKey => exact ghost ▸ hclaims
      | @resumes l op kont _ tree a ghost sessionKey =>
          have hallowed := (h.chronicle.coherent.keeps _ p hp).allowed tree
          rw [ghost]
          exact hclaims.congr (p.ghost.after_role op a _).1 (hdone.claim hallowed a _)
            (hdone.after hallowed a _).2.sent
    · obtain rfl := Option.some.inj (hp'.symm.trans hq)
      exact hclaims

theorem attributed_invariant (cfg : Config) :
    (mutationSystem cfg W D).Invariant (Attributed cfg) where
  init s hinit := by
    have hchronicle := chronicle_init hinit
    obtain ⟨now, rows, monotonic, -, rfl⟩ := hinit
    exact ⟨hchronicle, nofun⟩
  step _ _ _ h := h.next

end Attributed

-- ============================================================================
-- Requests that are refused
-- ============================================================================

section Refused

variable {s s' : State W D} {i : Nat}

/-- A request whose scope holds a session key on arrival is refused, and has done nothing. -/
def Process.Refused (p : Process W D) : Prop :=
  (∃ l, p.tree = .ret l
    (.error (.runtimeError "A mutation transaction already owns this request."))) ∧
    p.ghost.core.committed = none ∧ p.ghost.core.taken = false

theorem Process.Refused.follows {p p' : Process W D} (h : p.Refused) (hfollows : p.Follows p') :
    p'.Refused := by
  obtain ⟨⟨l, htree⟩, hcommitted, htaken⟩ := h
  cases hfollows with
  | waits tree ghost sessionKey =>
      rw [← ghost] at hcommitted htaken
      exact ⟨⟨l, tree.trans htree⟩, hcommitted, htaken⟩
  | resumes tree a ghost sessionKey =>
      rw [htree] at tree
      cases tree

theorem Process.Refused.not_done {p : Process W D} (h : p.Refused) : ¬ p.ghost.core.Done := by
  obtain ⟨-, hcommitted, htaken⟩ := h
  rintro (hne | ⟨htrue, -⟩)
  · exact hne hcommitted
  · rw [htaken] at htrue
    cases htrue

/-- Requests that arrive with a session key are refused. -/
structure Refusing (cfg : Config) (s : State W D) : Prop where
  coherent : Coherent cfg s
  refused : ∀ (i : Nat) (p : Process W D) req, s.processes[i]? = some p → p.job = .request req →
    p.sessionKey = true → p.Refused

theorem Refusing.next (h : Refusing cfg s) {e : Event W D} (hnext : s.next cfg e = some s') :
    Refusing cfg s' where
  coherent := h.coherent.next hnext
  refused i p' req hp' hjob hkey := by
    cases hp : s.processes[i]? with
    | some p =>
        obtain ⟨q, hq, hmoves⟩ := State.moves hnext hp
        obtain rfl := Option.some.inj (hp'.symm.trans hq)
        have hsame := (hmoves.later ((h.coherent.next hnext).keeps i p' hp')).1
        have hfollows := h.coherent.follows hnext hp hp'
        refine (h.refused i p req hp (hsame.symm.trans hjob) ?_).follows hfollows
        cases hfollows with
        | waits tree ghost sessionKey => exact sessionKey.symm.trans hkey
        | resumes tree a ghost sessionKey => exact sessionKey.symm.trans hkey
    | none =>
        obtain ⟨job, activity, sessionKey, context, rfl⟩ := State.arrived hnext hp hp'
        obtain rfl : job = .request req := hjob
        obtain rfl : sessionKey = true := hkey
        exact ⟨⟨_, rfl⟩, rfl, rfl⟩

theorem refusing_invariant (cfg : Config) :
    (mutationSystem cfg W D).Invariant (Refusing cfg) where
  init s hinit := by
    refine ⟨coherent_init hinit, fun i p req hp => ?_⟩
    obtain ⟨now, rows, monotonic, -, rfl⟩ := hinit
    cases hp
  step _ _ _ h := h.next

end Refused

-- ============================================================================
-- The outcome of a request
-- ============================================================================

/-- Where the images under `f` are distinct, an element is alone with its own. -/
theorem filter_eq_singleton {α β : Type} [DecidableEq β] {f : α → β} {xs : List α}
    (h : (xs.map f).Nodup) {x : α} (hx : x ∈ xs) : xs.filter (fun y => f y = f x) = [x] := by
  induction xs with
  | nil => cases hx
  | cons y xs ih =>
      obtain ⟨hy, htail⟩ := List.nodup_cons.mp h
      rcases List.mem_cons.mp hx with rfl | hx
      · rw [List.filter_cons_of_pos (by simp), List.filter_eq_nil_iff.mpr]
        intro z hz
        simp only [decide_eq_true_eq]
        exact fun heq => hy (heq ▸ List.mem_map_of_mem hz)
      · rw [List.filter_cons_of_neg, ih htail hx]
        simp only [decide_eq_true_eq]
        exact fun heq => hy (heq ▸ List.mem_map_of_mem hx)

section Outcome

variable {s₀ s : State W D} {es : List (Event W D)} {i : Nat} {p : Process W D}

/-- The commits of mutation `i`. -/
def State.commits (s : State W D) (i : Nat) : List (Commit W) :=
  s.server.history.filter fun x => x.mutation = i

/-- Request `p` has committed `x`, with all its writes and the claim it may have, and `r` is what
    it has prepared and, if it returns, returns. -/
structure Commit.Whole (x : Commit W) (p : Process W D) (r : Response) : Prop where
  prepared : p.ghost.sent = some r
  success : r.Success
  writes : x.writes = p.ghost.core.written
  claims : x.Claims p.ghost.core p.ghost.sent
  returned : ∀ l response, p.tree = .ret l (.ok (some response)) → response = r

/-- In the run of `es` from `s₀` mutation `i` has sent COMMIT in the step that has checked its
    activity. -/
def SentActive (cfg : Config) (s₀ : State W D) (es : List (Event W D)) (i : Nat) : Prop :=
  ∃ pre e post m m' q q', es = pre ++ e :: post ∧
    (mutationSystem cfg W D).run s₀ pre = some m ∧ m.next cfg e = some m' ∧
    m.processes[i]? = some q ∧ q.tree.pending = some .clock ∧
    q.activity.Active m.server.monotonic ∧ m'.processes[i]? = some q' ∧ q'.Committing

/-- Behind a request that has ended: the context is as it was, and so is the scope. -/
structure Process.Restored (p : Process W D) (l : Local W) (r : Except Exc (Option Response)) :
    Prop where
  context : l.vars.context = p.context
  removed : p.sessionKey = false → l.vars.sessionKey = false
  /-- a key of another owner stays, and the request is refused -/
  refused : p.sessionKey = true → l.vars.sessionKey = true ∧
    r = .error (.runtimeError "A mutation transaction already owns this request.")

/-- What is committed of a request is whole. -/
theorem Attributed.whole (h : Attributed cfg s) (hp : s.processes[i]? = some p)
    {req : Request W D} (hjob : p.job = .request req) {x : Commit W} (hx : x ∈ s.server.history)
    (hmutation : x.mutation = i) : ∃ r, x.Whole p r := by
  subst hmutation
  obtain ⟨q, hq, -, haccounts⟩ := h.chronicle.entries x hx
  obtain rfl := Option.some.inj (hp.symm.trans hq)
  have hrole : p.ghost.core.role ≠ .sweep := by
    rw [(h.chronicle.coherent.keeps _ p hp).role, hjob]
    show req.role cfg ≠ .sweep
    unfold Request.role
    split <;> exact nofun
  obtain ⟨r, hsent, hsuccess⟩ := haccounts.response hrole
  refine ⟨r, hsent, hsuccess, haccounts.writes, h.claims x hx p hp, fun l response htree => ?_⟩
  have hfinished := h.chronicle.coherent.returned hp hjob htree
  exact Option.some.inj ((hfinished.prepared response rfl).symm.trans (hfinished.sent r hsent))

/-- Only a mutation sends COMMIT. -/
theorem Chronicle.of_sent (h : Chronicle cfg s) (hsent : s.Sent i) :
    ∃ p, s.processes[i]? = some p := by
  rcases hsent with ⟨p, hp, -⟩ | ⟨c, k, hk, hholder⟩ | ⟨x, hx, rfl⟩
  · exact ⟨p, hp⟩
  · have hfits := (h.coherent.fits c k hk).2
    rw [hholder] at hfits
    obtain ⟨p, hp, -⟩ := hfits
    exact ⟨p, hp⟩
  · obtain ⟨p, hp, -⟩ := h.entries x hx
    exact ⟨p, hp⟩

/-- What is committed of a request was sent while it was active. -/
theorem sent_active (hinit : (mutationSystem cfg W D).init s₀)
    (hrun : (mutationSystem cfg W D).run s₀ es = some s) (hp : s.processes[i]? = some p)
    {req : Request W D} (hjob : p.job = .request req) (hsent : s.Sent i) :
    SentActive cfg s₀ es i := by
  let P (s : State W D) : Prop :=
    s.Sent i ∧ ∃ p req, s.processes[i]? = some p ∧ p.job = .request req
  have hnone : ¬ P s₀ := by
    rintro ⟨-, p, req, hp, -⟩
    obtain ⟨now, rows, monotonic, -, rfl⟩ := hinit
    cases hp
  obtain ⟨pre, e, post, m, m', rfl, hpre, hnext, hbefore, hsent', q', req', hq', hjob'⟩ :=
    System.run_reaches (P := P) hnone hrun ⟨hsent, p, req, hp, hjob⟩
  have hm := (chronicle_invariant cfg).of_reachable ⟨s₀, pre, hinit, hpre⟩
  rcases hm.sent_next hnext hq' hjob' hsent' with hold | ⟨hcommitting, q, hq, hclock, hactive⟩
  · -- it was sent before, by the same request
    obtain ⟨q, hq⟩ := hm.of_sent hold
    obtain ⟨q'', hq'', hmoves⟩ := State.moves hnext hq
    obtain rfl := Option.some.inj (hq'.symm.trans hq'')
    have hsame := (hmoves.later ((hm.coherent.next hnext).keeps i q' hq')).1
    exact absurd ⟨hold, q, req', hq, hsame.symm.trans hjob'⟩ hbefore
  · exact ⟨pre, e, post, m, m', q, q', rfl, hpre, hnext, hq, hclock, hactive, hq', hcommitting⟩

end Outcome

/-- Over every run: of a request nothing is committed, or one transaction, whole, with the prepared
    response a success and the request active in the step that has sent COMMIT; what is committed
    changes by such transactions only; and a request that has ended leaves no session key of its own
    and the context as it was. -/
theorem transactional_route_atomic (cfg : Config) {s₀ s : State W D} {es : List (Event W D)}
    (hinit : (mutationSystem cfg W D).init s₀)
    (hrun : (mutationSystem cfg W D).run s₀ es = some s) :
    (∀ e s', s.next cfg e = some s' → s.server.Enters s'.server) ∧
      ∀ (i : Nat) (p : Process W D) req, s.processes[i]? = some p → p.job = .request req →
        (s.commits i = [] ∨
          ∃ x r, s.commits i = [x] ∧ x.Whole p r ∧ SentActive cfg s₀ es i) ∧
        ∀ l r, p.tree = .ret l r →
          p.Restored l r ∧ (p.sessionKey = true → s.commits i = []) := by
  have hs : (mutationSystem cfg W D).Reachable s := ⟨s₀, es, hinit, hrun⟩
  have h := (attributed_invariant cfg).of_reachable hs
  refine ⟨fun _ _ hnext => State.enters_next hnext, fun i p req hp hjob => ⟨?_, ?_⟩⟩
  · by_cases hsome : ∃ x ∈ s.server.history, x.mutation = i
    · obtain ⟨x, hx, rfl⟩ := hsome
      obtain ⟨r, hwhole⟩ := h.whole hp hjob hx rfl
      refine .inr ⟨x, r, filter_eq_singleton h.chronicle.once hx, hwhole, ?_⟩
      exact sent_active hinit hrun hp hjob (.inr (.inr ⟨x, hx, rfl⟩))
    · refine .inl (List.filter_eq_nil_iff.mpr fun x hx => ?_)
      simp only [decide_eq_true_eq]
      exact fun hmutation => hsome ⟨x, hx, hmutation⟩
  · intro l r htree
    have hrefused := (refusing_invariant cfg).of_reachable hs
    obtain ⟨r', rfl, hended⟩ := h.chronicle.coherent.ended hp hjob htree
    refine ⟨⟨hended.context, fun hkey => hended.sessionKey.trans hkey, fun hkey => ?_⟩,
      fun hkey => ?_⟩
    · obtain ⟨⟨l', htree'⟩, -⟩ := hrefused.refused i p req hp hjob hkey
      exact ⟨hended.sessionKey.trans hkey, (Coro.ret.inj (htree.symm.trans htree')).2⟩
    · refine List.filter_eq_nil_iff.mpr fun x hx => ?_
      simp only [decide_eq_true_eq]
      rintro rfl
      obtain ⟨q, hq, hdone, -⟩ := h.chronicle.entries x hx
      obtain rfl := Option.some.inj (hp.symm.trans hq)
      exact (hrefused.refused _ p req hp hjob hkey).not_done hdone

/-- The run of the sample request: one commit with its write, sent while it was active. -/
theorem transactional_route_atomic_sample :
    ∃ s p x r, (mutationSystem sampleConfig Unit Unit).run sampleStart sampleFirst = some s ∧
      s.processes[0]? = some p ∧ s.commits 0 = [x] ∧ x.writes = [()] ∧ x.Whole p r ∧
      SentActive sampleConfig sampleStart sampleFirst 0 := by
  have hrun : ((mutationSystem sampleConfig Unit Unit).run sampleStart sampleFirst).map
      (fun s => ((s.commits 0).map Commit.writes, s.processes.map fun p => p.job.role sampleConfig)) =
      some ([[()]], [.keyed (some ['h'])]) := by
    decide +kernel
  obtain ⟨s, hs, hseen⟩ := Option.map_eq_some_iff.mp hrun
  obtain ⟨hcommits, hjobs⟩ := Prod.mk.inj hseen
  obtain ⟨p, rest, hcons, hrole, -⟩ := List.map_eq_cons_iff.mp hjobs
  have hp : s.processes[0]? = some p := by
    rw [hcons]
    rfl
  cases hjob : p.job with
  | sweep limit =>
      rw [hjob] at hrole
      cases hrole
  | request req =>
      obtain ⟨hnone | ⟨x, r, hone, hwhole, hactive⟩, -⟩ :=
        (transactional_route_atomic sampleConfig sample_init hs).2 0 p req hp hjob
      · rw [hnone] at hcommits
        cases hcommits
      · rw [hone] at hcommits
        exact ⟨s, p, x, r, hs, hp, hone, (List.cons.inj hcommits).1, hwhole, hactive⟩

end QuickApi.Mutation
