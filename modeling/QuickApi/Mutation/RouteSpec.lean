/-
  QuickApi.Mutation.RouteSpec

  A transactional route keeps the contract, whatever its dependencies and its
  endpoint do and however its awaits end, and the response it returns is the
  one it has committed or found.
-/

import QuickApi.Mutation.ExecutionSpec

namespace QuickApi.Mutation

open QuickApi.Fingerprint (Text)
open QuickApi.Lib QuickApi.Lib.Program

section Specs

variable {W D α : Type} {cfg : Config} {K : Known W}

-- ============================================================================
-- The code of a route
-- ============================================================================

/-- The mutation may change the domain's rows. -/
def Writable (K : Known W) : Prop := K.role ≠ .sweep ∧ K.Writes

theorem work_meets {x : Work W} (hx : x.ReadOnly ∨ Writable K) :
    Meets cfg K.vars (Txn K) (x.run : Task W D (x.Ans D)) (fun _ => Txn K) (Txn K) := by
  cases x with
  | execute w =>
      obtain ⟨hrole, hclaimed⟩ := hx.resolve_left id
      exact Triple.attempt (write_meets w hrole hclaimed)
        (fun _ _ _ h => h.imp fun _ _ h => h.toTxn) fun _ _ _ h => h
  | query w => exact Triple.attempt (read_meets w) (fun _ _ _ h => h) fun _ _ _ h => h
  | add w =>
      obtain ⟨hrole, hclaimed⟩ := hx.resolve_left id
      exact add_meets w hrole hclaimed
  | flush => exact Triple.attempt flush_meets (fun _ _ _ h => h) fun _ _ _ h => h
  | pause => exact Triple.attempt pause_meets (fun _ _ _ h => h) fun _ _ _ h => h

/-- The code of a route stays inside the transaction, and knows no more behind it. -/
theorem runCode_meets {code : Code W D α} (hcode : ReadOnly code ∨ Writable K) :
    Meets cfg K.vars (Txn K) (runCode code) (fun _ => Txn K) (Txn K) := by
  induction code with
  | ret s r =>
      cases r with
      | ok a => exact meets_pure fun _ _ h => h
      | error e => exact meets_raise fun _ _ h => h
  | call s x k ih =>
      refine Meets.bind (work_meets (hcode.imp_left fun h => h.1)) fun a => ?_
      exact ih a () (hcode.imp_left fun h => h.2 a ())

-- ============================================================================
-- prepare
-- ============================================================================

/-- What is known when the transaction of a request opens. -/
structure Opened (cfg : Config) (req : Request W D) (K : Known W) : Prop where
  key : req.key = .ok K.vars.context
  role : K.role = req.role cfg
  guarded : K.guarded = req.guarded
  unlocked : Unlocked K
  response : K.vars.response = none

/-- What a keyed request has when its response is prepared. -/
def Prepared (K : Known W) (r : Response) : Prop :=
  K.role.isKeyed = true → HasClaim K ∨ Replays K r.status r.body

theorem Request.policy_of_key {req : Request W D} {key : Text} (h : req.key = .ok (some key)) :
    ∃ policy, req.policy = some policy := by
  unfold Request.key at h
  cases hp : req.policy with
  | some policy => exact ⟨policy, rfl⟩
  | none =>
      rw [hp] at h
      cases h

theorem Request.role_of_key (cfg : Config) {req : Request W D} {key : Text} {policy : Policy}
    (h : req.key = .ok (some key)) (hp : req.policy = some policy) :
    req.role cfg =
      .keyed ((identify cfg policy key).toOption.map Identity.scopeHash) := by
  unfold Request.role Request.scope
  rw [h, hp]

theorem Request.role_of_no_key {req : Request W D} (h : req.key = .ok none) :
    req.role cfg = .plain := by
  unfold Request.role
  rw [h]

/-- The endpoint of a request without a key. -/
theorem prepare_plain {req : Request W D} (hrole : K.role = .plain)
    (hcontext : K.vars.context = none) :
    Meets cfg K.vars (Txn K) (req.prepare cfg) (fun _ => Txn K) (Txn K) := by
  have hw : Writable K := by
    unfold Writable Known.Writes
    rw [hrole]
    exact ⟨nofun, nofun⟩
  refine Meets.bind (runCode_meets (.inr hw)) fun solved => meets_vars ?_
  rw [hcontext]
  exact runCode_meets (.inr hw)

theorem prepare_triple {req : Request W D} (hK : Opened cfg req K) :
    Triple (contract cfg) (At K.vars (Txn K)) (req.prepare cfg)
      (fun r => InTxn K fun K' => Prepared K' r) fun _ => InTxn K fun _ => True := by
  have hkey := hK.key
  cases hcontext : K.vars.context with
  | none =>
      rw [hcontext] at hkey
      have hrole := hK.role.trans (Request.role_of_no_key hkey)
      refine Triple.conseq (prepare_plain hrole hcontext) (fun _ _ h => h) (fun r g s h => ?_)
        fun _ => inTxn_of_txn (.refl K)
      refine ⟨K, .refl K, fun hk => ?_, h⟩
      rw [hrole] at hk
      cases hk
  | some key =>
      rw [hcontext] at hkey
      obtain ⟨policy, hp⟩ := Request.policy_of_key hkey
      have hrole := hK.role.trans (Request.role_of_key cfg hkey hp)
      have hkeyed : K.role.isKeyed = true := by
        rw [hrole]
        rfl
      have hdep : ReadOnly req.dependencies ∨ Writable K := by
        cases hg : req.guarded with
        | true => exact .inl (req.dependencies_readOnly hg)
        | false =>
            refine .inr ⟨?_, fun _ hguarded => ?_⟩
            · rw [hrole]
              exact nofun
            · rw [hK.guarded, hg] at hguarded
              cases hguarded
      refine Triple.bind ((runCode_meets hdep).raising (inTxn_of_txn (.refl K)))
        fun solved => ?_
      refine triple_vars ?_
      rw [hcontext, hp]
      refine Triple.bind (begin_triple (fun identity hid => ?_) hkeyed hK.unlocked)
        fun found => ?_
      · rw [hrole, hid]
        rfl
      · cases found with
        | some replay =>
            refine triple_pure ?_
            rintro g s ⟨K', hs, hreplay, h⟩
            exact ⟨K', hs, fun _ => .inr hreplay, h⟩
        | none =>
            rintro g s ⟨K', hs, hclaim, h⟩
            have hw : Writable K' := by
              refine ⟨?_, fun _ _ => hclaim.2.2.1⟩
              rw [hs.role, hrole]
              exact nofun
            refine wp_mono (runCode_meets (.inr hw) g s h) ?_
            rintro g s (e | r) h
            · exact ⟨K', hs, trivial, h⟩
            · exact ⟨K', hs, fun _ => .inl hclaim, h⟩

-- ============================================================================
-- transaction
-- ============================================================================

/-- The variables of the execution are the same. -/
structure SameExecution (v v' : Vars) : Prop where
  scopeHash : v'.scopeHash = v.scopeHash
  locked : v'.locked = v.locked
  uncertain : v'.uncertain = v.uncertain
  claimed : v'.claimed = v.claimed
  fingerprint : v'.fingerprint = v.fingerprint

/-- The variables of the route are the same. -/
structure Follows (K K' : Known W) : Prop where
  role : K'.role = K.role
  sessionKey : K'.vars.sessionKey = K.vars.sessionKey
  context : K'.vars.context = K.vars.context
  listening : K'.vars.listening = K.vars.listening
  failed : K'.vars.failed = K.vars.failed

theorem Follows.refl (K : Known W) : Follows K K := ⟨rfl, rfl, rfl, rfl, rfl⟩

theorem Follows.trans {K K' K'' : Known W} (h : Follows K K') (h' : Follows K' K'') :
    Follows K K'' where
  role := h'.role.trans h.role
  sessionKey := h'.sessionKey.trans h.sessionKey
  context := h'.context.trans h.context
  listening := h'.listening.trans h.listening
  failed := h'.failed.trans h.failed

theorem Stays.follows {K K' : Known W} (h : Stays K K') : Follows K K' where
  role := h.role
  sessionKey := h.frame.sessionKey
  context := h.frame.context
  listening := h.frame.listening
  failed := h.frame.failed

def Known.withVars (K : Known W) (v : Vars) : Known W := { K with vars := v }

theorem Locking.setVars {view : View W} {v : Vars} (h : Locking K view)
    (hv : SameExecution K.vars v) : Locking (K.withVars v) view := by
  unfold Locking at h ⊢
  rw [show (K.withVars v).vars = v from rfl, hv.uncertain, hv.locked, hv.scopeHash]
  exact h

theorem Claiming.setVars {view : View W} {v : Vars} (h : Claiming K view)
    (hv : SameExecution K.vars v) : Claiming (K.withVars v) view := by
  unfold Claiming at h ⊢
  rw [show (K.withVars v).vars = v from rfl, hv.claimed, hv.scopeHash, hv.fingerprint]
  exact h

section SetVars

variable {c : Core W} {ss : SessionState W} {v : Vars}

theorem Base.setVars (h : Base K c ss) (hv : SameExecution K.vars v) :
    Base (K.withVars v) c ss where
  role := h.role
  guarded := h.guarded
  found := h.found
  committed := h.committed
  bound := h.bound
  out := h.out
  doomed := h.doomed
  lock hd := (h.lock hd).setVars hv
  plain hp := by
    rw [show (K.withVars v).vars = v from rfl, hv.locked, hv.uncertain, hv.claimed]
    exact h.plain hp

theorem Left.setVars (h : Left K c ss) (hv : SameExecution K.vars v) :
    Left (K.withVars v) c ss where
  toBase := h.toBase.setVars hv
  ended := h.ended
  transaction := h.transaction
  connected := h.connected
  unflushed := h.unflushed

/-- Variables that are not the execution's may change inside the transaction. -/
theorem Txn.setFrame (h : Txn K c ss) (hv : SameExecution K.vars v) :
    Txn (K.withVars v) c ss where
  toBase := h.toBase.setVars hv
  uncommitted := h.uncommitted
  running := h.running
  idle := h.idle
  whole := h.whole
  claimConnected hc := h.claimConnected (hv.claimed.symm.trans hc)
  begun := h.begun
  settled := h.settled
  claim hd htx := (h.claim hd htx).setVars hv
  unflushed p hp := by
    obtain ⟨hdomain, hrole, hwrites⟩ := h.unflushed p hp
    exact ⟨hdomain, hrole, fun hk hg => hv.claimed.trans (hwrites hk hg)⟩

end SetVars

/-- The response `r` may be returned once the transaction is committed. -/
structure Fit (K : Known W) (r : Response) : Prop where
  json : r.json = true
  background : r.background = false
  status : r.status < 400
  stored : K.vars.claimed = true → K.stored = some (r.status, r.body)
  keyed : K.role.isKeyed = true → K.vars.claimed = true ∨ Replays K r.status r.body

/-- Without a claim nothing was deleted. -/
theorem Fit.kept {r : Response} (h : Fit K r) (hk : K.role.isKeyed = true)
    (hclaimed : K.vars.claimed = false) : K.cleared = false := by
  rcases h.keyed hk with hc | hreplays
  · rw [hc] at hclaimed
    cases hclaimed
  · exact hreplays.2.1

/-- A transaction that has come to the response `r`: right behind a check of the activity that
    passed, or rolled back behind an error response. -/
def Concluded (K₀ : Known W) (r : Response) (g : Ghost W) (s : Local W) : Prop :=
  ∃ K, Follows K₀ K ∧ K.vars.response = some r ∧ K.committed = none ∧
    (Fit K r ∧ g.fresh = true ∧
        At K.vars (fun c ss => Txn K c ss ∧ (K.vars.claimed = true → ss.transaction = .active) ∧
          ss.unflushed = []) g s ∨
      400 ≤ r.status ∧ At K.vars (Left K) g s)

/-- Inside the transaction of a mutation, or behind it. -/
def Within (K₀ : Known W) (g : Ghost W) (s : Local W) : Prop :=
  ∃ K, Follows K₀ K ∧ At K.vars (fun c ss => Txn K c ss ∨ Left K c ss) g s

theorem Within.of_txn {K₀ : Known W} (hK : Follows K₀ K) {g : Ghost W} {s : Local W}
    (h : At K.vars (Txn K) g s) : Within K₀ g s := ⟨K, hK, h.imp fun _ _ h => .inl h⟩

theorem Within.of_left {K₀ : Known W} (hK : Follows K₀ K) {g : Ghost W} {s : Local W}
    (h : At K.vars (Left K) g s) : Within K₀ g s := ⟨K, hK, h.imp fun _ _ h => .inr h⟩

/-- What is known once the response `r` is prepared. -/
def Known.respond (K : Known W) (r : Response) : Known W :=
  K.withVars { K.vars with response := some r }

theorem Follows.respond (K : Known W) (r : Response) : Follows K (K.respond r) :=
  ⟨rfl, rfl, rfl, rfl, rfl⟩

theorem conclude_triple {K₀ : Known W} {r : Response} (hK : Follows K₀ K)
    (hresponse : K.vars.response = some r) (hfit : Fit K r) :
    Triple (contract cfg)
      (At K.vars fun c ss => Txn K c ss ∧ (K.vars.claimed = true → ss.transaction = .active))
      (do
        Task.flush
        Task.assertActive
        pure r : Task W D Response)
      (fun r => Concluded K₀ r) fun _ => Within K₀ := by
  refine Triple.bind (flush_keeps.raising fun g s h => .of_txn hK h) fun _ => ?_
  refine Triple.bind (assertActive_triple.conseq (fun _ _ h => h) (fun _ _ _ h => h)
    fun _ g s h => .of_txn hK (h.imp fun _ _ h => h.1)) fun _ => ?_
  refine triple_pure ?_
  rintro g s ⟨h, hfresh⟩
  exact ⟨K, hK, hresponse, h.2.2.1.uncommitted, .inl ⟨hfit, hfresh, h⟩⟩

/-- A response that may be committed is stored in the claim, if there is one. -/
theorem Fit.complete {r : Response} (hjson : r.json = true) (hbackground : r.background = false)
    (hstatus : r.status < 400) (hprepared : Prepared K r) : Fit (K.complete r) r where
  json := hjson
  background := hbackground
  status := hstatus
  stored hc := if_pos hc
  keyed hk := (hprepared hk).imp (fun h => h.2.2.1) fun h => h

/-- The transaction of a request comes to a response, or raises; it is not committed yet. -/
theorem transaction_triple {req : Request W D} (hK : Opened cfg req K) :
    Triple (contract cfg) (At K.vars (Txn K)) (req.transaction cfg K.vars.context)
      (fun r => Concluded K r) fun _ => Within K := by
  refine Triple.bind (assertActive_meets.raising fun g s h => .of_txn (.refl K) h) fun _ => ?_
  refine Triple.bind ((prepare_triple hK).conseq (fun _ _ h => h) (fun _ _ _ h => h) ?_)
    fun r => ?_
  · rintro e g s ⟨K', hs, -, h⟩
    exact .of_txn hs.follows h
  · rintro g s ⟨K', hs, hprepared, h⟩
    have hrespond : Follows K (K'.respond r) := hs.follows.trans (.respond K' r)
    have hset : Triple (contract cfg) (At K'.vars (Txn K'))
        (Task.modifyVars fun v => { v with response := some r } : Task W D Unit)
        (fun _ => At (K'.respond r).vars (Txn (K'.respond r))) fun _ => Within K :=
      (triple_modifyVars (.inl (hs.frame.response.trans hK.response))).post fun _ _ _ h =>
        h.imp fun _ _ h => h.setFrame ⟨rfl, rfl, rfl, rfl, rfl⟩
    have hresponse : (K'.respond r).vars.response = some r := rfl
    have huncommitted : K'.committed = none := h.2.2.uncommitted
    have hplain : K'.role.isKeyed = false → K'.vars.claimed = false :=
      fun hk => (h.2.2.plain hk).2.2
    have hclaim (hc : K'.vars.claimed = true) : HasClaim K' := by
      cases hk : K'.role.isKeyed with
      | false =>
          rw [hplain hk] at hc
          cases hc
      | true =>
          refine (hprepared hk).resolve_right fun hreplay => ?_
          rw [hreplay.1] at hc
          cases hc
    refine Triple.bind hset (fun _ => ?_) g s h
    split
    · exact triple_raise fun g s h => .of_txn hrespond h
    · split
      · next hstatus =>
          refine Triple.bind (sessionRollback_meets.raising fun g s h => .of_left hrespond h)
            fun _ => ?_
          exact triple_pure fun g s h =>
            ⟨K'.respond r, hrespond, hresponse, huncommitted, .inr ⟨hstatus, h⟩⟩
      · next hbuffered hstatus =>
          obtain ⟨hjson, hbackground⟩ : r.json = true ∧ r.background = false := by
            simpa using hbuffered
          have hstatus' : r.status < 400 := not_le.mp hstatus
          cases hcontext : K.vars.context with
          | none =>
              have hkey := hK.key
              rw [hcontext] at hkey
              have hnot : K'.role.isKeyed = false := by
                rw [hs.role, hK.role, Request.role_of_no_key hkey]
                rfl
              have hfit : Fit (K'.respond r) r := by
                refine ⟨hjson, hbackground, hstatus', fun hc => ?_, fun hk => ?_⟩
                · rw [show K'.vars.claimed = true from hc] at hplain
                  cases hplain hnot
                · rw [show K'.role.isKeyed = true from hk] at hnot
                  cases hnot
              refine (conclude_triple hrespond hresponse hfit).pre fun g s h =>
                h.imp fun _ _ h => ⟨h, fun hc => ?_⟩
              rw [show K'.vars.claimed = true from hc] at hplain
              cases hplain hnot
          | some key =>
              refine Triple.bind ((complete_meets (K := K'.respond r) hclaim).raising
                fun g s h => .of_txn hrespond h) fun _ => ?_
              exact conclude_triple (K := (K'.respond r).complete r)
                (hrespond.trans (Stays.complete _ r).follows) hresponse
                (Fit.complete hjson hbackground hstatus' hprepared)

-- ============================================================================
-- The transaction block
-- ============================================================================

/-- Behind the transaction that returned `r`: what is committed is `r`, and a keyed request that
    succeeds has committed or found it. -/
structure Returns (K : Known W) (r : Response) : Prop where
  prepared : K.vars.response = some r
  committed : ∀ claim writes, K.committed = some (claim, writes) →
    r.json = true ∧ r.background = false ∧ r.status < 400 ∧
      ∀ stored, claim = some stored → stored.response = some (r.status, r.body)
  keyed : K.role.isKeyed = true → r.status < 400 →
    (∃ claim writes, K.committed = some (some claim, writes) ∧
        K.vars.fingerprint = some claim.record.fingerprint) ∨
      Replays K r.status r.body

/-- Behind the transaction of a mutation that was once known as `K₀`, with `F` known besides. -/
def Behind (K₀ : Known W) (F : Known W → Prop) (g : Ghost W) (s : Local W) : Prop :=
  ∃ K, Follows K₀ K ∧ F K ∧ At K.vars (Left K) g s

theorem Follows.commit (K : Known W) (m : Option (Option Claim × List W)) :
    Follows K (K.commit m) := ⟨rfl, rfl, rfl, rfl, rfl⟩

/-- Nothing was sent for the mutation yet. -/
structure Blank (K : Known W) (c : Core W) : Prop where
  view : c.view = .fresh
  written : c.written = []
  taken : K.role.isKeyed = false → c.taken = false

/-- The session begins on a connection that nothing was sent on, or without one. -/
theorem Left.begin {c : Core W} {ss : SessionState W} (h : Left K c ss)
    (huncommitted : K.committed = none) (hclaimed : K.vars.claimed = false)
    (hblank : Blank K c) : Txn K c { ss with transaction := .active } where
  toBase := h.toBase.setSession rfl rfl rfl
  uncommitted := huncommitted
  running := nofun
  idle _ := ⟨hblank.view, hblank.written, hblank.taken⟩
  claimConnected hc := by
    rw [hclaimed] at hc
    cases hc
  whole _ _ := by
    rw [hblank.view, hblank.written]
    rfl
  begun hc := by
    have hno := h.connected
    rw [show ss.connected = true from hc] at hno
    cases hno
  settled _ := nofun
  claim _ _ := by
    rw [hblank.view]
    refine ⟨fun _ => ⟨rfl, fun _ _ => rfl⟩, fun _ => rfl, fun hc => ?_⟩
    rw [hclaimed] at hc
    cases hc
  unflushed := by
    rw [show ({ ss with transaction := .active } : SessionState W).unflushed = [] from h.unflushed]
    exact nofun

/-- Behind an exception the transaction is rolled back, unless that was done before. -/
theorem rollback_within :
    Triple (contract cfg) (Within K) (Task.sessionRollback : Task W D Unit)
      (fun _ => Behind K fun _ => True) fun _ => Behind K fun _ => True := by
  rintro g s ⟨K', hK, hseen, hv, h⟩
  have hbehind {g : Ghost W} {s : Local W} (h : At K'.vars (Left K') g s) :
      Behind K (fun _ => True) g s := ⟨K', hK, trivial, h⟩
  rcases h with h | h
  · refine wp_mono (sessionRollback_meets g s ⟨hseen, hv, h⟩) ?_
    rintro g s (e | u) h
    · exact hbehind h
    · exact hbehind h
  · refine wp_mono (Left.rollback_meets g s ⟨hseen, hv, h⟩) ?_
    rintro g s (e | u) h
    · exact hbehind h
    · exact hbehind h

/-- A response that is committed is returned as it was stored. -/
theorem Fit.returns_commit {r : Response} {m : Option (Option Claim × List W)} (h : Fit K r)
    (hresponse : K.vars.response = some r) (hm : Durable K m) : Returns (K.commit m) r where
  prepared := hresponse
  committed := by
    rintro claim writes rfl
    refine ⟨h.json, h.background, h.status, ?_⟩
    rintro stored rfl
    cases hc : K.vars.claimed with
    | false => cases hm.2 hc _ _ rfl
    | true =>
        obtain ⟨claim, writes', heq, hresponse, -⟩ := hm.1 hc
        obtain ⟨rfl⟩ : stored = claim ∧ _ := by simpa using heq
        rw [hresponse, h.stored hc]
  keyed hk _ := by
    refine (h.keyed hk).imp (fun hc => ?_) fun hreplay => hreplay
    obtain ⟨claim, writes, heq, -, -, hfingerprint⟩ := hm.1 hc
    exact ⟨claim, writes, heq, hfingerprint⟩

/-- `async with session.begin()` around the transaction of a request. -/
theorem withBegin_triple {req : Request W D} (hK : Opened cfg req K)
    (huncommitted : K.committed = none) :
    Triple (contract cfg) (At K.vars fun c ss => Left K c ss ∧ Blank K c)
      (Task.withBegin (req.transaction cfg K.vars.context))
      (fun r => Behind K fun K' => Returns K' r) fun _ => Behind K fun _ => True := by
  have hopen : Meets cfg K.vars (fun c ss => Left K c ss ∧ Blank K c)
      (Task.modifySession fun o => { o with transaction := .active } : Task W D Unit)
      (fun _ => Txn K) (Left K) :=
    meets_modifySession fun c ss h => h.1.begin huncommitted hK.unlocked.2.2.1 h.2
  refine Triple.bind (hopen.raising fun g s h => ⟨K, .refl K, trivial, h⟩) fun _ => ?_
  refine Triple.finallyDo (transaction_triple hK) (fun r => ?_) fun e => ?_
  · refine triple_session fun o => ?_
    rintro g s ⟨⟨K', hfollows, hresponse, hcommitted, h⟩, rfl⟩
    rcases h with ⟨hfit, hfresh, hseen, hv, htxn, hactive, hflushed⟩ | ⟨hstatus, h⟩
    · cases htx : s.session.transaction with
      | none => exact absurd htx htxn.running
      | active =>
          have hready : CommitReady K' :=
            .inr ⟨r, hresponse, hfit.json, hfit.background, hfit.status, hfit.stored, hfit.kept⟩
          refine wp_mono (sessionCommit_triple hready g s
            ⟨⟨hseen, hv, htxn, htx, hflushed⟩, .inr hfresh⟩) ?_
          rintro g s (e | u) ⟨hseen, hv, m, hleft⟩
          · exact ⟨K'.commit m, hfollows.trans (.commit K' m), trivial, hseen, hv, hleft⟩
          · exact ⟨K'.commit m, hfollows.trans (.commit K' m), hfit.returns_commit hresponse hleft.2,
              hseen, hv, hleft.1⟩
      | deactive =>
          -- only a flush that the code of a request without a claim has caught leaves this
          have hreturns : Returns K' r := by
            refine ⟨hresponse, fun claim writes hm => ?_, fun hk _ => .inr ?_⟩
            · rw [hcommitted] at hm
              cases hm
            · refine (hfit.keyed hk).resolve_left fun hc => ?_
              rw [hactive hc] at htx
              cases htx
          refine wp_mono (sessionRollback_meets g s ⟨hseen, hv, htxn⟩) ?_
          rintro g s (e | u) h
          · exact ⟨K', hfollows, trivial, h⟩
          · exact ⟨K', hfollows, hreturns, h⟩
    · have hreturns : Returns K' r := by
        refine ⟨hresponse, fun claim writes hm => ?_, fun _ hlt => ?_⟩
        · rw [hcommitted] at hm
          cases hm
        · exact absurd hlt (not_lt.mpr hstatus)
      rw [h.2.2.transaction]
      refine wp_mono (Left.rollback_meets g s h) ?_
      rintro g s (e | u) h
      · exact ⟨K', hfollows, trivial, h⟩
      · exact ⟨K', hfollows, hreturns, h⟩
  · exact triple_session fun o => rollback_within.pre fun _ _ h => h.1

theorem Returns.setVars {r : Response} {v : Vars} (h : Returns K r) (hv : SameExecution K.vars v)
    (hresponse : v.response = K.vars.response) : Returns (K.withVars v) r where
  prepared := hresponse.trans h.prepared
  committed := h.committed
  keyed hk hstatus := by
    unfold Replays
    rw [show (K.withVars v).vars = v from rfl, hv.fingerprint, hv.claimed]
    exact h.keyed hk hstatus

/-- The variables of a route while it owns the transaction. -/
def Vars.owning (v : Vars) (execution : Option Text) : Vars :=
  { v with context := execution, sessionKey := true, listening := true }

/-- What a route has set for its execution is as it was behind it. -/
theorem owned_triple {req : Request W D} {execution : Option Text} (hkey : req.key = .ok execution)
    (hrole : K.role = req.role cfg) (hguarded : K.guarded = req.guarded)
    (hunlocked : Unlocked K) (huncommitted : K.committed = none)
    (hsession : K.vars.sessionKey = false) (hlistening : K.vars.listening = false)
    (hresponse : K.vars.response = none) :
    Triple (contract cfg) (At K.vars fun c ss => Left K c ss ∧ Blank K c)
      (req.owned cfg execution) (fun r => Behind K fun K' => Returns K' r)
      fun _ => Behind K fun _ => True := by
  refine triple_vars ?_
  have henter : SameExecution K.vars (K.vars.owning execution) := ⟨rfl, rfl, rfl, rfl, rfl⟩
  have hleave {F : Known W → Prop}
      (hF : ∀ K' v, SameExecution K'.vars v → v.response = K'.vars.response → F K' →
        F (K'.withVars v))
      {E : Exc → Ghost W → Local W → Prop} :
      Triple (contract cfg)
        (Behind (K.withVars (K.vars.owning execution)) F)
        (Task.modifyVars fun v =>
          { v with context := K.vars.context, sessionKey := false, listening := false } :
          Task W D Unit)
        (fun _ => Behind K F) E := by
    rintro g s ⟨K', hK, hF', hseen, hv, hleft⟩
    have hsame : SameExecution K'.vars
        { K'.vars with context := K.vars.context, sessionKey := false, listening := false } :=
      ⟨rfl, rfl, rfl, rfl, rfl⟩
    refine ⟨K'.withVars _, ?_, hF K' _ hsame rfl hF', ⟨hseen.seen, hseen.sent⟩, ?_,
      hleft.setVars hsame⟩
    · exact ⟨hK.role, hsession.symm, rfl, hlistening.symm, hK.failed⟩
    · rw [← hv]
      rfl
  refine Triple.bind ((triple_modifyVars (.inr rfl)).post fun _ _ _ h => h.imp fun c ss h =>
    (⟨h.1.setVars henter, { h.2 with }⟩ : Left (K.withVars (K.vars.owning execution)) c ss ∧
      Blank (K.withVars (K.vars.owning execution)) c)) fun _ => ?_
  refine triple_thenAlways (withBegin_triple (K := K.withVars (K.vars.owning execution))
    ⟨hkey, hrole, hguarded, hunlocked, hresponse⟩ huncommitted) (fun r => ?_) fun e => ?_
  · exact hleave fun K' v hv hr h => h.setVars hv hr
  · exact hleave fun K' v hv hr h => h

-- ============================================================================
-- The pinned connection
-- ============================================================================

/-- A keyed mutation behind its transaction, its connection still out. -/
structure Pinned (K : Known W) (c : Core W) (ss : SessionState W) : Prop where
  role : c.role = K.role
  found : c.found = K.found
  committed : c.committed = K.committed
  out : c.out = true
  doomed : ss.invalidated = true → c.doomed = true
  transaction : ss.transaction = .none

/-- The connection is to be discarded. -/
def Doomed (K : Known W) (c : Core W) (ss : SessionState W) : Prop :=
  Pinned K c ss ∧ c.doomed = true

/-- The connection is to be discarded, or has no lock. -/
def Released (K : Known W) (c : Core W) (ss : SessionState W) : Prop :=
  Pinned K c ss ∧ (c.doomed = false → c.view.lock = .free)

/-- The connection may go back to the pool. -/
def Returnable (K : Known W) (c : Core W) (ss : SessionState W) : Prop :=
  Released K c ss ∧ (c.doomed = false → K.vars.failed = false)

theorem Doomed.released {c : Core W} {ss : SessionState W} (h : Doomed K c ss) :
    Released K c ss := by
  refine ⟨h.1, fun hd => ?_⟩
  rw [h.2] at hd
  cases hd

/-- However it ends, the connection is to be discarded. -/
theorem invalidate_pinned :
    Meets cfg K.vars (Pinned K) (Task.invalidate : Task W D Unit) (fun _ => Doomed K)
      (Doomed K) := by
  have hlost {c : Core W} {ss ss' : SessionState W} (h : Pinned K c ss)
      (htx : ss'.transaction = ss.transaction) : Doomed K c.lost ss' :=
    ⟨⟨h.role, h.found, h.committed, h.out, fun _ => rfl, htx.trans h.transaction⟩, rfl⟩
  refine invalidate_meets (fun _ _ h _ => h.out) (fun _ _ h hinv => ⟨h, h.doomed hinv⟩) ?_
  exact fun c ss h _ => ⟨hlost h rfl, hlost h rfl, hlost h rfl⟩

/-- The lock is released on a connection without a transaction, or the attempt raises. -/
theorem releaseLock_meets {name : Text} (hlocked : K.vars.locked = true)
    (huncertain : K.vars.uncertain = false) (hname : K.vars.scopeHash = some name) :
    Meets cfg K.vars (fun c ss => Left K c ss ∧ ss.bind = .connection ∧ ss.invalidated = false)
      (IdempotencyExecution.releaseLock name : Task W D Unit) (fun _ => Released K) (Pinned K) := by
  have hpinned {c : Core W} {ss : SessionState W} (h : Over K c ss)
      (htx : ss.transaction = .none) (hbind : ss.bind = .connection) (v : View W) :
      Pinned K { c with view := v } ss := by
    have hout := h.out.mpr (.inr hbind)
    exact ⟨h.role, h.found, h.committed, hout, fun hinv => (h.doomed hout).mpr hinv, htx⟩
  refine Meets.bind (Q := fun _ c ss => Over K c ss ∧ ss.transaction = .none ∧
    ss.bind = .connection ∧ ss.invalidated = false) (meets_modifySession ?_) fun _ => ?_
  · rintro c ss ⟨h, hbind, hinv⟩
    exact ⟨⟨h.toBase.setSession rfl rfl rfl, h.ended⟩, h.transaction, hbind, hinv⟩
  · refine Meets.bind (Q := fun (released : Option Int) c ss => Pinned K c ss ∧
      (released = some 1 → c.doomed = false → c.view.lock = .free)) ?_ fun released => ?_
    · refine execute_meets (q := .releaseLock name) nofun ?_ ?_ ?_ ?_ ?_
      · rintro c ss fresh ⟨h, -, hbind, hinv⟩ -
        have hout := h.out.mpr (.inr hbind)
        have hd : c.doomed = false := Bool.eq_false_iff.mpr fun hd => by
          rw [(h.doomed hout).mp hd] at hinv
          cases hinv
        refine ⟨hout, hd, h.toBase.held hd hlocked huncertain hname, ?_⟩
        rw [h.ended hd]
        rfl
      · rintro c ss (released : Option Int) ⟨h, htx, hbind, -⟩ -
        refine ⟨hpinned h htx hbind _, ?_⟩
        rintro rfl -
        rfl
      · rintro c ss ⟨h, htx, hbind, -⟩ -
        exact hpinned h htx hbind _
      · rintro c ss ⟨h, htx, hbind, -⟩ -
        exact ⟨h.role, h.found, h.committed, h.out.mpr (.inr hbind), fun _ => rfl, htx⟩
      · rintro c ss ⟨-, -, -, hinv⟩ hinv'
        rw [hinv] at hinv'
        cases hinv'
    · change Option Int at released
      show Meets cfg K.vars _ (if released = some 1 then _ else _) _ _
      split
      · next hone => exact meets_pure fun _ _ h => ⟨h.1, h.2 hone⟩
      · exact meets_raise fun _ _ h => h.1

theorem Left.pinned {c : Core W} {ss : SessionState W} (h : Left K c ss)
    (hbind : ss.bind = .connection) : Pinned K c ss := by
  have hout := h.out.mpr (.inr hbind)
  exact ⟨h.role, h.found, h.committed, hout, (h.doomed hout).mpr, h.transaction⟩

/-- The part of `release` that may raise before the connection is invalidated. -/
theorem tryRelease_meets :
    Meets cfg K.vars (fun c ss => Left K c ss ∧ ss.bind = .connection)
      (do
        let v ← Task.vars
        let o ← Task.session
        if v.uncertain ∨ o.invalidated ∨ o.inTransaction then Task.invalidate
        else if v.locked then IdempotencyExecution.releaseLock (v.scopeHash.getD [])
        else pure () : Task W D Unit) (fun _ => Released K) (Pinned K) := by
  refine meets_vars (meets_session fun o => ?_)
  split
  · exact invalidate_pinned.conseq (fun _ _ h => h.1.1.pinned h.1.2) (fun _ _ _ h => h.released)
      fun _ _ h => h.1
  · next hkeep =>
      obtain ⟨huncertain, hinv, -⟩ : K.vars.uncertain = false ∧ o.invalidated = false ∧
        o.inTransaction = false := by simpa using hkeep
      split
      · next hlocked =>
          refine meets_of_cond (c := ∃ name, K.vars.scopeHash = some name) ?_ ?_
          · rintro ⟨name, hname⟩
            rw [hname]
            refine (releaseLock_meets hlocked huncertain hname).pre ?_
            rintro c ss ⟨⟨h, hbind⟩, rfl⟩
            exact ⟨h, hbind, hinv⟩
          · rintro c ss ⟨⟨h, hbind⟩, rfl⟩
            have hd : c.doomed = false := Bool.eq_false_iff.mpr fun hd => by
              rw [(h.doomed (h.out.mpr (.inr hbind))).mp hd] at hinv
              cases hinv
            obtain ⟨name, hname, -⟩ := (h.lock hd huncertain).2 hlocked
            exact ⟨name, hname⟩
      · next hlocked =>
          refine meets_pure ?_
          rintro c ss ⟨⟨h, hbind⟩, rfl⟩
          exact ⟨h.pinned hbind, fun hd =>
            (h.lock hd huncertain).1 (Bool.eq_false_iff.mpr hlocked)⟩

/-- `release`: behind it the connection is to be discarded, unless its lock was released behind
    a request that did not fail. -/
theorem release_meets :
    Meets cfg K.vars (fun c ss => Left K c ss ∧ ss.bind = .connection)
      (IdempotencyExecution.release K.vars.failed : Task W D Unit) (fun _ => Returnable K)
      (Returnable K) := by
  have hdoomed {c : Core W} {ss : SessionState W} (h : Doomed K c ss) : Returnable K c ss := by
    refine ⟨h.released, fun hd => ?_⟩
    rw [h.2] at hd
    cases hd
  refine Meets.thenAlways (Q := fun _ => Released K) (F := Doomed K) ?_ (fun _ => ?_) ?_
  · refine Triple.handle (F := fun _ => At K.vars (Pinned K)) tryRelease_meets fun e => ?_
    refine Meets.bind invalidate_pinned fun _ => ?_
    split
    · exact meets_pure fun _ _ h => h.released
    · exact meets_raise fun _ _ h => h
  · refine meets_session fun o => ?_
    split
    · exact invalidate_pinned.conseq (fun _ _ h => h.1.1) (fun _ _ _ h => hdoomed h)
        fun _ _ h => hdoomed h
    · next hkeep =>
        refine meets_pure ?_
        rintro c ss ⟨h, rfl⟩
        refine ⟨h, fun hd => Bool.eq_false_iff.mpr fun hfailed => hkeep ⟨hfailed, fun hinv => ?_⟩⟩
        rw [h.1.doomed hinv] at hd
        cases hd
  · refine meets_session fun o => ?_
    split
    · exact invalidate_pinned.conseq (fun _ _ h => h.1.1) (fun _ _ _ h => hdoomed h)
        fun _ _ h => hdoomed h
    · exact meets_pure fun _ _ h => hdoomed h.1

-- ============================================================================
-- handle
-- ============================================================================

/-- A session without a transaction and a connection. -/
structure Idle (K : Known W) (c : Core W) (ss : SessionState W) : Prop where
  role : c.role = K.role
  found : c.found = K.found
  committed : c.committed = K.committed
  out : c.out = false
  bind : ss.bind = .engine
  transaction : ss.transaction = .none

/-- The variables that a request brings with it are the same. -/
structure Restored (K K' : Known W) : Prop where
  role : K'.role = K.role
  sessionKey : K'.vars.sessionKey = K.vars.sessionKey
  context : K'.vars.context = K.vars.context
  listening : K'.vars.listening = K.vars.listening

/-- The end of a mutation that was once known as `K₀`, with `F` known besides. -/
def Ended (K₀ : Known W) (F : Known W → Prop) (g : Ghost W) (s : Local W) : Prop :=
  ∃ K, Restored K₀ K ∧ F K ∧ At K.vars (Idle K) g s

theorem Follows.restored {K K' : Known W} (h : Follows K K') : Restored K K' :=
  ⟨h.role, h.sessionKey, h.context, h.listening⟩

/-- The lock is released, the session bound to the engine again, and the connection closed. -/
theorem unpin_meets :
    Meets cfg K.vars (fun c ss => Left K c ss ∧ ss.bind = .connection)
      (do
        let v ← Task.vars
        Task.thenAlways (IdempotencyExecution.release v.failed)
          (Task.modifySession fun o => { o with bind := .engine }) : Task W D Unit)
      (fun _ c ss => Returnable K c ss ∧ ss.bind = .engine)
      fun c ss => Returnable K c ss ∧ ss.bind = .engine := by
  have hbind : Meets cfg K.vars (Returnable K)
      (Task.modifySession fun o => { o with bind := .engine } : Task W D Unit)
      (fun _ c ss => Returnable K c ss ∧ ss.bind = .engine)
      fun c ss => Returnable K c ss ∧ ss.bind = .engine := by
    refine meets_modifySession ?_
    rintro c ss ⟨⟨h, hlock⟩, hfailed⟩
    exact ⟨⟨⟨⟨h.role, h.found, h.committed, h.out, h.doomed, h.transaction⟩, hlock⟩, hfailed⟩, rfl⟩
  exact meets_vars (Meets.thenAlways release_meets (fun _ => hbind) hbind)

/-- The pool gets the connection back. -/
theorem close_returnable {E : Core W → SessionState W → Prop}
    (hE : ∀ c ss, Idle K c ss → E c ss) :
    Meets cfg K.vars (fun c ss => Returnable K c ss ∧ ss.bind = .engine)
      (Task.close : Task W D Unit) (fun _ => Idle K) E := by
  refine close_meets ?_ ?_
  · rintro c ss ⟨⟨⟨h, hlock⟩, hfailed⟩, -⟩
    exact ⟨h.out, fun hd => ⟨hlock hd, fun _ => hfailed hd⟩⟩
  · rintro c ss ⟨⟨⟨h, -⟩, -⟩, hbind⟩
    have hidle : Idle K c.closed ss := ⟨h.role, h.found, h.committed, rfl, hbind, h.transaction⟩
    exact ⟨hidle, hE _ _ hidle⟩

/-- A session that was just created. -/
def Created (K : Known W) (c : Core W) (ss : SessionState W) : Prop :=
  Idle K c ss ∧ ss.connected = false ∧ ss.unflushed = []

/-- The mutation has not had a connection. -/
structure Unused (K : Known W) (c : Core W) : Prop where
  guarded : c.guarded = K.guarded
  view : c.view = .fresh
  written : c.written = []
  taken : c.taken = false

theorem Unused.blank {c : Core W} (h : Unused K c) : Blank K c :=
  ⟨h.view, h.written, fun _ => h.taken⟩

/-- A connection that the session was just given. -/
structure Taken (K : Known W) (c : Core W) (ss : SessionState W) : Prop where
  role : c.role = K.role
  guarded : c.guarded = K.guarded
  found : c.found = K.found
  committed : c.committed = K.committed
  out : c.out = true
  doomed : c.doomed = false
  view : c.view = .fresh
  written : c.written = []
  invalidated : ss.invalidated = false
  transaction : ss.transaction = .none
  connected : ss.connected = false
  unflushed : ss.unflushed = []

theorem Taken.left {c : Core W} {ss : SessionState W} (h : Taken K c ss)
    (hbind : ss.bind = .connection) (hk : K.role.isKeyed = true) (hunlocked : Unlocked K) :
    Left K c ss where
  role := h.role
  guarded := h.guarded
  found := h.found
  committed := h.committed
  bound := ⟨fun _ => hbind, fun _ => hk⟩
  out := ⟨fun _ => .inr hbind, fun _ => h.out⟩
  doomed _ := by
    rw [h.doomed, h.invalidated]
  lock _ _ := by
    rw [h.view]
    refine ⟨fun _ => rfl, fun hl => ?_⟩
    rw [hunlocked.1] at hl
    cases hl
  plain _ := ⟨hunlocked.1, hunlocked.2.1, hunlocked.2.2.1⟩
  ended _ := by
    rw [h.view]
    rfl
  transaction := h.transaction
  connected := h.connected
  unflushed := h.unflushed

/-- A keyed mutation that was once known as `K₀`, its connection about to be closed. -/
def Unpinned (K₀ : Known W) (F : Known W → Prop) (g : Ghost W) (s : Local W) : Prop :=
  ∃ K, Restored K₀ K ∧ F K ∧ At K.vars (fun c ss => Returnable K c ss ∧ ss.bind = .engine) g s

theorem unpin_triple {K₀ : Known W} {F : Known W → Prop} (hK : Restored K₀ K)
    (hk : K.role.isKeyed = true) (hF : F K) :
    Triple (contract cfg) (At K.vars (Left K))
      (do
        let v ← Task.vars
        Task.thenAlways (IdempotencyExecution.release v.failed)
          (Task.modifySession fun o => { o with bind := .engine }) : Task W D Unit)
      (fun _ => Unpinned K₀ F) fun _ => Unpinned K₀ fun _ => True :=
  Triple.conseq unpin_meets (fun _ _ h => h.imp fun _ _ h => ⟨h, h.bound.mp hk⟩)
    (fun _ _ _ h => ⟨K, hK, hF, h⟩) fun _ _ _ h => ⟨K, hK, trivial, h⟩

theorem close_triple {F : Known W → Prop} {E : Known W → Prop} (hE : ∀ K', F K' → E K') :
    Triple (contract cfg) (Unpinned K F) (Task.close : Task W D Unit) (fun _ => Ended K F)
      fun _ => Ended K E := by
  rintro g s ⟨K', hK, hF, h⟩
  refine wp_mono (close_returnable (E := Idle K') (fun _ _ h => h) g s h) ?_
  rintro g s (e | u) h
  · exact ⟨K', hK, hE K' hF, h⟩
  · exact ⟨K', hK, hF, h⟩

/-- The variables of an execution that has not begun. -/
def Vars.entered (v : Vars) : Vars :=
  { v with scopeHash := none, locked := false, uncertain := false, claimed := false, failed := true }

/-- `pinned_execution` around a body that leaves its transaction. -/
theorem pinned_triple {body : Task W D α} {F : α → Known W → Prop}
    (hk : K.role.isKeyed = true) (hcleared : K.cleared = false)
    (hF : ∀ a K' v, SameExecution K'.vars v → v.response = K'.vars.response → F a K' →
      F a (K'.withVars v))
    (hbody : Triple (contract cfg)
      (At K.vars.entered fun c ss =>
        Left (K.withVars K.vars.entered) c ss ∧ Blank (K.withVars K.vars.entered) c)
      body (fun a => Behind (K.withVars K.vars.entered) (F a))
      fun _ => Behind (K.withVars K.vars.entered) fun _ => True) :
    Triple (contract cfg)
      (At K.vars fun c ss => Created K c ss ∧ Unused K c)
      (pinnedExecution body) (fun a => Ended K (F a)) fun _ => Ended K fun _ => True := by
  have hended {K' : Known W} (hK : Restored K K') {g : Ghost W} {s : Local W}
      (h : At K'.vars (Idle K') g s) : Ended K (fun _ => True) g s := ⟨K', hK, trivial, h⟩
  refine triple_session fun o => ?_
  refine Triple.of_cond (c := o.bind = .engine) (fun hbind => ?_) ?_
  swap
  · rintro g s ⟨⟨-, -, h, -⟩, rfl⟩
    exact h.1.bind
  rw [if_neg (not_not.mpr hbind)]
  have hcheckout : Meets cfg K.vars (fun c ss => Created K c ss ∧ Unused K c)
      (Task.checkout : Task W D Unit) (fun _ => Taken K) (Idle K) := by
    refine checkout_meets (fun c ss h => h.2.taken) ?_ fun c ss h => h.1.1
    rintro c ss ⟨⟨h, hconnected, hunflushed⟩, hunused⟩
    exact ⟨h.role, hunused.guarded, h.found, h.committed, rfl, rfl, rfl, hunused.written, rfl,
      h.transaction, hconnected, hunflushed⟩
  refine Triple.bind (Triple.pre (hcheckout.raising
    fun g s h => hended (Follows.refl K).restored h) fun _ _ h => h.1) fun _ => ?_
  refine triple_thenAlways (S := fun a => Unpinned K (F a)) (F := fun _ => Unpinned K fun _ => True)
    ?_ (fun a => close_triple fun _ _ => trivial) fun e => close_triple fun _ _ => trivial
  refine Triple.bind (Q := fun _ => At K.vars fun c ss => Taken K c ss ∧ ss.bind = .connection)
    (triple_modifySession fun c ss h => ⟨{ h with }, rfl⟩) fun _ => ?_
  refine Triple.bind (triple_modifyVars (.inr rfl)) fun _ => ?_
  have hK (K' : Known W) (h : Follows (K.withVars K.vars.entered) K') : Restored K K' :=
    ⟨h.role, h.sessionKey, h.context, h.listening⟩
  refine Triple.finallyDo
    (S := fun a g s => ∃ K', Restored K K' ∧ F a K' ∧ At K'.vars (Left K') g s)
    (F := fun _ g s => ∃ K', Restored K K' ∧ At K'.vars (Left K') g s) ?_ (fun a => ?_)
    fun e => ?_
  · refine Triple.bind (Triple.conseq hbody (fun g s h => ?_) (fun _ _ _ h => h) ?_) fun a => ?_
    · refine h.imp fun c ss ⟨h, hbind⟩ => ?_
      have h' : Taken (K.withVars K.vars.entered) c ss := { h with }
      have hblank : Blank (K.withVars K.vars.entered) c := by
        refine ⟨h.view, h.written, fun hp => ?_⟩
        rw [show K.role.isKeyed = false from hp] at hk
        cases hk
      exact ⟨h'.left hbind hk ⟨rfl, rfl, rfl, hcleared⟩, hblank⟩
    · rintro e g s ⟨K', hfollows, -, h⟩
      exact ⟨K', hK K' hfollows, h⟩
    · rintro g s ⟨K', hfollows, hF', h⟩
      have hsame : SameExecution K'.vars { K'.vars with failed := false } :=
        ⟨rfl, rfl, rfl, rfl, rfl⟩
      have hrestored := hK K' hfollows
      refine ⟨K'.withVars { K'.vars with failed := false },
        ⟨hrestored.role, hrestored.sessionKey, hrestored.context, hrestored.listening⟩,
        hF a K' _ hsame rfl hF', ⟨h.1.seen, h.1.sent⟩, ?_, h.2.2.setVars hsame⟩
      rw [← h.2.1]
      rfl
  · rintro g s ⟨K', hrestored, hF', h⟩
    exact unpin_triple hrestored (hrestored.role ▸ hk) hF' g s h
  · rintro g s ⟨K', hrestored, h⟩
    exact unpin_triple hrestored (hrestored.role ▸ hk) trivial g s h

/-- A session of a mutation without a key, before its transaction and behind it. -/
theorem Idle.left {c : Core W} {ss : SessionState W} (h : Idle K c ss)
    (hconnected : ss.connected = false) (hunflushed : ss.unflushed = []) (hunused : Unused K c)
    (hk : K.role.isKeyed = false) (hunlocked : Unlocked K) : Left K c ss where
  role := h.role
  guarded := hunused.guarded
  found := h.found
  committed := h.committed
  bound := by
    rw [hk, h.bind]
    exact ⟨nofun, nofun⟩
  out := by
    rw [h.out, h.bind, hconnected]
    exact ⟨nofun, fun h => h.elim nofun nofun⟩
  doomed hout := by
    rw [h.out] at hout
    cases hout
  lock _ _ := by
    rw [hunused.view]
    refine ⟨fun _ => rfl, fun hl => ?_⟩
    rw [hunlocked.1] at hl
    cases hl
  plain _ := ⟨hunlocked.1, hunlocked.2.1, hunlocked.2.2.1⟩
  ended _ := by
    rw [hunused.view]
    rfl
  transaction := h.transaction
  connected := hconnected
  unflushed := hunflushed

theorem Left.idle {c : Core W} {ss : SessionState W} (h : Left K c ss)
    (hk : K.role.isKeyed = false) : Idle K c ss where
  role := h.role
  found := h.found
  committed := h.committed
  out := by
    rw [Bool.eq_false_iff]
    intro hout
    rcases h.out.mp hout with hc | hb
    · rw [h.connected] at hc
      cases hc
    · rw [h.bound.mpr hb] at hk
      cases hk
  bind := by
    cases hb : ss.bind with
    | engine => rfl
    | connection =>
        rw [h.bound.mpr hb] at hk
        cases hk
  transaction := h.transaction

/-- The end of the session finds nothing to roll back. -/
theorem closeSession_triple {F : Known W → Prop} {E : Known W → Prop} (hE : ∀ K', F K' → E K') :
    Triple (contract cfg) (Ended K F) (Task.closeSession : Task W D Unit) (fun _ => Ended K F)
      fun _ => Ended K E := by
  rintro g s ⟨K', hK, hF, h⟩
  have hrollback : Meets cfg K'.vars (Idle K') (Task.sessionRollback : Task W D Unit)
      (fun _ => Idle K') (Idle K') := by
    refine meets_session fun o => ?_
    refine meets_of_cond (c := o.transaction = .none) (fun htx => ?_) ?_
    · rw [htx]
      exact meets_pure fun _ _ h => h.1
    · rintro c ss ⟨h, rfl⟩
      exact h.transaction
  have hclose : Meets cfg K'.vars (Idle K') (Task.closeSession : Task W D Unit)
      (fun _ => Idle K') (Idle K') :=
    hrollback.bind fun _ => pause_meets.bind fun _ => meets_pure fun _ _ h => h
  refine wp_mono (hclose g s h) ?_
  rintro g s (e | u) h
  · exact ⟨K', hK, hE K' hF, h⟩
  · exact ⟨K', hK, hF, h⟩

section Handle

variable {req : Request W D} (hrole : K.role = req.role cfg)
  (hguarded : K.guarded = req.guarded) (huncommitted : K.committed = none)
  (hsession : K.vars.sessionKey = false) (hlistening : K.vars.listening = false)
  (hresponse : K.vars.response = none)

include hrole hguarded huncommitted hsession hlistening hresponse

theorem plain_triple (hunlocked : Unlocked K) (hkey : req.key = .ok none) :
    Triple (contract cfg) (At K.vars fun c ss => Created K c ss ∧ Unused K c)
      (req.owned cfg none) (fun r => Ended K fun K' => Returns K' r)
      fun _ => Ended K fun _ => True := by
  have hk : K.role.isKeyed = false := by
    rw [hrole, Request.role_of_no_key hkey]
    rfl
  refine (owned_triple hkey hrole hguarded hunlocked huncommitted hsession hlistening
    hresponse).conseq ?_ ?_ ?_
  · intro g s h
    refine h.imp fun c ss h => ?_
    obtain ⟨⟨hidle, hconnected, hunflushed⟩, hunused⟩ := h
    exact ⟨hidle.left hconnected hunflushed hunused hk hunlocked, hunused.blank⟩
  · rintro r g s ⟨K', hK, hreturns, h⟩
    exact ⟨K', hK.restored, hreturns, h.imp fun _ _ h => h.idle (hK.role ▸ hk)⟩
  · rintro e g s ⟨K', hK, -, h⟩
    exact ⟨K', hK.restored, trivial, h.imp fun _ _ h => h.idle (hK.role ▸ hk)⟩

theorem keyed_triple (hcleared : K.cleared = false) {key : Text}
    (hkey : req.key = .ok (some key)) :
    Triple (contract cfg) (At K.vars fun c ss => Created K c ss ∧ Unused K c)
      (pinnedExecution (req.owned cfg (some key))) (fun r => Ended K fun K' => Returns K' r) fun _ => Ended K fun _ => True := by
  obtain ⟨policy, hp⟩ := Request.policy_of_key hkey
  have hk : K.role.isKeyed = true := by
    rw [hrole, Request.role_of_key cfg hkey hp]
    rfl
  exact pinned_triple (F := fun r K' => Returns K' r) hk hcleared
    (fun r K' v hv hr h => h.setVars hv hr)
    (owned_triple (K := K.withVars K.vars.entered) hkey hrole hguarded ⟨rfl, rfl, rfl, hcleared⟩
      huncommitted hsession hlistening hresponse)

/-- `handle` of a request whose scope has no session yet. -/
theorem handle_triple (hunlocked : Unlocked K) :
    Triple (contract cfg) (At K.vars fun c ss => Idle K c ss ∧ Unused K c) (handle cfg req)
      (fun r => Ended K fun K' => Returns K' r) fun _ => Ended K fun _ => True := by
  have hended {g : Ghost W} {s : Local W}
      (h : At K.vars (fun c ss => Idle K c ss ∧ Unused K c) g s) :
      Ended K (fun _ => True) g s :=
    ⟨K, (Follows.refl K).restored, trivial, h.imp fun _ _ h => h.1⟩
  refine triple_vars ?_
  rw [hsession]
  refine Triple.bind (assertActive_meets.raising fun g s h => hended h) fun _ => ?_
  refine Triple.bind (Q := fun _ => At K.vars fun c ss => Idle K c ss ∧ Unused K c)
    (triple_modify ?_) fun _ => ?_
  · rintro g s ⟨hseen, hv, h⟩
    exact ⟨⟨⟨hseen.seen.expiresAt, hseen.seen.abandoned, fun _ => rfl⟩, hseen.sent⟩, hv, h⟩
  refine triple_ofExcept (fun key hkey => ?_) fun e _ g s h => hended h
  refine triple_thenAlways (S := fun r => Ended K fun K' => Returns K' r)
    (F := fun _ => Ended K fun _ => True) ?_ (fun r => closeSession_triple fun _ _ => trivial)
    fun e => closeSession_triple fun _ _ => trivial
  refine Triple.bind (Q := fun _ => At K.vars fun c ss => Created K c ss ∧ Unused K c)
    (triple_modifySession ?_) fun _ => ?_
  · rintro c ss ⟨h, hunused⟩
    exact ⟨⟨⟨h.role, h.found, h.committed, h.out, rfl, rfl⟩, rfl, rfl⟩, hunused⟩
  refine triple_session fun o => ?_
  refine Triple.of_cond (c := o.transaction = .none) (fun htx => ?_) ?_
  · rw [if_neg (not_not.mpr htx)]
    cases key with
    | none =>
        exact (plain_triple hrole hguarded huncommitted hsession hlistening hresponse hunlocked hkey).pre
          fun _ _ h => h.1
    | some key =>
        exact (keyed_triple hrole hguarded huncommitted hsession hlistening hresponse
          hunlocked.2.2.2 hkey).pre fun _ _ h => h.1
  · rintro g s ⟨⟨-, -, h⟩, rfl⟩
    exact h.1.1.transaction

end Handle

/-- The end of a request: it has no connection, what it brought with it is as it was, and the
    response it returns is the one it has committed or found. -/
structure Finished (cfg : Config) (req : Request W D) (sessionKey : Bool) (context : Option Text)
    (g : Ghost W) (s : Local W) (r : Except Exc Response) : Prop where
  activity : g.seen.Later s.activity
  out : g.core.out = false
  bind : s.session.bind = .engine
  transaction : s.session.transaction = .none
  sessionKey : s.vars.sessionKey = sessionKey
  context : s.vars.context = context
  prepared : ∀ response, r = .ok response → s.vars.response = some response
  sent : ∀ response, g.sent = some response → s.vars.response = some response
  committed : ∀ response, r = .ok response → ∀ claim writes,
    g.core.committed = some (claim, writes) →
      response.json = true ∧ response.background = false ∧ response.status < 400 ∧
        ∀ stored, claim = some stored → stored.response = some (response.status, response.body)
  keyed : ∀ response, r = .ok response → (req.role cfg).isKeyed = true → response.status < 400 →
    (∃ claim writes, g.core.committed = some (some claim, writes) ∧
        s.vars.fingerprint = some claim.record.fingerprint) ∨
      ∃ record, g.core.found = some (record, true) ∧
        s.vars.fingerprint = some record.fingerprint ∧
        record.responseStatus = some response.status ∧ record.responseBody = some response.body

/-- What is known of a mutation that arrives. -/
def Known.arrive (role : Role) (guarded : Bool) (v : Vars) : Known W :=
  ⟨role, guarded, v, none, none, false, none⟩

/-- A mutation that arrives has no connection. -/
theorem idle_arrive (role : Role) (guarded : Bool) (activity : RequestTimeout.RequestActivity)
    (sessionKey : Bool) (context : Option Text) :
    Idle (W := W) (.arrive role guarded (Local.arrive (W := W) activity sessionKey context).vars)
      (.init role guarded) (Local.arrive activity sessionKey context).session :=
  ⟨rfl, rfl, rfl, rfl, rfl, rfl⟩

/-- A request keeps the contract to its end, whatever its awaits give back. -/
theorem handle_conforms (cfg : Config) (req : Request W D)
    (activity : RequestTimeout.RequestActivity) (sessionKey : Bool) (context : Option Text) :
    (handle cfg req (.arrive activity sessionKey context)).Conforms (contract cfg)
      ⟨activity, false, none, .init (req.role cfg) req.guarded⟩ (Finished cfg req sessionKey context) := by
  cases hsession : sessionKey with
  | true =>
      refine ⟨.refl _, rfl, rfl, rfl, rfl, rfl, ?_, ?_, ?_, ?_⟩
      · exact nofun
      · exact nofun
      · exact nofun
      · exact nofun
  | false =>
      refine Coro.Conforms.mono (handle_triple (K := .arrive (req.role cfg) req.guarded
        (Local.arrive (W := W) activity false context).vars) rfl rfl rfl rfl rfl rfl
        ⟨rfl, rfl, rfl, rfl⟩ _ _ ⟨⟨.refl _, nofun⟩, rfl, idle_arrive _ _ _ _ _, rfl, rfl, rfl, rfl⟩) ?_
      rintro g s (e | r) ⟨K, hK, hF, hagrees, hv, h⟩
      · exact ⟨hagrees.seen, h.out, h.bind, h.transaction, hv ▸ hK.sessionKey, hv ▸ hK.context,
          nofun, hagrees.sent, nofun, nofun⟩
      · refine ⟨hagrees.seen, h.out, h.bind, h.transaction, hv ▸ hK.sessionKey, hv ▸ hK.context, ?_,
          hagrees.sent, ?_, ?_⟩
        · rintro response heq
          obtain rfl := Except.ok.inj heq
          exact hv ▸ hF.prepared
        · rintro response heq claim writes hcommitted
          obtain rfl := Except.ok.inj heq
          exact hF.committed claim writes (h.committed.symm.trans hcommitted)
        · rintro response heq hk hstatus
          obtain rfl := Except.ok.inj heq
          rw [h.committed, h.found, hv]
          exact (hF.keyed (hK.role ▸ hk) hstatus).imp_right fun h => h.2.2

-- ============================================================================
-- The cleanup sweep
-- ============================================================================

theorem purge_meets {limit : Nat} (hrole : K.role = .sweep) :
    Meets cfg K.vars (Txn K) (IdempotencyRepository.purgeExpiredBatch limit : Task W D Nat)
      (fun _ => Txn K) (Txn K) := by
  refine requireTransaction_meets (fun _ _ h => h.running) ?_
  show Meets cfg K.vars (Txn K)
    (if 1 ≤ limit ∧ limit ≤ 1000 then Task.sessionExecute (.purgeExpired limit)
      else Program.raise _ : Task W D ((Stmt.purgeExpired limit : Stmt W).Value D))
    (fun _ => Txn K) (Txn K)
  split
  · exact sessionExecute_meets (q := .purgeExpired limit) nofun (fun _ _ _ h _ => h.role.trans hrole)
      (fun _ _ _ h _ => h.touched.toTxn) fun _ _ h _ => h.touched.toTxn
  · exact meets_raise fun _ _ h => h

/-- The transaction of one batch. -/
theorem purgeBlock_triple {limit : Nat} (hrole : K.role = .sweep) (huncommitted : K.committed = none)
    (hunlocked : Unlocked K) :
    Triple (contract cfg) (At K.vars fun c ss => Left K c ss ∧ Blank K c)
      (Task.withBegin (IdempotencyRepository.purgeExpiredBatch limit) : Task W D Nat)
      (fun _ => Behind K fun _ => True) fun _ => Behind K fun _ => True := by
  have hopen : Meets cfg K.vars (fun c ss => Left K c ss ∧ Blank K c)
      (Task.modifySession fun o => { o with transaction := .active } : Task W D Unit)
      (fun _ => Txn K) (Left K) :=
    meets_modifySession fun c ss h => h.1.begin huncommitted hunlocked.2.2.1 h.2
  have hwithin {g : Ghost W} {s : Local W} (h : At K.vars (Txn K) g s) : Within K g s :=
    .of_txn (.refl K) h
  refine Triple.bind (hopen.raising fun g s h => ⟨K, .refl K, trivial, h⟩) fun _ => ?_
  refine Triple.finallyDo (purge_meets hrole) (fun count => ?_) fun e => ?_
  · refine triple_session fun o => ?_
    cases htx : o.transaction with
    | none => exact rollback_within.pre fun _ _ h => hwithin h.1
    | deactive => exact rollback_within.pre fun _ _ h => hwithin h.1
    | active =>
        refine (sessionCommit_triple (.inl hrole)).conseq ?_ ?_ ?_
        · rintro g s ⟨h, rfl⟩
          have hflushed : s.session.unflushed = [] := by
            rw [List.eq_nil_iff_forall_not_mem]
            exact fun p hp => (h.2.2.unflushed p hp).2.1 hrole
          exact ⟨⟨h.1, h.2.1, h.2.2, htx, hflushed⟩, .inl hrole⟩
        · rintro _ g s ⟨hseen, hv, m, hleft, -⟩
          exact ⟨K.commit m, .commit K m, trivial, hseen, hv, hleft⟩
        · rintro _ g s ⟨hseen, hv, m, hleft⟩
          exact ⟨K.commit m, .commit K m, trivial, hseen, hv, hleft⟩
  · exact triple_session fun o => rollback_within.pre fun _ _ h => hwithin h.1

theorem sweep_triple {limit : Nat} (hrole : K.role = .sweep) (huncommitted : K.committed = none)
    (hunlocked : Unlocked K) :
    Triple (contract cfg) (At K.vars fun c ss => Idle K c ss ∧ Unused K c)
      (sweepBatch limit : Task W D Nat) (fun _ => Ended K fun _ => True)
      fun _ => Ended K fun _ => True := by
  have hk : K.role.isKeyed = false := by
    rw [hrole]
    rfl
  have hended {g : Ghost W} {s : Local W} (h : Behind K (fun _ => True) g s) :
      Ended K (fun _ => True) g s := by
    obtain ⟨K', hK, -, h⟩ := h
    exact ⟨K', hK.restored, trivial, h.imp fun _ _ h => h.idle (hK.role ▸ hk)⟩
  refine triple_thenAlways (S := fun _ => Ended K fun _ => True)
    (F := fun _ => Ended K fun _ => True) ?_ (fun _ => closeSession_triple fun _ _ => trivial)
    fun _ => closeSession_triple fun _ _ => trivial
  refine Triple.bind (Q := fun _ => At K.vars fun c ss => Left K c ss ∧ Blank K c)
    (triple_modifySession ?_) fun _ => ?_
  · rintro c ss ⟨h, hunused⟩
    have hidle : Idle K c
        { ss with bind := .engine, transaction := .none, connected := false, unflushed := [] } :=
      ⟨h.role, h.found, h.committed, h.out, rfl, rfl⟩
    exact ⟨hidle.left rfl rfl hunused hk hunlocked, hunused.blank⟩
  · exact (purgeBlock_triple hrole huncommitted hunlocked).conseq (fun _ _ h => h)
      (fun _ _ _ h => hended h) fun _ _ _ h => hended h

/-- A batch of the sweep keeps the contract to its end. -/
theorem sweepBatch_conforms (cfg : Config) (limit : Nat)
    (activity : RequestTimeout.RequestActivity) (sessionKey : Bool) (context : Option Text) :
    (sweepBatch limit (.arrive activity sessionKey context) :
        Coro (Op W) (Op.Ans D) (Local W) (Except Exc Nat)).Conforms
      (contract cfg) ⟨activity, false, none, .init .sweep true⟩
      fun g s _ => g.seen.Later s.activity ∧ g.core.out = false ∧ s.session.bind = .engine := by
  refine Coro.Conforms.mono (sweep_triple (K := .arrive .sweep true
    (Local.arrive (W := W) activity sessionKey context).vars) rfl rfl ⟨rfl, rfl, rfl, rfl⟩ _ _
    ⟨⟨.refl _, nofun⟩, rfl, idle_arrive _ _ _ _ _, rfl, rfl, rfl, rfl⟩) ?_
  rintro g s (e | r) ⟨K, -, -, h⟩
  · exact ⟨h.1.seen, h.2.2.out, h.2.2.bind⟩
  · exact ⟨h.1.seen, h.2.2.out, h.2.2.bind⟩

end Specs

end QuickApi.Mutation
