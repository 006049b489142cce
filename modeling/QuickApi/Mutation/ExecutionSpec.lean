/-
  QuickApi.Mutation.ExecutionSpec

  The keyed execution keeps the contract: the lock is asked for once, the
  record is read and claimed under it, and a claim is completed with the
  response that is returned.
-/

import QuickApi.Mutation.SessionSpec

namespace QuickApi.Mutation

open QuickApi.Fingerprint (Text)
open QuickApi.Lib QuickApi.Lib.Program

section Specs

variable {W D α : Type} {cfg : Config}

-- ============================================================================
-- Assertions
-- ============================================================================

/-- The variables that `begin` and `complete` leave alone. -/
structure SameFrame (v v' : Vars) : Prop where
  sessionKey : v'.sessionKey = v.sessionKey
  context : v'.context = v.context
  listening : v'.listening = v.listening
  failed : v'.failed = v.failed
  response : v'.response = v.response

/-- More is known in `K'` than in `K`, about the same mutation. -/
structure Stays (K K' : Known W) : Prop where
  role : K'.role = K.role
  committed : K'.committed = K.committed
  frame : SameFrame K.vars K'.vars

theorem SameFrame.refl (v : Vars) : SameFrame v v := ⟨rfl, rfl, rfl, rfl, rfl⟩

theorem SameFrame.trans {u v w : Vars} (h : SameFrame u v) (h' : SameFrame v w) :
    SameFrame u w where
  sessionKey := h'.sessionKey.trans h.sessionKey
  context := h'.context.trans h.context
  listening := h'.listening.trans h.listening
  failed := h'.failed.trans h.failed
  response := h'.response.trans h.response

theorem Stays.refl (K : Known W) : Stays K K := ⟨rfl, rfl, .refl _⟩

theorem Stays.trans {K K' K'' : Known W} (h : Stays K K') (h' : Stays K' K'') : Stays K K'' :=
  ⟨h'.role.trans h.role, h'.committed.trans h.committed, h.frame.trans h'.frame⟩

/-- Inside the transaction of a mutation that was once known as `K₀`, with `F` known besides. -/
def InTxn (K₀ : Known W) (F : Known W → Prop) (g : Ghost W) (s : Local W) : Prop :=
  ∃ K, Stays K₀ K ∧ F K ∧ At K.vars (Txn K) g s

/-- The execution has no lock and no claim, and has deleted nothing. -/
def Unlocked (K : Known W) : Prop :=
  K.vars.locked = false ∧ K.vars.uncertain = false ∧ K.vars.claimed = false ∧ K.cleared = false

/-- The execution has the lock and a claim without a response. -/
def HasClaim (K : Known W) : Prop :=
  K.vars.locked = true ∧ K.vars.uncertain = false ∧ K.vars.claimed = true ∧ K.stored = none

/-- The execution has found a record with the response `(status, body)` to replay. -/
def Replays (K : Known W) (status : Nat) (body : List UInt8) : Prop :=
  K.vars.claimed = false ∧ K.cleared = false ∧
    ∃ record, K.found = some (record, true) ∧ K.vars.fingerprint = some record.fingerprint ∧
      record.responseStatus = some status ∧ record.responseBody = some body

/-- What `begin` leaves behind: a response to replay, or a claim. -/
def Begun (K : Known W) : Option (Nat × List UInt8) → Prop
  | some (status, body) => Replays K status body
  | none => HasClaim K

variable {K : Known W}

/-- Without lock and claim the variables of the execution are free to change. -/
theorem Txn.setVars {c : Core W} {ss : SessionState W} (h : Txn K c ss) (hk : K.role.isKeyed = true)
    (hclaimed : K.vars.claimed = false) {v : Vars} (hclaimed' : v.claimed = false)
    (hlock : c.doomed = false → Locking { K with vars := v } c.view) :
    Txn { K with vars := v } c ss where
  role := h.role
  guarded := h.guarded
  found := h.found
  committed := h.committed
  bound := h.bound
  out := h.out
  doomed := h.doomed
  lock := hlock
  plain hp := by
    rw [show K.role.isKeyed = false from hp] at hk
    cases hk
  uncommitted := h.uncommitted
  running := h.running
  idle := h.idle
  whole := h.whole
  claimConnected hc := by
    rw [show v.claimed = true from hc] at hclaimed'
    cases hclaimed'
  begun := h.begun
  settled := h.settled
  claim hd htx := by
    refine ⟨fun _ => (h.claim hd htx).1 hclaimed, (h.claim hd htx).2.1, fun hc => ?_⟩
    rw [show v.claimed = true from hc] at hclaimed'
    cases hclaimed'
  unflushed p hp := by
    obtain ⟨hdomain, hrole, hwrites⟩ := h.unflushed p hp
    refine ⟨hdomain, hrole, fun hk hg => ?_⟩
    rw [hwrites hk hg] at hclaimed
    cases hclaimed

/-- The lock of an execution that has it. -/
theorem Base.held {c : Core W} {ss : SessionState W} (h : Base K c ss) (hd : c.doomed = false)
    (hlocked : K.vars.locked = true) (huncertain : K.vars.uncertain = false) {scopeHash : Text}
    (hscope : K.vars.scopeHash = some scopeHash) : c.view.lock = .held scopeHash := by
  obtain ⟨h', hscope', -, hlock⟩ := (h.lock hd huncertain).2 hlocked
  rw [hscope] at hscope'
  rw [hlock, Option.some.inj hscope']

-- ============================================================================
-- IdempotencyRepository
-- ============================================================================

theorem requireTransaction_meets {P E : Core W → SessionState W → Prop} {β : Type}
    {f : Unit → Task W D β} {Q : β → Core W → SessionState W → Prop}
    (hP : ∀ c ss, P c ss → ss.transaction ≠ .none) (h : Meets cfg K.vars P (f ()) Q E) :
    Meets cfg K.vars P (IdempotencyRepository.requireTransaction >>= f) Q E := by
  refine Meets.bind (Q := fun _ => P) (meets_session fun o => ?_) fun _ => h
  split
  · next htx =>
      refine meets_of_cond (c := False) nofun ?_
      rintro c ss ⟨h, rfl⟩
      exact hP c _ h htx
  · exact meets_pure fun _ _ h => h.1

/-- `find` under the lock: the record it gives is the one known from now on. -/
theorem find_meets {scopeHash : Text} (hlocked : K.vars.locked = true)
    (huncertain : K.vars.uncertain = false) (hscope : K.vars.scopeHash = some scopeHash)
    (hclaimed : K.vars.claimed = false) :
    Meets cfg K.vars (Live K)
      (IdempotencyRepository.find scopeHash : Task W D (Option (IdempotencyORM × Bool)))
      (fun found => Live { K with found := found }) (Txn K) := by
  refine requireTransaction_meets (fun _ _ h => h.running) ?_
  refine sessionExecute_live (q := .find scopeHash) nofun (fun _ _ h => h) ?_ ?_
    fun _ _ h _ => h.touched.toTxn
  · exact fun c ss _ h hd => ⟨h.held hd hlocked huncertain hscope,
      ((h.claim hd h.active).1 hclaimed).1⟩
  · intro c ss found h _
    have h' := h.touched
    exact { h' with found := rfl, lock := h'.lock, plain := h'.plain, claim := h'.claim }

/-- What is known once an expired record is deleted. -/
def Known.clear (K : Known W) : Known W := { K with cleared := true }

theorem deleteExpired_meets {scopeHash : Text} (hlocked : K.vars.locked = true)
    (huncertain : K.vars.uncertain = false) (hscope : K.vars.scopeHash = some scopeHash)
    (hclaimed : K.vars.claimed = false) :
    Meets cfg K.vars (Live K) (IdempotencyRepository.deleteExpired scopeHash : Task W D Unit)
      (fun _ => Live K.clear) (Txn K) := by
  refine requireTransaction_meets (fun _ _ h => h.running) ?_
  refine sessionExecute_live (q := .deleteExpired scopeHash) nofun (fun _ _ h => h) ?_ ?_
    fun _ _ h _ => h.touched.toTxn
  · exact fun c ss _ h hd => ⟨h.held hd hlocked huncertain hscope,
      ((h.claim hd h.active).1 hclaimed).1⟩
  · intro c ss _ h hd
    have h' : Live K.clear c ss :=
      { h with
        lock := h.lock
        plain := h.plain
        claim := fun hd htx => ⟨(h.claim hd htx).1, nofun, (h.claim hd htx).2.2⟩ }
    exact h'.setView' (v := c.view.answered (D := D) (.deleteExpired scopeHash) ()) h'.lock
      (fun hd => ⟨(h.claim hd h.active).1, nofun, (h.claim hd h.active).2.2⟩)
      fun hd => h'.whole hd h'.active

/-- What is known once the claim is flushed. -/
def Known.claim (K : Known W) : Known W :=
  { K with vars := { K.vars with claimed := true }, stored := none }

/-- The record of a claim is inserted; from then on the transaction has the claim. -/
theorem insert_live {c : Core W} {ss : SessionState W} {record : IdempotencyORM}
    (h : Live K c ss) (hscope : K.vars.scopeHash = some record.scopeHash)
    (hfingerprint : K.vars.fingerprint = some record.fingerprint) (hk : K.role.isKeyed = true) :
    Live K.claim (c.answered (D := D) (.insert record) ()) ss where
  role := h.role
  guarded := h.guarded
  found := h.found
  committed := h.committed
  bound := h.bound
  out := h.out
  doomed := h.doomed
  lock := h.lock
  plain hp := by
    rw [show K.role.isKeyed = false from hp] at hk
    cases hk
  uncommitted := h.uncommitted
  running := h.running
  idle hc := by
    rw [h.connected] at hc
    cases hc
  whole hd _ := h.whole hd h.active
  claimConnected _ := h.connected
  begun := h.begun
  settled _ hde := by
    rw [h.active] at hde
    cases hde
  claim hd _ := ⟨nofun, (h.claim hd h.active).2.1,
    fun _ => ⟨⟨record, none⟩, rfl, rfl, hscope, hfingerprint⟩⟩
  unflushed p hp := by
    obtain ⟨hdomain, hrole, -⟩ := h.unflushed p hp
    exact ⟨hdomain, hrole, fun _ _ => rfl⟩
  connected := h.connected
  active := h.active

/-- A statement of a flush on a live connection, whatever is still to be flushed. -/
theorem sessionExecute_flushing {q : Stmt W} {Q : q.Value D → Core W → SessionState W → Prop}
    (hq : q ≠ .commit)
    (hallowed : ∀ c ss fresh, Live K c ss → c.doomed = false → q.Allowed cfg c fresh K.vars)
    (hok : ∀ c ss a, Live K c ss → c.doomed = false → Q a (c.answered q a) ss)
    (hfailed : ∀ c ss, Live K c ss → c.doomed = false → Txn K (c.failed q) ss) :
    Meets cfg K.vars (fun c ss => Live K c { ss with unflushed := [] })
      (Task.sessionExecute q : Task W D (q.Value D))
      (fun a c ss => Q a c { ss with unflushed := [] })
      fun c ss => Txn K c { ss with unflushed := [] } := by
  refine Meets.bind (Q := fun _ c ss => Live K c { ss with unflushed := [] }) ?_ fun _ => ?_
  · refine meets_session fun o => ?_
    refine meets_of_cond (c := o.transaction = .active ∧ o.connected = true) ?_ ?_
    · rintro ⟨htx, hc⟩
      rw [htx]
      dsimp only
      rw [if_pos hc]
      exact meets_pure fun _ _ h => h.1
    · rintro c ss ⟨h, rfl⟩
      exact ⟨h.active, h.connected⟩
  · refine execute_meets hq ?_ ?_ ?_ ?_ ?_
    · intro c ss fresh h hinv
      obtain ⟨hout, hd⟩ := h.sendable h.connected hinv
      exact ⟨hout, hd, hallowed c _ fresh h hd⟩
    · exact fun c ss a h hinv => hok c _ a h (h.sendable h.connected hinv).2
    · exact fun c ss h hinv => hfailed c _ h (h.sendable h.connected hinv).2
    · exact fun c ss h _ => h.lost
    · exact fun c ss h _ => h.toTxn

section Claim

variable {r : IdempotencyORM} (hlocked : K.vars.locked = true)
  (huncertain : K.vars.uncertain = false) (hscope : K.vars.scopeHash = some r.scopeHash)
  (hfingerprint : K.vars.fingerprint = some r.fingerprint) (hstate : r.state = .processing)
  (hk : K.role.isKeyed = true) (hclaimed : K.vars.claimed = false)

include hlocked huncertain hscope hfingerprint hstate hk hclaimed

/-- What the session has still to write is written before the record is inserted. -/
theorem emitClaim_meets {ps : List (Pending W)}
    (hps : ∀ p ∈ ps, (∃ w, p = .domain w) ∧ K.role ≠ .sweep ∧ K.Writes) :
    Meets cfg K.vars (fun c ss => Live K c { ss with unflushed := [] })
      (Task.emitAll (ps ++ [.claim r]) : Task W D Unit)
      (fun _ c ss => Live K.claim c { ss with unflushed := [] })
      fun c ss => Txn K c { ss with unflushed := [] } := by
  induction ps with
  | nil =>
      refine Meets.bind (sessionExecute_flushing (q := .insert r) nofun ?_ ?_
        fun _ _ h _ => h.touched.toTxn) fun _ => meets_pure fun _ _ h => h
      · exact fun c ss _ h hd => ⟨h.held hd hlocked huncertain hscope,
          ((h.claim hd h.active).1 hclaimed).1, hstate⟩
      · exact fun c ss _ h _ => insert_live h hscope hfingerprint hk
  | cons p ps ih =>
      obtain ⟨⟨w, rfl⟩, hrole, hwrites⟩ := hps p List.mem_cons_self
      have hemit : Meets cfg K.vars (fun c ss => Live K c { ss with unflushed := [] })
          (Task.emit (.domain w) : Task W D Unit)
          (fun _ c ss => Live K c { ss with unflushed := [] })
          fun c ss => Txn K c { ss with unflushed := [] } :=
        Meets.bind (sessionExecute_flushing (q := .write w) nofun
          (fun _ _ fresh h hd => h.allowsWrite hd hrole hwrites w fresh)
          (fun _ _ d h hd => h.wrote hd hwrites w d) fun _ _ h _ => h.touched.toTxn) fun _ =>
          meets_pure fun _ _ h => h
      exact hemit.bind fun _ => ih fun q hq => hps q (List.mem_cons_of_mem _ hq)

/-- `claim`: the flush that inserts the record either leaves a claim or nothing. -/
theorem claim_meets :
    Meets cfg K.vars (Live K) (IdempotencyRepository.claim r : Task W D Unit)
      (fun _ => Live K.claim) (Txn K) := by
  refine requireTransaction_meets (fun _ _ h => h.running) ?_
  refine Meets.bind (Q := fun _ c ss => Live K c { ss with unflushed := [] } ∧
    ∃ ps, ss.unflushed = ps ++ [.claim r] ∧
      ∀ p ∈ ps, (∃ w, p = .domain w) ∧ K.role ≠ .sweep ∧ K.Writes)
    (meets_modifySession fun c ss h => ?_) fun _ => ?_
  · exact ⟨h.clearUnflushed, ss.unflushed, rfl, h.unflushed⟩
  · refine meets_session fun o => ?_
    refine meets_of_cond (c := ∃ ps, (o.unflushed = ps ++ [.claim r] ∧
      ∀ p ∈ ps, (∃ w, p = .domain w) ∧ K.role ≠ .sweep ∧ K.Writes) ∧ o.transaction = .active)
      ?_ ?_
    · rintro ⟨ps, ⟨hun, hps⟩, htx⟩
      rw [hun, htx, if_neg (by simp)]
      refine Triple.handle (F := fun _ => At K.vars fun c ss => Txn K c { ss with unflushed := [] })
        ?_ deactivate_meets
      refine Meets.bind ((emitClaim_meets hlocked huncertain hscope hfingerprint hstate hk hclaimed
        hps).pre fun _ _ h => h.1.1) fun _ => meets_modifySession fun _ _ h => h
    · rintro c ss ⟨⟨h, ps, hps⟩, rfl⟩
      exact ⟨ps, hps, h.active⟩

end Claim

-- ============================================================================
-- begin
-- ============================================================================

/-- The execution has the lock of the scope `identity` and the fingerprint, but no claim. -/
structure Entered (K : Known W) (identity : Identity) (fingerprint : Text) : Prop where
  keyed : K.role.isKeyed = true
  locked : K.vars.locked = true
  uncertain : K.vars.uncertain = false
  claimed : K.vars.claimed = false
  scopeHash : K.vars.scopeHash = some identity.scopeHash
  fingerprint : K.vars.fingerprint = some fingerprint

/-- What is known behind `find`. -/
def Known.find (K : Known W) (found : Option (IdempotencyORM × Bool)) : Known W :=
  { K with found := found }

theorem Stays.find (K : Known W) (found : Option (IdempotencyORM × Bool)) :
    Stays K (K.find found) := ⟨rfl, rfl, .refl _⟩

theorem Stays.claim (K : Known W) : Stays K K.claim := ⟨rfl, rfl, rfl, rfl, rfl, rfl, rfl⟩

theorem Stays.clear (K : Known W) : Stays K K.clear := ⟨rfl, rfl, .refl _⟩

/-- From a transaction on its connection to some transaction of the same mutation. -/
theorem inTxn_of_txn {K' : Known W} (hs : Stays K K') (g : Ghost W) (s : Local W)
    (h : At K'.vars (Txn K') g s) : InTxn K (fun _ => True) g s := ⟨K', hs, trivial, h⟩

theorem inTxn_of_live {L : Known W} (hs : Stays K L) (g : Ghost W) (s : Local W)
    (h : At L.vars (Live L) g s) : InTxn K (fun _ => True) g s :=
  inTxn_of_txn hs g s (h.imp fun _ _ h => h.toTxn)

/-- What becomes of the record found: a replay of its response under the same fingerprint, or
    the way is clear for a claim. -/
theorem examine_triple {identity : Identity} {fingerprint : Text}
    {found : Option (IdempotencyORM × Bool)} (hK : Entered K identity fingerprint)
    (hcleared : K.cleared = false) (hfound : K.found = found) :
    Triple (contract cfg) (At K.vars (Live K))
      (IdempotencyExecution.examine cfg identity.scopeHash fingerprint found :
        Task W D (Option (Nat × List UInt8)))
      (fun r g s => ∃ K', Stays K K' ∧ Entered K' identity fingerprint ∧
        (∀ status body, r = some (status, body) → Replays K' status body) ∧ At K'.vars (Live K') g s)
      fun _ => InTxn K fun _ => True := by
  cases found with
  | none => exact triple_pure fun g s h => ⟨K, .refl K, hK, nofun, h⟩
  | some p =>
      obtain ⟨record, unexpired⟩ := p
      refine triple_ofExcept (fun r hr => ?_) fun e _ => inTxn_of_live (.refl K)
      cases r with
      | some replay =>
          refine triple_pure fun g s h => ⟨K, .refl K, hK, ?_, h⟩
          rintro status body hreplay
          obtain rfl := Option.some.inj hreplay
          obtain ⟨rfl, rfl, hstatus, hbody⟩ := checkRecord_replays hr
          exact ⟨hK.claimed, hcleared, record, hfound, hK.fingerprint, hstatus, hbody⟩
      | none =>
          refine Triple.bind ((deleteExpired_meets hK.locked hK.uncertain hK.scopeHash
            hK.claimed).raising (inTxn_of_txn (.refl K))) fun _ => ?_
          exact triple_pure fun g s h => ⟨K.clear, .clear K, { hK with }, nofun, h⟩

theorem beginLocked_triple {policy : Policy} {identity : Identity} {fingerprint : Text}
    (hK : Entered K identity fingerprint) (hcleared : K.cleared = false) :
    Triple (contract cfg) (At K.vars (Live K))
      (IdempotencyExecution.beginLocked cfg policy identity fingerprint :
        Task W D (Option (Nat × List UInt8)))
      (fun r => InTxn K fun K' => Begun K' r) fun _ => InTxn K fun _ => True := by
  refine Triple.bind (assertActive_meets.raising (inTxn_of_live (.refl K))) fun _ => ?_
  refine Triple.bind ((find_meets hK.locked hK.uncertain hK.scopeHash hK.claimed).raising
    (inTxn_of_txn (.refl K))) fun found => ?_
  have hfound := Stays.find K found
  refine Triple.bind ((examine_triple (K := K.find found) { hK with } hcleared rfl).conseq
    (fun _ _ h => h) (fun _ _ _ h => h) ?_) fun r => ?_
  · rintro e g s ⟨K', hs, -, h⟩
    exact ⟨K', hfound.trans hs, trivial, h⟩
  · rintro g s ⟨K', hs, hK', hreplays, h⟩
    have hs' := hfound.trans hs
    cases r with
    | some replay => exact ⟨K', hs', hreplays _ _ rfl, h.imp fun _ _ h => h.toTxn⟩
    | none =>
        refine Triple.bind ((claim_meets (K := K') (r := .claim policy identity fingerprint)
          hK'.locked hK'.uncertain hK'.scopeHash hK'.fingerprint rfl hK'.keyed hK'.claimed).raising
          (inTxn_of_txn hs')) (fun _ => ?_) g s h
        refine Triple.bind (triple_modifyVars (.inr rfl)) fun _ => ?_
        have hclaim := hs'.trans (Stays.claim K')
        refine Triple.bind (assertActive_meets.raising (inTxn_of_live (L := K'.claim) hclaim))
          fun _ => ?_
        refine triple_pure fun g s h => ⟨K'.claim, hclaim, ?_, h.imp fun _ _ h => h.toTxn⟩
        exact ⟨hK'.locked, hK'.uncertain, rfl, rfl⟩

/-- Assigning variables before there is a lock or a claim. -/
theorem setVars_triple {R : Core W → Prop} {f : Vars → Vars} {E : Exc → Ghost W → Local W → Prop}
    (hk : K.role.isKeyed = true) (hclaimed : K.vars.claimed = false)
    (hclaimed' : (f K.vars).claimed = false) (hresponse : (f K.vars).response = K.vars.response)
    (hlock : ∀ c ss, Txn K c ss → R c → c.doomed = false →
      Locking { K with vars := f K.vars } c.view) :
    Triple (contract cfg) (At K.vars fun c ss => Txn K c ss ∧ R c)
      (Task.modifyVars f : Task W D Unit)
      (fun _ => At (f K.vars) fun c ss => Txn { K with vars := f K.vars } c ss ∧ R c) E :=
  (triple_modifyVars (.inr hresponse)).post fun _ _ _ h => h.imp fun c ss ⟨ht, hR⟩ =>
    ⟨ht.setVars hk hclaimed hclaimed' (hlock c ss ht hR), hR⟩

theorem Live.setVars {c : Core W} {ss : SessionState W} (h : Live K c ss)
    (hk : K.role.isKeyed = true) (hclaimed : K.vars.claimed = false) {v : Vars}
    (hclaimed' : v.claimed = false) (hlock : c.doomed = false → Locking { K with vars := v } c.view) :
    Live { K with vars := v } c ss :=
  { h.toTxn.setVars hk hclaimed hclaimed' hlock with
    connected := h.connected
    active := h.active }

/-- What is known when the lock is asked for. -/
def Known.asking (K : Known W) (scopeHash fingerprint : Text) : Known W :=
  { K with
    vars :=
      { K.vars with
        scopeHash := some scopeHash
        fingerprint := some fingerprint
        uncertain := true } }

/-- What is known behind the answer, `locked` telling which it was. -/
def Known.answered (K : Known W) (scopeHash fingerprint : Text) (locked : Bool) : Known W :=
  { K with
    vars :=
      { K.vars with
        scopeHash := some scopeHash
        fingerprint := some fingerprint
        uncertain := false
        locked := locked } }

/-- The lock behind the answer to `GET_LOCK`. -/
def lockOf (scopeHash : Text) (acquired : Option Int) : LockView :=
  if acquired = some 1 then .held scopeHash
  else if acquired = some 0 then .free else .asked scopeHash

/-- `GET_LOCK` is asked once, by a mutation that has no lock. -/
theorem getLock_meets {scopeHash fingerprint : Text} (hrole : K.role = .keyed (some scopeHash))
    (hun : Unlocked K) :
    Meets cfg (K.asking scopeHash fingerprint).vars
      (fun c ss => Txn (K.asking scopeHash fingerprint) c ss ∧
        (c.doomed = false → c.view.lock = .free))
      (Task.sessionExecute (.getLock scopeHash) : Task W D (Option Int))
      (fun acquired c ss => Live (K.asking scopeHash fingerprint) c ss ∧
        (c.doomed = false → c.view.lock = lockOf scopeHash acquired))
      (Txn (K.asking scopeHash fingerprint)) := by
  have hkeyed : (K.asking scopeHash fingerprint).role.isKeyed = true := by
    show K.role.isKeyed = true
    rw [hrole]
    rfl
  have hasking {c : Core W} {ss : SessionState W} (h : Live (K.asking scopeHash fingerprint) c ss)
      (v : View W) (hclaim : v.claim = c.view.claim) (hcleared : v.cleared = c.view.cleared)
      (hwrites : v.writes = c.view.writes) :
      Live (K.asking scopeHash fingerprint) { c with view := v } ss := by
    refine h.setView' (fun _ => nofun) (fun hd => ?_) fun hd => hwrites.trans (h.whole hd h.active)
    have hold := h.claim hd h.active
    unfold Claiming at hold ⊢
    rw [hclaim, hcleared, hwrites]
    exact hold
  refine Meets.bind (connect_keeps (K := K.asking scopeHash fingerprint)
    (R := fun c => c.doomed = false → c.view.lock = .free) ?_) fun _ => ?_
  · intro hplain
    rw [hkeyed] at hplain
    cases hplain
  · refine execute_live (q := .getLock scopeHash) nofun (fun _ _ h => h.1) ?_ ?_ ?_
    · rintro c ss fresh ⟨h, hlock⟩ hd
      exact ⟨h.role.trans hrole, hlock hd, ((h.claim hd h.active).1 hun.2.2.1).1⟩
    · rintro c ss (acquired : Option Int) ⟨h, hlock⟩ hd
      refine ⟨hasking h _ rfl rfl rfl, fun _ => ?_⟩
      show (if acquired = some 1 then LockView.held scopeHash
        else if acquired = some 0 then c.view.lock else .asked scopeHash) = _
      rw [hlock hd]
      rfl
    · rintro c ss ⟨h, -⟩ -
      exact (hasking h (c.view.failed (.getLock scopeHash)) rfl rfl rfl).toTxn

theorem begin_triple {policy : Policy} {key : Text} {inputs : Inputs}
    (hrole : ∀ identity, identify cfg policy key = .ok identity →
      K.role = .keyed (some identity.scopeHash)) (hkeyed : K.role.isKeyed = true)
    (hun : Unlocked K) :
    Triple (contract cfg) (At K.vars (Txn K))
      (IdempotencyExecution.begin cfg policy key inputs :
        Task W D (Option (Nat × List UInt8)))
      (fun r => InTxn K fun K' => Begun K' r) fun _ => InTxn K fun _ => True := by
  obtain ⟨hlocked, huncertain, hclaimed, hcleared⟩ := hun
  refine Triple.bind (assertActive_meets.raising (inTxn_of_txn (.refl K))) fun _ => ?_
  refine triple_ofExcept (fun identity hidentity => ?_) fun e _ => inTxn_of_txn (.refl K)
  have hrole' := hrole identity hidentity
  have hfree {c : Core W} {ss : SessionState W} (h : Txn K c ss) (hd : c.doomed = false) :
      c.view.lock = .free := (h.lock hd huncertain).1 hlocked
  -- while the flags say that there is no lock, the connection has none
  have hunlocked (v : Vars) (hl : v.locked = false) {c : Core W}
      (hfree : c.doomed = false → c.view.lock = .free) (hd : c.doomed = false) :
      Locking { K with vars := v } c.view := by
    refine fun _ => ⟨fun _ => hfree hd, fun hl' => ?_⟩
    rw [show v.locked = true from hl'] at hl
    cases hl
  refine Triple.bind (Triple.pre (setVars_triple (K := K)
    (R := fun c => c.doomed = false → c.view.lock = .free) hkeyed hclaimed hclaimed rfl
    fun c ss _ hR hd => by
      refine hunlocked _ ?_ hR hd
      exact hlocked)
    fun g s h => h.imp fun c ss h => ⟨h, hfree h⟩) fun _ => ?_
  refine triple_ofExcept (fun fingerprint hfingerprint => ?_) fun e _ g s h => ?_
  · refine Triple.bind (setVars_triple
      (K := { K with vars := { K.vars with scopeHash := some identity.scopeHash } })
      (R := fun c => c.doomed = false → c.view.lock = .free) hkeyed hclaimed hclaimed rfl
      fun c ss _ hR hd => by
      refine hunlocked _ ?_ hR hd
      exact hlocked) fun _ => ?_
    have hasking : Stays K (K.asking identity.scopeHash fingerprint) :=
      ⟨rfl, rfl, rfl, rfl, rfl, rfl, rfl⟩
    refine Triple.bind ((getLock_meets hrole' ⟨hlocked, huncertain, hclaimed, hcleared⟩).raising
      (inTxn_of_txn hasking)) fun acquired => ?_
    have hanswered (locked : Bool) :
        Stays K (K.answered identity.scopeHash fingerprint locked) :=
      ⟨rfl, rfl, rfl, rfl, rfl, rfl, rfl⟩
    change Option Int at acquired
    show Triple _ _ (if acquired ≠ some 0 ∧ acquired ≠ some 1 then _ else _) _ _
    by_cases hrefused : acquired ≠ some 0 ∧ acquired ≠ some 1
    · rw [if_pos hrefused]
      refine triple_raise ?_
      intro g s h
      exact inTxn_of_live hasking g s (h.imp fun _ _ h => h.1)
    · rw [if_neg hrefused]
      refine Triple.bind (triple_modifyVars (.inr rfl)) fun _ => ?_
      by_cases hbusy : acquired = some 0
      · rw [if_pos hbusy]
        refine triple_raise ?_
        intro g s h
        refine inTxn_of_live (hanswered K.vars.locked) g s (h.imp fun c ss h => ?_)
        refine h.1.setVars hkeyed hclaimed hclaimed fun hd => ?_
        refine hunlocked _ ?_ (fun hd => ?_) hd
        · exact hlocked
        · rw [h.2 hd, hbusy]
          rfl
      · rw [if_neg hbusy]
        have hacquired : acquired = some 1 := by
          by_contra hne
          exact hrefused ⟨hbusy, hne⟩
        refine Triple.bind (triple_modifyVars (.inr rfl)) fun _ => ?_
        refine (beginLocked_triple (K := K.answered identity.scopeHash fingerprint true)
          ⟨hkeyed, rfl, rfl, hclaimed, rfl, rfl⟩ hcleared).conseq ?_ ?_ ?_
        · intro g s h
          refine h.imp fun c ss h => ?_
          refine h.1.setVars hkeyed hclaimed hclaimed fun hd _ => ⟨nofun, fun _ => ?_⟩
          refine ⟨identity.scopeHash, rfl, hrole', ?_⟩
          rw [h.2 hd, hacquired]
          rfl
        · rintro r g s ⟨K', hs, hF, h⟩
          exact ⟨K', (hanswered true).trans hs, hF, h⟩
        · rintro e g s ⟨K', hs, -, h⟩
          exact ⟨K', (hanswered true).trans hs, trivial, h⟩
  · exact ⟨{ K with vars := { K.vars with scopeHash := some identity.scopeHash } },
      ⟨rfl, rfl, rfl, rfl, rfl, rfl, rfl⟩, trivial, h.imp fun _ _ h => h.1⟩

-- ============================================================================
-- complete
-- ============================================================================

/-- What is known once the response is stored in the claim, if there is one. -/
def Known.complete (K : Known W) (response : Response) : Known W :=
  { K with
    stored := if K.vars.claimed then some (response.status, response.body) else K.stored }

theorem Stays.complete (K : Known W) (response : Response) : Stays K (K.complete response) :=
  ⟨rfl, rfl, .refl _⟩

/-- The response is stored in the claim. -/
theorem complete_live {c : Core W} {ss : SessionState W} (h : Live K c ss) (hd : c.doomed = false)
    (hclaim : HasClaim K) {scopeHash : Text} (response : Response) :
    Live (K.complete response)
      (c.answered (D := D) (.complete scopeHash response.status response.body) (1 : Nat)) ss := by
  obtain ⟨-, -, hclaimed, -⟩ := hclaim
  have hclaiming : Claiming (K.complete response)
      (c.view.answered (D := D) (.complete scopeHash response.status response.body)
        (1 : Nat)) := by
    refine ⟨fun hno => ?_, (h.claim hd h.active).2.1, fun _ => ?_⟩
    · rw [show K.vars.claimed = false from hno] at hclaimed
      cases hclaimed
    · obtain ⟨claim, hsome, -, hrest⟩ := (h.claim hd h.active).2.2 hclaimed
      refine ⟨{ claim with response := some (response.status, response.body) }, ?_, ?_, hrest⟩
      · show (if (1 : Nat) = 1 then c.view.claim.map _ else c.view.claim) = _
        rw [if_pos rfl, hsome]
        rfl
      · show some (response.status, response.body) =
          if K.vars.claimed then some (response.status, response.body) else K.stored
        rw [if_pos hclaimed]
  exact
    { h with
      lock := h.lock
      plain := h.plain
      settled := fun _ hde => by
        rw [h.active] at hde
        cases hde
      idle := fun hc => by
        rw [h.connected] at hc
        cases hc
      claim := fun _ _ => hclaiming }

/-- `complete` of the repository: either the response is stored, or the claim is as it was. -/
theorem repositoryComplete_meets {scopeHash : Text} {response : Response} (hclaim : HasClaim K)
    (hscope : K.vars.scopeHash = some scopeHash)
    (hvalid : validateResponse cfg response.status response.body cfg.maxResponseBytes = .ok ()) :
    Meets cfg K.vars (Txn K)
      (IdempotencyRepository.complete scopeHash response.status response.body : Task W D Unit)
      (fun _ => Live (K.complete response)) (Txn K) := by
  obtain ⟨hlocked, huncertain, hclaimed, hstored⟩ := hclaim
  refine requireTransaction_meets (fun _ _ h => h.running) ?_
  refine Meets.bind (Q := fun (rowcount : Nat) c ss =>
    Live (if rowcount = 1 then K.complete response else K) c ss) ?_ fun rowcount => ?_
  · refine sessionExecute_meets (q := .complete scopeHash response.status response.body) nofun ?_ ?_
      fun _ _ h _ => h.touched.toTxn
    · intro c ss _ h hd
      obtain ⟨claim, hsome, hresponse, hrecord, -⟩ := (h.claim hd h.active).2.2 hclaimed
      refine ⟨h.held hd hlocked huncertain hscope, ⟨claim, hsome, ?_, ?_⟩, hvalid⟩
      · exact Option.some.inj (hrecord.symm.trans hscope)
      · rw [hresponse, hstored]
    · rintro c ss (rowcount : Nat) h hd
      by_cases hone : rowcount = 1
      · rw [if_pos hone, hone]
        exact complete_live h hd ⟨hlocked, huncertain, hclaimed, hstored⟩ response
      · rw [if_neg hone]
        have hview : c.view.answered (D := D)
            (.complete scopeHash response.status response.body) rowcount =
            { c.view with active := true } := by
          show { c.view with
              active := true
              claim := if rowcount = 1 then _ else c.view.claim : View W } = _
          rw [if_neg hone]
        show Live K
          { c with
            view := c.view.answered (D := D)
              (.complete scopeHash response.status response.body) rowcount } ss
        rw [hview]
        exact h.touched
  · show Meets cfg K.vars _ (if rowcount = 1 then _ else _) _ _
    by_cases hone : rowcount = 1
    · rw [if_pos hone, if_pos hone]
      exact meets_pure fun _ _ h => h
    · rw [if_neg hone, if_neg hone]
      exact meets_raise fun _ _ h => h.toTxn

/-- `complete`: behind it a transaction with a claim is active. -/
theorem complete_meets {response : Response} (hclaim : K.vars.claimed = true → HasClaim K) :
    Meets cfg K.vars (Txn K) (IdempotencyExecution.complete cfg response : Task W D Unit)
      (fun _ c ss => Txn (K.complete response) c ss ∧
        (K.vars.claimed = true → ss.transaction = .active)) (Txn K) := by
  refine meets_vars ?_
  cases hclaimed : K.vars.claimed with
  | false =>
      refine meets_pure fun c ss h => ⟨?_, nofun⟩
      have hsame : K.complete response = K := by
        unfold Known.complete
        rw [hclaimed]
        rfl
      rw [hsame]
      exact h
  | true =>
      refine Meets.bind assertActive_meets fun _ => ?_
      cases hscope : K.vars.scopeHash with
      | none => exact meets_raise fun _ _ h => h
      | some scopeHash =>
          show Meets cfg K.vars (Txn K) (Task.ofExcept _ >>= _) _ _
          refine triple_ofExcept (fun _ hvalid => ?_) fun e _ g s h => h
          exact (repositoryComplete_meets (hclaim hclaimed) hscope hvalid).conseq
            (fun _ _ h => h) (fun _ _ _ h => ⟨h.toTxn, fun _ => h.active⟩) fun _ _ h => h

end Specs

end QuickApi.Mutation
