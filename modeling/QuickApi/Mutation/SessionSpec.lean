/-
  QuickApi.Mutation.SessionSpec

  What holds of session, connection and view inside `async with
  session.begin()` (`Txn`) and behind it (`Left`), and one triple for each
  operation of the session.
-/

import QuickApi.Mutation.Bookkeeping

namespace QuickApi.Mutation

open QuickApi.Fingerprint (Text)
open QuickApi.Lib QuickApi.Lib.Program

-- ============================================================================
-- Invariants of the session
-- ============================================================================

/-- What the session's programs leave alone. -/
structure Known (W : Type) where
  role : Role
  guarded : Bool
  vars : Vars
  found : Option (IdempotencyORM × Bool)
  /-- the response stored in the claim -/
  stored : Option (Nat × List UInt8)
  /-- an expired record may have been deleted -/
  cleared : Bool
  committed : Option (Option Claim × List W)

section Invariants

variable {W : Type}

/-- The flags of the execution tell whether the connection has the lock. -/
def Locking (K : Known W) (v : View W) : Prop :=
  K.vars.uncertain = false →
    (K.vars.locked = false → v.lock = .free) ∧
      (K.vars.locked = true →
        ∃ h, K.vars.scopeHash = some h ∧ K.role = .keyed (some h) ∧ v.lock = .held h)

/-- A transaction with a key and guarded dependencies writes under its claim only. -/
def Known.Writes (K : Known W) : Prop :=
  K.role.isKeyed = true → K.guarded = true → K.vars.claimed = true

/-- `claimed` tells whether the transaction has a claim. -/
def Claiming (K : Known W) (v : View W) : Prop :=
  (K.vars.claimed = false →
    v.claim = none ∧ (K.role.isKeyed = true → K.guarded = true → v.writes = [])) ∧
    (K.cleared = false → v.cleared = false) ∧
    (K.vars.claimed = true →
      ∃ claim, v.claim = some claim ∧ claim.response = K.stored ∧
        K.vars.scopeHash = some claim.record.scopeHash ∧
        K.vars.fingerprint = some claim.record.fingerprint)

/-- The connection that the session works on, and the flags about it. -/
structure Base (K : Known W) (c : Core W) (ss : SessionState W) : Prop where
  role : c.role = K.role
  guarded : c.guarded = K.guarded
  found : c.found = K.found
  committed : c.committed = K.committed
  bound : K.role.isKeyed = true ↔ ss.bind = .connection
  out : c.out = true ↔ ss.connected = true ∨ ss.bind = .connection
  doomed : c.out = true → (c.doomed = true ↔ ss.invalidated = true)
  lock : c.doomed = false → Locking K c.view
  plain : K.role.isKeyed = false →
    K.vars.locked = false ∧ K.vars.uncertain = false ∧ K.vars.claimed = false

/-- Inside `async with session.begin()`. -/
structure Txn (K : Known W) (c : Core W) (ss : SessionState W) : Prop extends Base K c ss where
  uncommitted : K.committed = none
  running : ss.transaction ≠ .none
  idle : ss.connected = false →
    c.view = .fresh ∧ c.written = [] ∧ (K.role.isKeyed = false → c.taken = false)
  whole : c.doomed = false → ss.transaction = .active → c.view.writes = c.written
  claimConnected : K.vars.claimed = true → ss.connected = true
  begun : ss.connected = true → ss.transaction = .active → ss.inTransaction = true
  settled : c.doomed = false → ss.transaction = .deactive → c.view = c.view.ended
  claim : c.doomed = false → ss.transaction = .active → Claiming K c.view
  unflushed : ∀ p ∈ ss.unflushed, (∃ w, p = .domain w) ∧ K.role ≠ .sweep ∧ K.Writes

/-- Inside `async with session.begin()`, begun on a connection. -/
structure Live (K : Known W) (c : Core W) (ss : SessionState W) : Prop extends Txn K c ss where
  connected : ss.connected = true
  active : ss.transaction = .active

/-- The transaction on the connection is over. -/
structure Over (K : Known W) (c : Core W) (ss : SessionState W) : Prop extends Base K c ss where
  ended : c.doomed = false → c.view = c.view.ended

/-- Behind `async with session.begin()`. -/
structure Left (K : Known W) (c : Core W) (ss : SessionState W) : Prop extends Over K c ss where
  transaction : ss.transaction = .none
  connected : ss.connected = false
  unflushed : ss.unflushed = []

@[simp] theorem View.ended_ended (v : View W) : v.ended.ended = v.ended := rfl

variable {K : Known W} {c : Core W} {ss : SessionState W}

theorem Base.out_of_connected (h : Base K c ss) (hc : ss.connected = true) : c.out = true :=
  h.out.mpr (.inl hc)

/-- Only a keyed execution binds the session to a connection. -/
theorem Base.not_keyed (h : Base K c ss) (hbind : ss.bind = .engine) :
    K.role.isKeyed = false := by
  rw [Bool.eq_false_iff]
  intro hk
  rw [h.bound.mp hk] at hbind
  cases hbind

/-- On a connection that has not been invalidated statements can be sent. -/
theorem Base.sendable (h : Base K c ss) (hc : ss.connected = true)
    (hinv : ss.invalidated = false) : c.out = true ∧ c.doomed = false := by
  have hout := h.out_of_connected hc
  refine ⟨hout, Bool.eq_false_iff.mpr fun hd => ?_⟩
  rw [(h.doomed hout).mp hd] at hinv
  cases hinv

theorem Base.lost (h : Base K c ss) : Base K c.lost { ss with invalidated := true } where
  role := h.role
  guarded := h.guarded
  found := h.found
  committed := h.committed
  bound := h.bound
  out := h.out
  doomed _ := ⟨fun _ => rfl, fun _ => rfl⟩
  lock hd := nomatch hd
  plain := h.plain

/-- A new view that accounts for the lock. -/
theorem Base.setView' (h : Base K c ss) {v : View W}
    (hlock : c.doomed = false → Locking K v) : Base K { c with view := v } ss :=
  { h with lock := hlock }

/-- A new view with the same lock. -/
theorem Base.setView (h : Base K c ss) {v : View W} (hlock : v.lock = c.view.lock) :
    Base K { c with view := v } ss :=
  h.setView' fun hd hu => by
    have hl := h.lock hd hu
    rw [← hlock] at hl
    exact hl

/-- What the rest of the session's state is does not matter to the connection. -/
theorem Base.setSession (h : Base K c ss) {ss' : SessionState W} (hbind : ss'.bind = ss.bind)
    (hconnected : ss'.connected = ss.connected) (hinv : ss'.invalidated = ss.invalidated) :
    Base K c ss' where
  role := h.role
  guarded := h.guarded
  found := h.found
  committed := h.committed
  bound := by rw [hbind]; exact h.bound
  out := by rw [hbind, hconnected]; exact h.out
  doomed := by rw [hinv]; exact h.doomed
  lock := h.lock
  plain := h.plain

theorem Live.lost (h : Live K c ss) : Txn K c.lost { ss with invalidated := true } where
  toBase := h.toBase.lost
  uncommitted := h.uncommitted
  running := h.running
  idle hc := by
    rw [show ss.connected = true from h.connected] at hc
    cases hc
  whole hd := nomatch hd
  claimConnected := h.claimConnected
  begun := h.begun
  settled hd := nomatch hd
  claim hd := nomatch hd
  unflushed := h.unflushed

/-- A new view that accounts for the lock, the claim and the writes. -/
theorem Live.setView' (h : Live K c ss) {v : View W} {written : List W}
    (hlock : c.doomed = false → Locking K v) (hclaim : c.doomed = false → Claiming K v)
    (hwhole : c.doomed = false → v.writes = written) :
    Live K { c with view := v, written := written } ss where
  toBase := { h.toBase with lock := hlock }
  uncommitted := h.uncommitted
  running := h.running
  idle hc := by
    rw [h.connected] at hc
    cases hc
  whole hd _ := hwhole hd
  claimConnected := h.claimConnected
  begun := h.begun
  settled _ hde := by
    rw [h.active] at hde
    cases hde
  claim hd _ := hclaim hd
  unflushed := h.unflushed
  connected := h.connected
  active := h.active

/-- A new view with the same lock and writes that accounts for the claim. -/
theorem Live.setView (h : Live K c ss) {v : View W} (hlock : v.lock = c.view.lock)
    (hwrites : v.writes = c.view.writes) (hclaim : c.doomed = false → Claiming K v) :
    Live K { c with view := v } ss :=
  h.setView' (h.toBase.setView hlock).lock hclaim fun hd => hwrites.trans (h.whole hd h.active)

end Invariants

-- ============================================================================
-- Connecting, statements
-- ============================================================================

section Triples

variable {W D : Type} {cfg : Config} {K : Known W}

/-- Beginning on the connection that the session is bound to. -/
theorem Txn.begin_bound {c : Core W} {ss : SessionState W} (h : Txn K c ss)
    (hbind : ss.bind = .connection) (hactive : ss.transaction = .active) :
    Live K c { ss with connected := true, inTransaction := true } where
  role := h.role
  guarded := h.guarded
  found := h.found
  committed := h.committed
  bound := h.bound
  out := ⟨fun _ => .inl rfl, fun _ => h.out.mpr (.inr hbind)⟩
  doomed := h.doomed
  lock := h.lock
  plain := h.plain
  uncommitted := h.uncommitted
  running := h.running
  idle hc := nomatch hc
  whole := h.whole
  claimConnected _ := rfl
  begun _ _ := rfl
  settled := h.settled
  claim := h.claim
  unflushed := h.unflushed
  connected := rfl
  active := hactive

/-- Beginning on a connection of the session's own. -/
theorem Txn.begin_own {c : Core W} {ss : SessionState W} (h : Txn K c ss)
    (hbind : ss.bind = .engine) (hconnected : ss.connected = false)
    (hactive : ss.transaction = .active) :
    Live K c.connected
      { ss with invalidated := false, connected := true, inTransaction := true } := by
  obtain ⟨hlocked, huncertain, hclaimed⟩ := h.plain (h.not_keyed hbind)
  refine { h with
    bound := h.bound
    out := ⟨fun _ => .inl rfl, fun _ => rfl⟩
    doomed := fun _ => ⟨nofun, nofun⟩
    lock := fun _ _ => ⟨fun _ => rfl, fun hl => ?_⟩
    idle := nofun
    whole := fun _ _ => (h.idle hconnected).2.1.symm
    claimConnected := fun _ => rfl
    begun := fun _ _ => rfl
    settled := fun _ hde => ?_
    claim := fun _ _ => ⟨fun _ => ⟨rfl, fun _ _ => rfl⟩, fun _ => rfl, fun hc => ?_⟩
    connected := rfl
    active := hactive }
  · rw [hlocked] at hl
    cases hl
  · rfl
  · rw [hclaimed] at hc
    cases hc

/-- The transaction begins on a connection; what is known of the connection of a keyed
    mutation stays known. -/
theorem connect_keeps {R : Core W → Prop}
    (hR : K.role.isKeyed = false → ∀ c, R c → R c.connected) :
    Meets cfg K.vars (fun c ss => Txn K c ss ∧ R c) (Task.connect : Task W D Unit)
      (fun _ c ss => Live K c ss ∧ R c) (Txn K) := by
  refine meets_session fun o => ?_
  cases htx : o.transaction with
  | none =>
      refine meets_of_cond (c := False) nofun ?_
      rintro c ss ⟨⟨h, -⟩, rfl⟩
      exact h.running htx
  | deactive => exact meets_raise fun c ss h => h.1.1
  | active =>
      have hguard : Meets cfg K.vars (fun c ss => Live K c ss ∧ R c)
          (do
            let v ← Task.vars
            if v.listening then Task.assertActive else pure () : Task W D Unit)
          (fun _ c ss => Live K c ss ∧ R c) (Txn K) := by
        refine meets_vars ?_
        split
        · exact assertActive_meets.conseq (fun _ _ h => h) (fun _ _ _ h => h)
            fun _ _ h => h.1.toTxn
        · exact meets_pure fun _ _ h => h
      cases hc : o.connected with
      | true =>
          refine meets_pure ?_
          rintro c ss ⟨⟨h, hr⟩, rfl⟩
          exact ⟨{ h with connected := hc, active := htx }, hr⟩
      | false =>
          simp only [Bool.false_eq_true, if_false]
          cases hbind : o.bind with
          | connection =>
              refine Meets.bind (meets_modifySession ?_) fun _ => hguard
              rintro c ss ⟨⟨h, hr⟩, rfl⟩
              exact ⟨h.begin_bound hbind htx, hr⟩
          | engine =>
              refine Meets.bind (Q := fun _ c ss => ∃ p : Core W × SessionState W,
                ((Txn K p.1 p.2 ∧ R p.1) ∧ p.2 = o) ∧ c = p.1.connected ∧
                  ss = { p.2 with invalidated := false, inTransaction := false }) ?_ fun _ => ?_
              · refine checkout_meets ?_ ?_ fun _ _ h => h.1.1
                · rintro c ss ⟨⟨h, -⟩, rfl⟩
                  exact (h.idle hc).2.2 (h.not_keyed hbind)
                · exact fun c ss h => ⟨(c, ss), h, rfl, rfl⟩
              · refine Meets.bind (meets_modifySession ?_) fun _ => hguard
                rintro c ss ⟨⟨c', ss'⟩, ⟨⟨h, hr⟩, rfl⟩, rfl, rfl⟩
                exact ⟨h.begin_own hbind hc htx, hR (h.not_keyed hbind) c' hr⟩

theorem connect_meets :
    Meets cfg K.vars (Txn K) (Task.connect : Task W D Unit) (fun _ => Live K) (Txn K) :=
  (connect_keeps (R := fun _ => True) fun _ _ h => h).conseq (fun _ _ h => ⟨h, trivial⟩)
    (fun _ _ _ h => h.1) fun _ _ h => h

/-- A transaction that is live stays as it is. -/
theorem connect_live {P E : Core W → SessionState W → Prop}
    (hP : ∀ c ss, P c ss → Live K c ss) :
    Meets cfg K.vars P (Task.connect : Task W D Unit) (fun _ => P) E := by
  refine meets_session fun o => ?_
  refine meets_of_cond (c := o.transaction = .active ∧ o.connected = true) ?_ ?_
  · rintro ⟨htx, hc⟩
    rw [htx]
    dsimp only
    rw [if_pos hc]
    exact meets_pure fun _ _ h => h.1
  · rintro c ss ⟨h, rfl⟩
    exact ⟨(hP c _ h).active, (hP c _ h).connected⟩

/-- A statement on a live connection. -/
theorem execute_live {P : Core W → SessionState W → Prop} {q : Stmt W}
    {Q : q.Value D → Core W → SessionState W → Prop} (hq : q ≠ .commit)
    (hP : ∀ c ss, P c ss → Live K c ss)
    (hallowed : ∀ c ss fresh, P c ss → c.doomed = false → q.Allowed cfg c fresh K.vars)
    (hok : ∀ c ss a, P c ss → c.doomed = false → Q a (c.answered q a) ss)
    (hfailed : ∀ c ss, P c ss → c.doomed = false → Txn K (c.failed q) ss) :
    Meets cfg K.vars P (Task.execute q : Task W D (q.Value D)) Q (Txn K) := by
  refine execute_meets hq ?_ ?_ ?_ ?_ ?_
  · intro c ss fresh h hinv
    obtain ⟨hout, hd⟩ := (hP c ss h).sendable (hP c ss h).connected hinv
    exact ⟨hout, hd, hallowed c ss fresh h hd⟩
  · intro c ss a h hinv
    exact hok c ss a h ((hP c ss h).sendable (hP c ss h).connected hinv).2
  · intro c ss h hinv
    exact hfailed c ss h ((hP c ss h).sendable (hP c ss h).connected hinv).2
  · exact fun c ss h _ => (hP c ss h).lost
  · exact fun c ss h _ => (hP c ss h).toTxn

theorem sessionExecute_live {P : Core W → SessionState W → Prop} {q : Stmt W}
    {Q : q.Value D → Core W → SessionState W → Prop} (hq : q ≠ .commit)
    (hP : ∀ c ss, P c ss → Live K c ss)
    (hallowed : ∀ c ss fresh, P c ss → c.doomed = false → q.Allowed cfg c fresh K.vars)
    (hok : ∀ c ss a, P c ss → c.doomed = false → Q a (c.answered q a) ss)
    (hfailed : ∀ c ss, P c ss → c.doomed = false → Txn K (c.failed q) ss) :
    Meets cfg K.vars P (Task.sessionExecute q : Task W D (q.Value D)) Q (Txn K) :=
  Meets.bind (connect_live hP) fun _ => execute_live hq hP hallowed hok hfailed

theorem sessionExecute_meets {q : Stmt W} {Q : q.Value D → Core W → SessionState W → Prop}
    (hq : q ≠ .commit)
    (hallowed : ∀ c ss fresh, Live K c ss → c.doomed = false → q.Allowed cfg c fresh K.vars)
    (hok : ∀ c ss a, Live K c ss → c.doomed = false → Q a (c.answered q a) ss)
    (hfailed : ∀ c ss, Live K c ss → c.doomed = false → Txn K (c.failed q) ss) :
    Meets cfg K.vars (Txn K) (Task.sessionExecute q : Task W D (q.Value D)) Q (Txn K) :=
  Meets.bind connect_meets fun _ => execute_live hq (fun _ _ h => h) hallowed hok hfailed

/-- A statement that is refused has only made the transaction active. -/
theorem Live.touched {c : Core W} {ss : SessionState W} (h : Live K c ss) :
    Live K { c with view := { c.view with active := true } } ss :=
  h.setView rfl rfl fun hd => h.claim hd h.active

theorem read_meets (w : W) :
    Meets cfg K.vars (Txn K) (Task.sessionExecute (.read w) : Task W D D) (fun _ => Txn K)
      (Txn K) :=
  sessionExecute_meets (q := .read w) nofun (fun _ _ _ _ _ => trivial)
    (fun _ _ _ h _ => h.touched.toTxn) fun _ _ h _ => h.touched.toTxn

section Writes

variable {c : Core W} {ss : SessionState W}

/-- A guarded transaction with a key writes only under its claim. -/
theorem Live.allowsWrite (h : Live K c ss) (hd : c.doomed = false) (hrole : K.role ≠ .sweep)
    (hwrites : K.Writes) (w : W) (fresh : Bool) :
    (Stmt.write w).Allowed cfg c fresh K.vars := by
  refine ⟨h.role ▸ hrole, h.committed.trans h.uncommitted, fun hk hg => ?_⟩
  obtain ⟨claim, hclaim, -⟩ :=
    (h.claim hd h.active).2.2 (hwrites (h.role ▸ hk) (h.guarded ▸ hg))
  rw [hclaim]
  exact nofun

theorem Live.wrote (h : Live K c ss) (hd : c.doomed = false) (hwrites : K.Writes) (w : W) (d : D) :
    Live K (c.answered (.write w) d) ss := by
  obtain ⟨hno, hcleared, hyes⟩ := h.claim hd h.active
  refine h.setView' (v := c.view.answered (D := D) (.write w) d) (fun _ => h.lock hd)
    (fun _ => ⟨fun hc => ?_, hcleared, hyes⟩) fun _ => congrArg (· ++ [w]) (h.whole hd h.active)
  refine ⟨(hno hc).1, fun hk hg => ?_⟩
  rw [hwrites hk hg] at hc
  cases hc

end Writes

theorem write_meets (w : W) (hrole : K.role ≠ .sweep) (hwrites : K.Writes) :
    Meets cfg K.vars (Txn K) (Task.sessionExecute (.write w) : Task W D D) (fun _ => Live K)
      (Txn K) :=
  sessionExecute_meets (q := .write w) nofun
    (fun _ _ fresh h hd => h.allowsWrite hd hrole hwrites w fresh)
    (fun _ _ d h hd => h.wrote hd hwrites w d) fun _ _ h _ => h.touched.toTxn

-- ============================================================================
-- Rolling back, leaving
-- ============================================================================

/-- However the statement ends, the transaction is over for the connection. -/
theorem rollbackConnection_meets :
    Meets cfg K.vars (fun c ss => Base K c ss ∧ ss.connected = true)
      (Task.rollbackConnection : Task W D Unit)
      (fun _ c ss => Over K c ss ∧ ss.connected = true)
      fun c ss => Over K c ss ∧ ss.connected = true := by
  have hset : Meets cfg K.vars (fun c ss => Over K c ss ∧ ss.connected = true)
      (Task.modifySession fun o => { o with inTransaction := false } : Task W D Unit)
      (fun _ c ss => Over K c ss ∧ ss.connected = true)
      (fun c ss => Over K c ss ∧ ss.connected = true) :=
    meets_modifySession fun c ss h => ⟨⟨h.1.toBase.setSession rfl rfl rfl, h.1.ended⟩, h.2⟩
  have hended {c : Core W} {ss : SessionState W} (h : Base K c ss) :
      Over K { c with view := c.view.ended } ss := ⟨h.setView rfl, fun _ => rfl⟩
  refine Meets.thenAlways (Q := fun _ c ss => Over K c ss ∧ ss.connected = true)
    (F := fun c ss => Over K c ss ∧ ss.connected = true) ?_ (fun _ => hset) hset
  refine meets_session fun o => ?_
  cases hinv : o.invalidated with
  | true =>
      refine meets_pure ?_
      rintro c ss ⟨⟨h, hc⟩, rfl⟩
      refine ⟨⟨h, fun hd => ?_⟩, hc⟩
      rw [(h.doomed (h.out_of_connected hc)).mpr hinv] at hd
      cases hd
  | false =>
      refine execute_meets (q := .rollback) nofun ?_ ?_ ?_ ?_ ?_
      · rintro c ss fresh ⟨⟨h, hc⟩, -⟩ hinv'
        obtain ⟨hout, hd⟩ := h.sendable hc hinv'
        exact ⟨hout, hd, trivial⟩
      · rintro c ss a ⟨⟨h, hc⟩, -⟩ -
        exact ⟨hended h, hc⟩
      · rintro c ss ⟨⟨h, hc⟩, -⟩ -
        exact ⟨hended h, hc⟩
      · rintro c ss ⟨⟨h, hc⟩, -⟩ -
        exact ⟨⟨h.lost, nofun⟩, hc⟩
      · rintro c ss ⟨-, rfl⟩ hinv'
        rw [hinv] at hinv'
        cases hinv'

/-- The session gives up its transaction; a connection of its own goes back. -/
theorem leave_meets :
    Meets cfg K.vars (Over K) (Task.leave : Task W D Unit) (fun _ => Left K) (Left K) := by
  refine meets_session fun o => ?_
  refine Meets.bind (Q := fun _ c ss => Over K c o ∧
    ss = { o with transaction := .none, connected := false, unflushed := [] })
    (meets_modifySession ?_) fun _ => ?_
  · rintro c ss ⟨h, rfl⟩
    exact ⟨h, rfl⟩
  · by_cases hown : o.connected = true ∧ o.bind = .engine
    · rw [if_pos hown]
      obtain ⟨hconnected, hbind⟩ := hown
      refine close_meets ?_ ?_
      · rintro c ss ⟨h, rfl⟩
        obtain ⟨hlocked, huncertain, -⟩ := h.plain (h.not_keyed hbind)
        refine ⟨h.out_of_connected hconnected, fun hd => ⟨(h.lock hd huncertain).1 hlocked, ?_⟩⟩
        rw [h.role, h.not_keyed hbind]
        exact nofun
      · rintro c ss ⟨h, rfl⟩
        have hleft : Left K c.closed
            { o with transaction := .none, connected := false, unflushed := [] } :=
          { role := h.role
            guarded := h.guarded
            found := h.found
            committed := h.committed
            bound := h.bound
            out := ⟨nofun, fun hout => by
              rcases hout with hout | hout
              · cases hout
              · rw [show o.bind = .connection from hout] at hbind
                cases hbind⟩
            doomed := nofun
            lock := h.lock
            plain := h.plain
            ended := h.ended
            transaction := rfl
            connected := rfl
            unflushed := rfl }
        exact ⟨hleft, hleft⟩
    · rw [if_neg hown]
      refine meets_pure ?_
      rintro c ss ⟨h, rfl⟩
      refine { h with
        bound := h.bound
        out := ?_
        doomed := h.doomed
        transaction := rfl
        connected := rfl
        unflushed := rfl }
      rw [h.out]
      constructor
      · rintro (hc | hb)
        · refine .inr ?_
          cases hb : o.bind with
          | engine => exact absurd ⟨hc, hb⟩ hown
          | connection => rfl
        · exact .inr hb
      · rintro (hc | hb)
        · cases hc
        · exact .inr hb

/-- A transaction that never got a connection has nothing to end. -/
theorem Txn.over_of_idle {c : Core W} {ss : SessionState W} (h : Txn K c ss)
    (hc : ss.connected = false) : Over K c ss := ⟨h.toBase, fun _ => by rw [(h.idle hc).1]; rfl⟩

theorem Left.rollback_meets :
    Meets cfg K.vars (Left K) (Task.sessionRollback : Task W D Unit) (fun _ => Left K)
      (Left K) := by
  refine meets_session fun o => ?_
  refine meets_of_cond (c := o.transaction = .none) (fun htx => ?_) ?_
  · rw [htx]
    exact meets_pure fun _ _ h => h.1
  · rintro c ss ⟨h, rfl⟩
    exact h.transaction

theorem sessionRollback_meets :
    Meets cfg K.vars (Txn K) (Task.sessionRollback : Task W D Unit) (fun _ => Left K)
      (Left K) := by
  refine meets_session fun o => ?_
  cases htx : o.transaction with
  | none =>
      refine meets_of_cond (c := False) nofun ?_
      rintro c ss ⟨h, rfl⟩
      exact h.running htx
  | deactive =>
      refine leave_meets.pre ?_
      rintro c ss ⟨h, rfl⟩
      exact ⟨h.toBase, fun hd => h.settled hd htx⟩
  | active =>
      refine Meets.thenAlways (Q := fun _ => Over K) (F := Over K) ?_ (fun _ => leave_meets)
        leave_meets
      cases hc : o.connected with
      | true =>
          refine rollbackConnection_meets.conseq ?_ (fun _ _ _ h => h.1) fun _ _ h => h.1
          rintro c ss ⟨h, rfl⟩
          exact ⟨h.toBase, hc⟩
      | false =>
          refine meets_pure ?_
          rintro c ss ⟨h, rfl⟩
          exact h.over_of_idle hc

-- ============================================================================
-- Flushing
-- ============================================================================

theorem Txn.clearUnflushed {c : Core W} {ss : SessionState W} (h : Txn K c ss) :
    Txn K c { ss with unflushed := [] } :=
  { h with bound := h.bound, out := h.out, doomed := h.doomed, unflushed := nofun }

/-- A transaction that has been rolled back waits for the end of its block. -/
theorem Over.deactive {c : Core W} {ss : SessionState W} (h : Over K c ss)
    (huncommitted : K.committed = none)
    (hidle : ss.connected = false →
      c.view = .fresh ∧ c.written = [] ∧ (K.role.isKeyed = false → c.taken = false))
    (hclaim : K.vars.claimed = true → ss.connected = true) :
    Txn K c { ss with transaction := .deactive, unflushed := [] } :=
  { h with
    bound := h.bound
    out := h.out
    doomed := h.doomed
    uncommitted := huncommitted
    running := nofun
    idle := hidle
    whole := nofun
    claimConnected := hclaim
    begun := nofun
    settled := fun hd _ => h.ended hd
    claim := nofun
    unflushed := nofun }

/-- Where a flush raises, the transaction is rolled back and waits, whatever was to be
    flushed. -/
theorem deactivate_meets {Q : Unit → Core W → SessionState W → Prop} (e : Exc) :
    Meets cfg K.vars (fun c ss => Txn K c { ss with unflushed := [] })
      (do
        let o ← Task.session
        Task.thenAlways (if o.connected then Task.rollbackConnection else pure ())
          (Task.modifySession fun o => { o with transaction := .deactive, unflushed := [] })
        Program.raise e : Task W D Unit) Q (Txn K) := by
  refine meets_session fun o => ?_
  refine Meets.bind (Q := fun _ => Txn K) ?_ fun _ => meets_raise fun _ _ h => h
  cases hc : o.connected with
  | true =>
      have hset : Meets cfg K.vars
          (fun c ss => (Over K c ss ∧ ss.connected = true) ∧ K.committed = none)
          (Task.modifySession fun o => { o with transaction := .deactive, unflushed := [] } :
            Task W D Unit) (fun _ => Txn K) (Txn K) := by
        refine meets_modifySession ?_
        rintro c ss ⟨⟨h, hc⟩, hu⟩
        refine h.deactive hu (fun hc' => ?_) fun _ => hc
        rw [hc] at hc'
        cases hc'
      refine meets_of_cond (c := K.committed = none) (fun hu => ?_)
        fun _ _ h => h.1.uncommitted
      refine Meets.thenAlways (rollbackConnection_meets.pre ?_)
        (fun _ => hset.pre fun _ _ h => ⟨h, hu⟩) (hset.pre fun _ _ h => ⟨h, hu⟩)
      rintro c ss ⟨h, rfl⟩
      exact ⟨h.toBase.setSession rfl rfl rfl, hc⟩
  | false =>
      have hset : Meets cfg K.vars (fun c ss => Txn K c { ss with unflushed := [] } ∧ ss = o)
          (Task.modifySession fun o => { o with transaction := .deactive, unflushed := [] } :
            Task W D Unit) (fun _ => Txn K) (Txn K) := by
        refine meets_modifySession ?_
        rintro c ss ⟨h, rfl⟩
        exact (h.over_of_idle hc).deactive h.uncommitted h.idle h.claimConnected
      exact Meets.thenAlways (Q := fun _ c ss => Txn K c { ss with unflushed := [] } ∧ ss = o)
        (F := fun c ss => Txn K c { ss with unflushed := [] } ∧ ss = o)
        (meets_pure fun _ _ h => h) (fun _ => hset) hset

theorem Live.clearUnflushed {c : Core W} {ss : SessionState W} (h : Live K c ss) :
    Live K c { ss with unflushed := [] } :=
  { h.toTxn.clearUnflushed with connected := h.connected, active := h.active }

theorem emitAll_meets {ps : List (Pending W)}
    (hps : ∀ p ∈ ps, (∃ w, p = .domain w) ∧ K.role ≠ .sweep ∧ K.Writes) :
    Meets cfg K.vars (fun c ss => Txn K c ss ∧ ss.transaction = .active)
      (Task.emitAll ps : Task W D Unit)
      (fun _ c ss => Txn K c ss ∧ ss.transaction = .active) (Txn K) := by
  induction ps with
  | nil => exact meets_pure fun _ _ h => h
  | cons p ps ih =>
      obtain ⟨⟨w, rfl⟩, hrole, hclaimed⟩ := hps p List.mem_cons_self
      have hemit : Meets cfg K.vars (fun c ss => Txn K c ss ∧ ss.transaction = .active)
          (Task.emit (.domain w) : Task W D Unit)
          (fun _ c ss => Txn K c ss ∧ ss.transaction = .active) (Txn K) :=
        Meets.bind ((write_meets w hrole hclaimed).pre fun _ _ h => h.1) fun _ =>
          meets_pure fun _ _ h => ⟨h.toTxn, h.active⟩
      exact hemit.bind fun _ => ih fun q hq => hps q (List.mem_cons_of_mem _ hq)

/-- A flush that returns leaves nothing to flush, and an active transaction active. -/
theorem flush_keeps {A : Prop} :
    Meets cfg K.vars (fun c ss => Txn K c ss ∧ (A → ss.transaction = .active))
      (Task.flush : Task W D Unit)
      (fun _ c ss => Txn K c ss ∧ (A → ss.transaction = .active) ∧ ss.unflushed = []) (Txn K) := by
  refine meets_session fun o => ?_
  split
  · next hempty =>
      refine meets_pure ?_
      rintro c ss ⟨h, rfl⟩
      exact ⟨h.1, h.2, List.isEmpty_iff.mp hempty⟩
  · cases htx : o.transaction with
    | none => exact meets_raise fun _ _ h => h.1.1
    | deactive => exact meets_raise fun _ _ h => h.1.1
    | active =>
        refine meets_of_cond (c := ∀ p ∈ o.unflushed, (∃ w, p = .domain w) ∧
          K.role ≠ .sweep ∧ K.Writes) (fun hps => ?_) ?_
        · refine Triple.handle (F := fun _ => At K.vars (Txn K)) ?_ fun e =>
            (deactivate_meets e).pre fun _ _ h => h.clearUnflushed
          refine Meets.bind ((emitAll_meets hps).pre ?_) fun _ => ?_
          · rintro c ss ⟨⟨h, -⟩, rfl⟩
            exact ⟨h, htx⟩
          · exact meets_modifySession fun _ _ h => ⟨h.1.clearUnflushed, fun _ => h.2, rfl⟩
        · rintro c ss ⟨⟨h, -⟩, rfl⟩
          exact h.unflushed

theorem flush_meets :
    Meets cfg K.vars (Txn K) (Task.flush : Task W D Unit) (fun _ => Txn K) (Txn K) :=
  (flush_keeps (A := False)).conseq (fun _ _ h => ⟨h, nofun⟩) (fun _ _ _ h => h.1) fun _ _ h => h

theorem add_meets (w : W) (hrole : K.role ≠ .sweep)
    (hclaimed : K.Writes) :
    Meets cfg K.vars (Txn K) (Task.add (.domain w) : Task W D Unit) (fun _ => Txn K)
      (Txn K) := by
  refine meets_modifySession fun c ss h => ?_
  refine { h with bound := h.bound, out := h.out, doomed := h.doomed, unflushed := ?_ }
  intro p hp
  rcases List.mem_append.mp hp with hp | hp
  · exact h.unflushed p hp
  · obtain rfl := List.mem_singleton.mp hp
    exact ⟨⟨w, rfl⟩, hrole, hclaimed⟩

-- ============================================================================
-- Committing
-- ============================================================================

/-- A request whose response allows its transaction to be committed. -/
def CommitReady (K : Known W) : Prop :=
  K.role = .sweep ∨
    ∃ r, K.vars.response = some r ∧ r.json = true ∧ r.background = false ∧ r.status < 400 ∧
      (K.vars.claimed = true → K.stored = some (r.status, r.body)) ∧
      (K.role.isKeyed = true → K.vars.claimed = false → K.cleared = false)

/-- What a commit has made durable: the claim of the transaction, if there is one. -/
def Durable (K : Known W) (m : Option (Option Claim × List W)) : Prop :=
  (K.vars.claimed = true →
    ∃ claim writes, m = some (some claim, writes) ∧ claim.response = K.stored ∧
      K.vars.scopeHash = some claim.record.scopeHash ∧
      K.vars.fingerprint = some claim.record.fingerprint) ∧
    (K.vars.claimed = false → ∀ claim writes, m = some (claim, writes) → claim = none)

/-- What is known behind a commit that made `m` durable. -/
def Known.commit (K : Known W) (m : Option (Option Claim × List W)) : Known W :=
  { K with committed := m }

theorem Live.committable {c : Core W} {ss : SessionState W} (h : Live K c ss)
    (hd : c.doomed = false) (hready : CommitReady K) :
    K.role = .sweep ∨ ∃ r, K.vars.response = some r ∧ Committable c r := by
  refine hready.imp_right ?_
  rintro ⟨r, hr, hjson, hbackground, hstatus, hstored, hkept⟩
  obtain ⟨hno, hcleared, hyes⟩ := h.claim hd h.active
  have hunclaimed (hnone : c.view.claim = none) : K.vars.claimed = false := by
    refine Bool.eq_false_iff.mpr fun hc => ?_
    obtain ⟨claim, hclaim, -⟩ := hyes hc
    rw [hnone] at hclaim
    cases hclaim
  refine ⟨r, hr, hjson, hbackground, hstatus, fun claim hclaim => ?_, fun hk hnone => ?_,
    fun hk hg hnone => ?_, h.whole hd h.active⟩
  · cases hc : K.vars.claimed with
    | true =>
        obtain ⟨claim', hclaim', hresponse, -⟩ := hyes hc
        obtain rfl := Option.some.inj (hclaim.symm.trans hclaim')
        rw [hresponse, hstored hc]
    | false =>
        rw [(hno hc).1] at hclaim
        cases hclaim
  · exact hcleared (hkept (h.role ▸ hk) (hunclaimed hnone))
  · exact (hno (hunclaimed hnone)).2 (h.role ▸ hk) (h.guarded ▸ hg)

/-- A commit on a live connection, right behind a check of the activity that passed. -/
theorem executeCommit_triple (hready : CommitReady K) :
    Triple (contract cfg)
      (fun g s => At K.vars (fun c ss => Live K c ss ∧ ss.unflushed = []) g s ∧
        (K.role = .sweep ∨ g.fresh = true))
      (Task.execute .commit : Task W D Unit)
      (fun _ => At K.vars fun c ss => ∃ m, Over (K.commit m) c ss ∧ Durable K m)
      fun _ => At K.vars (Over K) := by
  rintro g s ⟨⟨hseen, hv, hP, hflushed⟩, hfresh⟩
  cases hinv : s.session.invalidated with
  | true =>
      have hover : Over K g.core s.session := by
        refine ⟨hP.toBase, fun hd => ?_⟩
        rw [(hP.doomed (hP.out_of_connected hP.connected)).mpr hinv] at hd
        cases hd
      rw [Task.execute, wp_bind]
      show wp _ (if s.session.invalidated = true then _ else _) g s _
      rw [if_pos hinv]
      exact ⟨hseen, hv, hover⟩
  | false =>
      obtain ⟨hout, hd⟩ := hP.sendable hP.connected hinv
      have hallowed : (Stmt.commit : Stmt W).Allowed cfg g.core g.fresh s.vars := by
        refine ⟨hP.committed.trans hP.uncommitted, ?_⟩
        rw [hP.role, hv]
        rcases hP.committable hd hready with hsweep | hr
        · exact .inl hsweep
        · exact hfresh.imp_right fun hf => ⟨hf, hr⟩
      have hended : Over K { g.core with view := g.core.view.ended } s.session :=
        ⟨hP.toBase.setView rfl, fun _ => rfl⟩
      rw [Task.execute, wp_bind]
      show wp _ (if s.session.invalidated = true then _ else _) g s _
      rw [if_neg (by rw [hinv]; exact nofun)]
      refine ⟨⟨hseen.seen, ⟨hout, hd, hallowed⟩, fun _ => hflushed⟩, ?_⟩
      rintro a s' ⟨hsession, hvars, -, -⟩
      have hagrees : (g.after (D := D) (.stmt .commit) a s').Agrees s'.activity s'.vars :=
        ⟨.refl _, fun _ h => h⟩
      cases a with
      | ok a =>
          refine ⟨hagrees, hvars.trans hv, some (g.core.view.claim, g.core.view.writes), ?_, ?_⟩
          · rw [hsession]
            exact { hended with committed := rfl }
          · obtain ⟨hno, -, hyes⟩ := hP.claim hd hP.active
            refine ⟨fun hc => ?_, ?_⟩
            · obtain ⟨claim, hclaim, hrest⟩ := hyes hc
              exact ⟨claim, _, by rw [hclaim], hrest⟩
            · rintro hc claim writes hm
              obtain ⟨rfl, -⟩ := Prod.mk.inj (Option.some.inj hm)
              exact (hno hc).1
      | failed e => exact ⟨hagrees, hvars.trans hv, hsession ▸ hended⟩
      | lost e =>
          have hlost : Over K g.core.lost { s.session with invalidated := true } :=
            ⟨hP.toBase.lost, nofun⟩
          rw [← hsession] at hlost
          exact ⟨hagrees, hvars.trans hv, hlost⟩

/-- The commit at the end of the block, right behind a check of the activity that passed. -/
theorem sessionCommit_triple (hready : CommitReady K) :
    Triple (contract cfg)
      (fun g s => At K.vars
          (fun c ss => Txn K c ss ∧ ss.transaction = .active ∧ ss.unflushed = []) g s ∧
        (K.role = .sweep ∨ g.fresh = true))
      (Task.sessionCommit : Task W D Unit)
      (fun _ => At K.vars fun c ss => ∃ m, Left (K.commit m) c ss ∧ Durable K m)
      fun _ => At K.vars fun c ss => ∃ m, Left (K.commit m) c ss := by
  have hset {P : Option (Option Claim × List W) → Prop} {E : Core W → SessionState W → Prop} :
      Meets cfg K.vars (fun c ss => ∃ m, Over (K.commit m) c ss ∧ P m)
        (Task.modifySession fun o => { o with inTransaction := false } : Task W D Unit)
        (fun _ c ss => ∃ m, Over (K.commit m) c ss ∧ P m) E := by
    refine meets_modifySession ?_
    rintro c ss ⟨m, h, hm⟩
    exact ⟨m, ⟨h.toBase.setSession rfl rfl rfl, h.ended⟩, hm⟩
  have hleave {P : Option (Option Claim × List W) → Prop} :
      Meets cfg K.vars (fun c ss => ∃ m, Over (K.commit m) c ss ∧ P m)
        (Task.leave : Task W D Unit) (fun _ c ss => ∃ m, Left (K.commit m) c ss ∧ P m)
        (fun c ss => ∃ m, Left (K.commit m) c ss) := by
    refine meets_exists fun m => meets_of_cond (c := P m) (fun hm => ?_) fun _ _ h => h.2
    exact (leave_meets (K := K.commit m)).conseq (fun _ _ h => h.1)
      (fun _ _ _ h => ⟨m, h, hm⟩) fun _ _ h => ⟨m, h⟩
  have hsame {c : Core W} {ss : SessionState W} (h : Over K c ss) :
      ∃ m, Over (K.commit m) c ss ∧ True := ⟨K.committed, h, trivial⟩
  refine triple_session fun o => ?_
  refine triple_thenAlways
    (S := fun _ => At K.vars fun c ss => ∃ m, Over (K.commit m) c ss ∧ Durable K m)
    (F := fun _ => At K.vars fun c ss => ∃ m, Over (K.commit m) c ss ∧ True) ?_
    (fun _ => hleave) fun _ => hleave.conseq (fun _ _ h => h)
      (fun _ _ _ ⟨m, h, _⟩ => ⟨m, h⟩) fun _ _ h => h
  cases hc : o.connected with
  | true =>
      refine triple_thenAlways
        (S := fun _ => At K.vars fun c ss => ∃ m, Over (K.commit m) c ss ∧ Durable K m)
        (F := fun _ => At K.vars fun c ss => ∃ m, Over (K.commit m) c ss ∧ True) ?_
        (fun _ => hset) fun _ => hset
      refine (executeCommit_triple hready).conseq ?_ (fun _ _ _ h => h) fun _ _ _ h =>
        h.imp fun _ _ h => hsame h
      rintro g s ⟨⟨⟨hseen, hv, hP, htx, hflushed⟩, hfresh⟩, rfl⟩
      exact ⟨⟨hseen, hv, { hP with connected := hc, active := htx }, hflushed⟩, hfresh⟩
  | false =>
      refine Program.triple_pure ?_
      rintro g s ⟨⟨⟨hseen, hv, hP, htx, -⟩, -⟩, rfl⟩
      refine ⟨hseen, hv, K.committed, hP.over_of_idle hc, fun hclaimed => ?_, ?_⟩
      · rw [hP.claimConnected hclaimed] at hc
        cases hc
      · rw [hP.uncommitted]
        exact fun _ _ _ => nofun

end Triples

end QuickApi.Mutation
