/-
  QuickApi.Mutation.LockHygiene

  No advisory lock leaks into the pool: a connection goes back to it behind a
  confirmed release only, and one that was lost or invalidated never does.
-/

import QuickApi.Mutation.Invariance

namespace QuickApi.Mutation

open QuickApi.Fingerprint (Text)
open QuickApi.Lib

variable {W D : Type} {cfg : Config}

/-- The connection of mutation `i` was lost, or its invalidation was started. -/
def Connection.Discarded (k : Connection W) (i : Nat) : Prop := ∃ sent, k.holder = .orphan i sent

section States

variable {s : State W D} {i c : Nat} {p : Process W D} {l : Local W} {k : Connection W}

/-- A mutation that is about to close its connection gives back one without a lock, or one that
    is discarded. -/
theorem Coherent.closing (h : Coherent cfg s) (hp : s.processes[i]? = some p)
    {kont : Reply Unit → Local W → Coro (Op W) (Op.Ans D) (Local W) (Except Exc (Option Response))}
    (htree : p.tree = .call l .close kont) :
    ∃ c k, p.connection = some c ∧ s.server.connections[c]? = some k ∧
      (k.Discarded i ∨
        k.holder = .mutation i ∧ p.ghost.core.view.lock = .free ∧
          (p.ghost.core.role.isKeyed = true → l.vars.failed = false) ∧
          ∀ name, s.server.db.locks name ≠ some c) := by
  obtain ⟨hout, hfree⟩ := (h.keeps i p hp).allowed htree
  obtain ⟨c, k, hc, hk, -, horphan⟩ := (h.attached i p hp).out hout
  refine ⟨c, k, hc, hk, ?_⟩
  cases hdoomed : p.ghost.core.doomed with
  | true => exact .inl (horphan hdoomed)
  | false =>
      obtain ⟨hholder, hlinked⟩ := h.mine hp hout hdoomed hc hk
      obtain ⟨hlock, hfailed⟩ := hfree hdoomed
      refine .inr ⟨hholder, hlock, hfailed, fun name hname => ?_⟩
      cases halive : k.alive with
      | false => exact (h.dead hk halive).locks name hname
      | true =>
          rcases (hlinked halive).lock name hname with hheld | hasked
          · exact absurd (hlock.symm.trans hheld) nofun
          · exact absurd (hlock.symm.trans hasked) nofun

/-- A lock is released behind the end of the transaction, by the connection that has it. -/
theorem Coherent.releasing (h : Coherent cfg s) (hp : s.processes[i]? = some p) {name : Text}
    {kont : Reply (Option Int) → Local W →
      Coro (Op W) (Op.Ans D) (Local W) (Except Exc (Option Response))}
    (htree : p.tree = .call l (.stmt (.releaseLock name)) kont) :
    ∃ c k, p.connection = some c ∧ s.server.connections[c]? = some k ∧ k.holder = .mutation i ∧
      s.server.db.begun c = false ∧ (∀ j, s.server.db.rows.owner j ≠ some c) ∧
      (k.alive = true → s.server.db.locks name = some c) := by
  obtain ⟨hout, hdoomed, hheld, hidle⟩ := (h.keeps i p hp).allowed htree
  obtain ⟨c, k, hc, hk, -, -⟩ := (h.attached i p hp).out hout
  obtain ⟨hholder, hlinked⟩ := h.mine hp hout hdoomed hc hk
  refine ⟨c, k, hc, hk, hholder, ?_⟩
  cases halive : k.alive with
  | false =>
      have hbare := h.dead hk halive
      exact ⟨hbare.begun, hbare.rows, nofun⟩
  | true =>
      have hlink := hlinked halive
      exact ⟨hlink.begun.trans hidle, hlink.idle hidle, fun _ => hlink.held name hheld⟩

theorem Coherent.pooled (h : Coherent cfg s) (hk : s.server.connections[c]? = some k)
    (hpool : k.holder = .pool) : Bare s.server.db c := by
  have hfits := (h.fits c k hk).2
  rw [hpool] at hfits
  exact hfits

/-- A mutation that has ended has given its connection back and its session is as it was. -/
theorem Coherent.finished (h : Coherent cfg s) (hp : s.processes[i]? = some p)
    {r : Except Exc (Option Response)} (htree : p.tree = .ret l r) :
    p.connection = none ∧ l.session.bind = .engine := by
  have hconforms := (h.keeps i p hp).conforms
  rw [htree] at hconforms
  have hend : p.ghost.core.out = false ∧ l.session.bind = .engine := by
    unfold Coro.Conforms Job.Finished at hconforms
    split at hconforms
    · obtain ⟨r', -, hfinished⟩ := hconforms
      exact ⟨hfinished.out, hfinished.bind⟩
    · exact hconforms.2
  exact ⟨(h.attached i p hp).idle hend.1, hend.2⟩

end States

-- ============================================================================
-- Discarded connections
-- ============================================================================

section Discarded

variable {sv sv' : Server W} {i j c d : Nat} {k m : Connection W}

/-- A discarded connection. -/
def Server.Discards (sv : Server W) (c j : Nat) : Prop :=
  ∃ k, sv.connections[c]? = some k ∧ k.Discarded j

/-- Connection `c` is replaced by `m`; one that was discarded stays so. -/
theorem Server.Discards.set (h : sv.Discards d j)
    (hm : ∀ k, sv.connections[c]? = some k → k.Discarded j → m.Discarded j)
    (hconnections : sv'.connections = sv.connections.set c m) : sv'.Discards d j := by
  obtain ⟨k, hk, hdiscarded⟩ := h
  unfold Server.Discards
  rw [hconnections]
  by_cases hcd : c = d
  · subst hcd
    have hlt : c < sv.connections.length := (List.getElem?_eq_some_iff.mp hk).1
    exact ⟨m, List.getElem?_set_self hlt, hm k hk hdiscarded⟩
  · exact ⟨k, (List.getElem?_set_ne hcd).trans hk, hdiscarded⟩

/-- Only the connections matter. -/
theorem Server.Discards.congr (h : sv.Discards d j) (hsame : sv'.connections = sv.connections) :
    sv'.Discards d j := by
  unfold Server.Discards
  rw [hsame]
  exact h

theorem Connection.Discarded.not_mutation (h : k.Discarded j) : k.holder ≠ .mutation i := by
  obtain ⟨sent, hsent⟩ := h
  rw [hsent]
  exact nofun

theorem Server.Discards.checkout (h : sv.Discards d j) (hcheckout : sv.checkout i c = some sv') :
    sv'.Discards d j := by
  unfold Server.checkout at hcheckout
  split at hcheckout
  · obtain ⟨-, heq⟩ := Option.ite_none_right_eq_some.mp hcheckout
    obtain rfl := Option.some.inj heq
    obtain ⟨k, hk, hdiscarded⟩ := h
    refine ⟨k, ?_, hdiscarded⟩
    exact (List.getElem?_append_left (List.getElem?_eq_some_iff.mp hk).1).trans hk
  · next k hk =>
      split at hcheckout
      · next hpool =>
          obtain rfl := Option.some.inj hcheckout
          refine h.set (fun k' hk' hdiscarded => ?_) rfl
          obtain rfl := Option.some.inj (hk.symm.trans hk')
          obtain ⟨sent, hsent⟩ := hdiscarded
          exact absurd (hpool.symm.trans hsent) nofun
      · cases hcheckout

theorem Server.Discards.exchange (h : sv.Discards d j) (hk : sv.connections[c]? = some k)
    (hholder : ∃ i, k.holder = .mutation i) {st : Stmt W} {a : Answer D} {r : Reply (st.Value D)}
    (hexchange : sv.exchange i c st k a = some (r, sv')) : sv'.Discards d j := by
  rcases Server.exchange_cases hexchange with ⟨e, -, rfl⟩ | ⟨e, -, -, rfl⟩ | ⟨v, -, -, hex⟩
  · refine h.set (fun k' hk' hdiscarded => ?_) rfl
    obtain rfl := Option.some.inj (hk.symm.trans hk')
    obtain ⟨i, hi⟩ := hholder
    exact absurd hi hdiscarded.not_mutation
  · exact h.congr rfl
  · exact h.congr (Server.execute_eq_some hex).2

theorem Server.Discards.performed (h : sv.Discards d j) {conn conn' : Option Nat} {op : Op W}
    {v : op.Ans D} (hperformed : sv.Performed i conn op v conn' sv') : sv'.Discards d j := by
  cases hperformed with
  | clock => exact h
  | checkout hcheckout => exact h.checkout hcheckout
  | refused r hr => exact h
  | stmt hc hk hholder hexchange => exact h.exchange hk hholder hexchange
  | invalidate hc hk r =>
      unfold Server.invalidate
      split
      · next hholder =>
          refine h.set (fun k' hk' hdiscarded => ?_) rfl
          obtain rfl := Option.some.inj (hk.symm.trans hk')
          exact absurd hholder hdiscarded.not_mutation
      · exact h
  | close hc hk r =>
      unfold Server.release
      split
      · next hholder =>
          refine h.set (fun k' hk' hdiscarded => ?_) rfl
          obtain rfl := Option.some.inj (hk.symm.trans hk')
          exact absurd hholder hdiscarded.not_mutation
      · exact h
  | pause r => exact h

end Discarded

/-- No event takes a discarded connection up again. -/
theorem State.discards_next {s s' : State W D} {c j : Nat} (h : s.server.Discards c j)
    {e : Event W D} (hnext : s.next cfg e = some s') : s'.server.Discards c j := by
  cases State.stepped hnext with
  | arrive job activity sessionKey context => exact h
  | pass milliseconds _ => exact h
  | abandon hp habandon => exact h
  | resume hp htree hperformed => exact h.performed hperformed
  | @late d k i st a v sv hk hholder halive hex =>
      have hsame := (Server.execute_eq_some hex).2
      refine (h.congr hsame).set (c := d) (m := { k with holder := .orphan i none })
        (fun k' hk' hdiscarded => ?_) rfl
      rw [hsame] at hk'
      obtain rfl := Option.some.inj (hk.symm.trans hk')
      obtain ⟨sent, hsent⟩ := hdiscarded
      obtain ⟨rfl, -⟩ := Holder.orphan.inj (hholder.symm.trans hsent)
      exact ⟨none, rfl⟩
  | @drop d k hk =>
      refine h.set (c := d) (m := { k with alive := false }) (fun k' hk' hdiscarded => ?_) rfl
      obtain rfl := Option.some.inj (hk.symm.trans hk')
      exact hdiscarded

theorem State.discards_run {s s' : State W D} {c j : Nat} (h : s.server.Discards c j)
    {es : List (Event W D)} (hrun : (mutationSystem cfg W D).run s es = some s') :
    s'.server.Discards c j :=
  System.run_preserves (P := fun s => s.server.Discards c j)
    (fun _ _ _ hd hnext => State.discards_next hd hnext) h hrun

-- ============================================================================
-- No lock leaks
-- ============================================================================

/-- In every reachable state: a connection in the pool has nothing at the server; one that a
    mutation is about to close has no lock and its request has not failed, or it is discarded,
    and then it never goes back; `RELEASE_LOCK` is sent behind the end of the transaction; and a
    mutation that has ended has restored the bind of its session. -/
theorem no_lock_leaks (cfg : Config) {s : State W D} (hs : (mutationSystem cfg W D).Reachable s) :
    (∀ (c : Nat) (k : Connection W), s.server.connections[c]? = some k → k.holder = .pool →
        Bare s.server.db c) ∧
      (∀ (i : Nat) (p : Process W D) l kont, s.processes[i]? = some p →
        p.tree = .call l .close kont →
        ∃ c k, p.connection = some c ∧ s.server.connections[c]? = some k ∧
          (k.Discarded i ∨
            k.holder = .mutation i ∧ p.ghost.core.view.lock = .free ∧
              (p.ghost.core.role.isKeyed = true → l.vars.failed = false) ∧
              ∀ name, s.server.db.locks name ≠ some c)) ∧
      (∀ (c i : Nat) es s', s.server.Discards c i → (mutationSystem cfg W D).run s es = some s' →
        s'.server.Discards c i) ∧
      (∀ (i : Nat) (p : Process W D) l name kont, s.processes[i]? = some p →
        p.tree = .call l (.stmt (.releaseLock name)) kont →
        ∃ c k, p.connection = some c ∧ s.server.connections[c]? = some k ∧
          k.holder = .mutation i ∧ s.server.db.begun c = false ∧
          (∀ j, s.server.db.rows.owner j ≠ some c) ∧
          (k.alive = true → s.server.db.locks name = some c)) ∧
      ∀ (i : Nat) (p : Process W D) l r, s.processes[i]? = some p → p.tree = .ret l r →
        p.connection = none ∧ l.session.bind = .engine := by
  have h := (coherent_invariant cfg).of_reachable hs
  exact ⟨fun c k hk hpool => h.pooled hk hpool, fun i p l kont hp htree => h.closing hp htree,
    fun c i es s' hdiscards hrun => State.discards_run hdiscards hrun,
    fun i p l name kont hp htree => h.releasing hp htree,
    fun i p l r hp htree => h.finished hp htree⟩

/-- Behind the sample request its connection is in the pool. -/
theorem no_lock_leaks_sample :
    ∃ s k, (mutationSystem sampleConfig Unit Unit).run sampleStart sampleFirst = some s ∧
      s.server.connections[0]? = some k ∧ k.holder = .pool ∧ Bare s.server.db 0 := by
  have hrun : ((mutationSystem sampleConfig Unit Unit).run sampleStart sampleFirst).map
      (fun s => (s.server.connections.length, (s.server.checkout 1 0).isSome)) =
      some (1, true) := by
    decide +kernel
  obtain ⟨s, hs, hseen⟩ := Option.map_eq_some_iff.mp hrun
  obtain ⟨hlength, hcheckout⟩ := Prod.mk.inj hseen
  obtain ⟨k, hcons⟩ := List.length_eq_one_iff.mp hlength
  have hfirst : s.server.connections[0]? = some k := by
    rw [hcons]
    rfl
  -- only a connection of the pool can be given out
  have hholder : k.holder = .pool := by
    unfold Server.checkout at hcheckout
    rw [hfirst] at hcheckout
    dsimp only at hcheckout
    split at hcheckout
    · assumption
    · cases hcheckout
  exact ⟨s, k, hs, hfirst, hholder,
    (no_lock_leaks sampleConfig (sample_reachable hs)).1 0 k hfirst hholder⟩

-- ============================================================================
-- The pool
-- ============================================================================

/-- The lock of its connection is not confirmed to be free, or its request has failed. -/
def Process.Unconfirmed (p : Process W D) (l : Local W) : Prop :=
  p.ghost.core.view.lock ≠ .free ∨ p.ghost.core.role.isKeyed = true ∧ l.vars.failed = true

/-- A connection comes back to the pool without a lock and a transaction, or not at all. -/
structure State.Returns (cfg : Config) (s : State W D) : Prop where
  /-- a connection in the pool has no lock, no open transaction and no row -/
  pooled : ∀ (c : Nat) (k : Connection W), s.server.connections[c]? = some k →
    k.holder = .pool → Bare s.server.db c
  /-- one that is given back un-invalidated has no lock before the pool resets it -/
  closing : ∀ (i : Nat) (p : Process W D) l kont, s.processes[i]? = some p →
    p.tree = .call l .close kont → ∃ c, p.connection = some c ∧
      (¬ s.server.Discards c i → ∀ name, s.server.db.locks name ≠ some c)
  /-- where ownership or release is not confirmed, or the request has failed, it was invalidated
      or lost, and no further run takes it up again -/
  invalidated : ∀ (i : Nat) (p : Process W D) l kont, s.processes[i]? = some p →
    p.tree = .call l .close kont → p.Unconfirmed l → ∃ c, p.connection = some c ∧
      ∀ es s', (mutationSystem cfg W D).run s es = some s' → s'.server.Discards c i
  /-- `RELEASE_LOCK` is sent on a connection without a transaction or a row -/
  releasing : ∀ (i : Nat) (p : Process W D) l name kont, s.processes[i]? = some p →
    p.tree = .call l (.stmt (.releaseLock name)) kont → ∃ c, p.connection = some c ∧
      s.server.db.begun c = false ∧ ∀ k, s.server.db.rows.owner k ≠ some c
  /-- a mutation that has ended, however, has no connection and the bind it came with -/
  restored : ∀ (i : Nat) (p : Process W D) l r, s.processes[i]? = some p → p.tree = .ret l r →
    p.connection = none ∧ l.session.bind = .engine

/-- In every reachable state no lock gets into the pool. -/
theorem locks_never_pooled (cfg : Config) {s : State W D}
    (hs : (mutationSystem cfg W D).Reachable s) : s.Returns cfg := by
  have h := (coherent_invariant cfg).of_reachable hs
  constructor
  case pooled => exact fun c k hk hpool => h.pooled hk hpool
  case closing =>
    intro i p l kont hp htree
    obtain ⟨c, k, hc, hk, hdiscarded | ⟨-, -, -, hfree⟩⟩ := h.closing hp htree
    · exact ⟨c, hc, fun hkept => absurd ⟨k, hk, hdiscarded⟩ hkept⟩
    · exact ⟨c, hc, fun _ => hfree⟩
  case invalidated =>
    intro i p l kont hp htree hunconfirmed
    obtain ⟨c, k, hc, hk, hdiscarded | ⟨-, hlock, hfailed, -⟩⟩ := h.closing hp htree
    · exact ⟨c, hc, fun es s' hrun => State.discards_run ⟨k, hk, hdiscarded⟩ hrun⟩
    · rcases hunconfirmed with hheld | ⟨hkeyed, hfail⟩
      · exact absurd hlock hheld
      · rw [hfailed hkeyed] at hfail
        cases hfail
  case releasing =>
    intro i p l name kont hp htree
    obtain ⟨c, -, hc, -, -, hbegun, hrows, -⟩ := h.releasing hp htree
    exact ⟨c, hc, hbegun, hrows⟩
  case restored => exact fun i p l r hp htree => h.finished hp htree

/-- The answer to `GET_LOCK` of the sample request is NULL; it is about to close its connection. -/
def sampleUnconfirmed : List (Event Unit Unit) :=
  .arrive (.request sampleRequest) .new false none :: .resume 0 .done :: .resume 0 (.connection 0) ::
    (List.replicate 3 (.resume 0 .done) ++
      .resume 0 (.unconfirmed none true) :: List.replicate 2 (.resume 0 .done))

/-- It was invalidated. -/
theorem locks_never_pooled_unconfirmed :
    ∃ s, (mutationSystem sampleConfig Unit Unit).run sampleStart sampleUnconfirmed = some s ∧
      s.server.db.locks ['h'] = some 0 ∧ s.server.Discards 0 0 := by
  have hrun : ((mutationSystem sampleConfig Unit Unit).run sampleStart sampleUnconfirmed).map
      (fun s => (s.server.db.locks ['h'], s.processes.map fun p =>
        (p.tree.pending, p.connection, decide (p.ghost.core.view.lock = .free)))) =
      some (some 0, [(some .close, some 0, false)]) := by
    decide +kernel
  obtain ⟨s, hs, hseen⟩ := Option.map_eq_some_iff.mp hrun
  obtain ⟨hlock, hprocesses⟩ := Prod.mk.inj hseen
  obtain ⟨p, rest, hcons, hp, -⟩ := List.map_eq_cons_iff.mp hprocesses
  obtain ⟨hpending, hrest⟩ := Prod.mk.inj hp
  obtain ⟨hconnection, hheld⟩ := Prod.mk.inj hrest
  have hfirst : s.processes[0]? = some p := by
    rw [hcons]
    rfl
  cases htree : p.tree with
  | ret l r =>
      rw [htree] at hpending
      cases hpending
  | call l op kont =>
      rw [htree] at hpending
      obtain rfl := Option.some.inj hpending
      obtain ⟨c, hc, hdiscards⟩ := (locks_never_pooled sampleConfig (sample_reachable hs)).invalidated
        0 p l kont hfirst htree (.inl (of_decide_eq_false hheld))
      obtain rfl := Option.some.inj (hconnection.symm.trans hc)
      exact ⟨s, hs, hlock, hdiscards [] s rfl⟩

end QuickApi.Mutation
