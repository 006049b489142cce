/-
  QuickApi.Mutation.Chronicle

  The history of commits: each is accounted for by its mutation, which commits
  once, whether it learns of it or not, and it leads from the records before
  it to those behind it.
-/

import QuickApi.Lib.Ledger
import QuickApi.Mutation.Accounting
import QuickApi.Mutation.Replay

namespace QuickApi.Mutation

open QuickApi.Fingerprint (Text)
open QuickApi.Lib

variable {W D : Type} {cfg : Config}

-- ============================================================================
-- Connections of a mutation
-- ============================================================================

/-- What an event does to the holders of connections. -/
inductive Server.Reheld (sv sv' : Server W) : Prop where
  | same (h : sv'.connections = sv.connections)
  /-- mutation `i`, which has had none, is given a connection -/
  | given (c i : Nat)
      (hnone : ∀ (d : Nat) (k : Connection W), sv.connections[d]? = some k → ¬ k.holder.Of i)
      (h : ∀ (d : Nat) (m : Connection W), sv'.connections[d]? = some m →
        d = c ∧ m.holder = .mutation i ∨ sv.connections[d]? = some m)
  /-- a connection changes, but does not come to another mutation -/
  | kept (c : Nat) (k m : Connection W) (hk : sv.connections[c]? = some k)
      (hm : ∀ j, m.holder.Of j → k.holder.Of j)
      (h : sv'.connections = sv.connections.set c m)

/-- No mutation has two connections, counting those it has lost. -/
def Server.Single (sv : Server W) : Prop :=
  ∀ (c d j : Nat) (k m : Connection W), sv.connections[c]? = some k → sv.connections[d]? = some m →
    k.holder.Of j → m.holder.Of j → c = d

/-- A commit of mutation `j` is still on its way, on a connection it has lost. -/
def Server.Pending (sv : Server W) (j : Nat) : Prop :=
  ∃ (c : Nat) (k : Connection W),
    sv.connections[c]? = some k ∧ k.holder = .orphan j (some .commit)

section Holders

variable {sv sv' : Server W} {i c d j : Nat} {k m : Connection W}

/-- An element of a list behind a change at `c`. -/
theorem getElem?_set_cases {α : Type} {xs : List α} {x y : α}
    (hy : (xs.set c x)[d]? = some y) : c = d ∧ y = x ∨ c ≠ d ∧ xs[d]? = some y := by
  rw [List.getElem?_set] at hy
  split at hy
  · next hcd =>
      obtain ⟨-, heq⟩ := Option.ite_none_right_eq_some.mp hy
      exact .inl ⟨hcd, (Option.some.inj heq).symm⟩
  · next hcd => exact .inr ⟨hcd, hy⟩

theorem Server.Single.reheld (h : sv.Single) (hreheld : sv.Reheld sv') : sv'.Single := by
  intro a b j n n' hn hn' hof hof'
  cases hreheld with
  | same heq =>
      rw [heq] at hn hn'
      exact h a b j n n' hn hn' hof hof'
  | given c i hnone hconnections =>
      have hold {d : Nat} {m : Connection W} (hd : d = c ∧ m.holder = .mutation i)
          {d' : Nat} {m' : Connection W} (hd' : sv.connections[d']? = some m')
          (hof : m.holder.Of j) (hof' : m'.holder.Of j) : d = d' := by
        obtain rfl := hof.eq (.inl hd.2)
        exact absurd hof' (hnone d' m' hd')
      rcases hconnections a n hn with ha | ha
      · rcases hconnections b n' hn' with hb | hb
        · exact ha.1.trans hb.1.symm
        · exact hold ha hb hof hof'
      · rcases hconnections b n' hn' with hb | hb
        · exact (hold hb ha hof' hof).symm
        · exact h a b j n n' ha hb hof hof'
  | kept c k m hk hm heq =>
      have hold {d : Nat} {n : Connection W} (hn : sv'.connections[d]? = some n)
          (hof : n.holder.Of j) : ∃ n', sv.connections[d]? = some n' ∧ n'.holder.Of j := by
        rw [heq] at hn
        rcases getElem?_set_cases hn with ⟨rfl, rfl⟩ | ⟨-, hd⟩
        · exact ⟨k, hk, hm j hof⟩
        · exact ⟨n, hd, hof⟩
      obtain ⟨x, hx, hxof⟩ := hold hn hof
      obtain ⟨y, hy, hyof⟩ := hold hn' hof'
      exact h a b j x y hx hy hxof hyof

/-- What is pending was pending before, unless the changed connection has just lost a commit. -/
theorem Server.Pending.of_set (h : sv'.Pending j) (sv : Server W)
    (heq : sv'.connections = sv.connections.set c m) :
    sv.Pending j ∨ m.holder = .orphan j (some .commit) := by
  obtain ⟨d, n, hn, hholder⟩ := h
  rw [heq] at hn
  rcases getElem?_set_cases hn with ⟨rfl, rfl⟩ | ⟨-, hd⟩
  · exact .inr hholder
  · exact .inl ⟨d, n, hd, hholder⟩

theorem Server.Pending.congr (h : sv'.Pending j) (heq : sv'.connections = sv.connections) :
    sv.Pending j := by
  unfold Server.Pending at h ⊢
  rw [← heq]
  exact h

end Holders

section Events

variable {s s' : State W D} {i : Nat} {p : Process W D} {server' : Server W}

theorem Server.checkout_cases {sv sv' : Server W} {i c : Nat}
    (h : sv.checkout i c = some sv') (d : Nat) (m : Connection W)
    (hm : sv'.connections[d]? = some m) :
    d = c ∧ m.holder = .mutation i ∨ sv.connections[d]? = some m := by
  unfold Server.checkout at h
  split at h
  · obtain ⟨hlast, heq⟩ := Option.ite_none_right_eq_some.mp h
    obtain rfl := Option.some.inj heq
    rcases Nat.lt_or_ge d sv.connections.length with hlt | hge
    · exact .inr ((List.getElem?_append_left hlt).symm.trans hm)
    · change (sv.connections ++ [(⟨.mutation i, true⟩ : Connection W)])[d]? = some m at hm
      rw [List.getElem?_append_right hge, List.getElem?_singleton] at hm
      split at hm
      · next hsub =>
          obtain rfl := Option.some.inj hm
          exact .inl ⟨by omega, rfl⟩
      · cases hm
  · split at h
    · obtain rfl := Option.some.inj h
      rcases getElem?_set_cases hm with ⟨rfl, rfl⟩ | ⟨-, hd⟩
      · exact .inl ⟨rfl, rfl⟩
      · exact .inr hd
    · cases h

/-- An operation of a mutation does not give it a second connection, and leaves a commit on its
    way only if that is the operation. -/
theorem Coherent.reheld (h : Coherent cfg s) (hp : s.processes[i]? = some p) {op : Op W}
    {vars : Vars} (hallowed : op.Allowed cfg p.ghost.core p.ghost.fresh vars) {v : op.Ans D}
    {conn' : Option Nat} (hperformed : s.server.Performed i p.connection op v conn' server') :
    s.server.Reheld server' ∧
      ∀ j, server'.Pending j → s.server.Pending j ∨ j = i ∧ op = .stmt .commit := by
  cases hperformed with
  | clock => exact ⟨.same rfl, fun j hj => .inl hj⟩
  | @checkout c _ hcheckout =>
      refine ⟨.given c i (fun d k hk => h.not_of hp hallowed hk) (Server.checkout_cases hcheckout),
        fun j hj => .inl ?_⟩
      obtain ⟨d, n, hn, hholder⟩ := hj
      rcases Server.checkout_cases hcheckout d n hn with ⟨-, hmine⟩ | hd
      · rw [hmine] at hholder
        cases hholder
      · exact ⟨d, n, hd, hholder⟩
  | refused r hr => exact ⟨.same rfl, fun j hj => .inl hj⟩
  | @stmt c k st a r sv' hc hk hholder hexchange =>
      obtain ⟨hout, hdoomed, -⟩ := hallowed
      obtain ⟨hmine, -⟩ := h.mine hp hout hdoomed hc hk
      rcases Server.exchange_cases hexchange with ⟨e, -, rfl⟩ | ⟨e, -, -, rfl⟩ | ⟨v, -, -, hex⟩
      · refine ⟨.kept c k _ hk (fun j hj => ?_) rfl, fun j hj => ?_⟩
        · obtain rfl := hj.eq (.inr ⟨some st, rfl⟩)
          exact .inl hmine
        · refine (hj.of_set s.server rfl).imp_right fun hlost => ?_
          obtain ⟨rfl, hst⟩ := Holder.orphan.inj hlost
          exact ⟨rfl, congrArg Op.stmt (Option.some.inj hst)⟩
      · exact ⟨.same rfl, fun j hj => .inl hj⟩
      · have hsame := (Server.execute_eq_some hex).2
        exact ⟨.same hsame, fun j hj => .inl (hj.congr hsame)⟩
  | @invalidate c k hc hk r =>
      unfold Server.invalidate
      split
      · next j' hholder =>
          refine ⟨.kept c k _ hk (fun j hj => ?_) rfl, fun j hj => .inl ?_⟩
          · obtain rfl := hj.eq (.inr ⟨none, rfl⟩)
            exact .inl hholder
          · refine (hj.of_set s.server rfl).resolve_right fun hlost => ?_
            exact absurd (Holder.orphan.inj hlost).2 nofun
      · exact ⟨.same rfl, fun j hj => .inl hj⟩
  | @close c k hc hk r =>
      unfold Server.release
      split
      · refine ⟨.kept c k _ hk (fun j hj => ?_) rfl, fun j hj => .inl ?_⟩
        · rcases hj with hj | ⟨_, hj⟩ <;> cases hj
        · refine (hj.of_set s.server rfl).resolve_right fun hlost => ?_
          cases hlost
      · exact ⟨.same rfl, fun j hj => .inl hj⟩
  | pause r => exact ⟨.same rfl, fun j hj => .inl hj⟩

/-- The server executes what an orphan has sent. -/
theorem Server.reheld_late {sv sv' : Server W} {c : Nat} {k : Connection W}
    (hk : sv.connections[c]? = some k) {st : Stmt W} (hholder : k.holder = .orphan i (some st))
    {a : Answer D} {v : st.Value D} (hex : sv.execute i c st a = some (v, sv')) :
    sv.Reheld (sv'.setConnection c { k with holder := .orphan i none }) ∧
      ∀ j, (sv'.setConnection c { k with holder := .orphan i none }).Pending j → sv.Pending j := by
  have hconnections : (sv'.setConnection c { k with holder := .orphan i none }).connections =
      sv.connections.set c { k with holder := .orphan i none } := by
    show sv'.connections.set c _ = _
    rw [(Server.execute_eq_some hex).2]
  refine ⟨.kept c k _ hk (fun j hj => ?_) hconnections, fun j hj => ?_⟩
  · obtain rfl := hj.eq (.inr ⟨none, rfl⟩)
    exact .inr ⟨some st, hholder⟩
  · refine (hj.of_set sv hconnections).resolve_right fun hlost => ?_
    exact absurd (Holder.orphan.inj hlost).2 nofun

/-- The server ends a connection. -/
theorem Server.reheld_drop {sv : Server W} {c : Nat} {k : Connection W}
    (hk : sv.connections[c]? = some k) (db : Database W) :
    sv.Reheld ((sv.setConnection c { k with alive := false }).setDatabase db) ∧
      ∀ j, ((sv.setConnection c { k with alive := false }).setDatabase db).Pending j →
        sv.Pending j := by
  refine ⟨.kept c k { k with alive := false } hk (fun _ hj => hj) rfl, fun j hj => ?_⟩
  rcases hj.of_set (m := { k with alive := false }) sv rfl with hold | hlost
  · exact hold
  · exact ⟨c, k, hk, hlost⟩

end Events

-- ============================================================================
-- The history
-- ============================================================================

/-- What the mutation knows to be committed is in the history. -/
def Core.Recorded (core : Core W) (history : List (Commit W)) : Prop :=
  ∀ claim writes, core.committed = some (some claim, writes) →
    core.role = .keyed (some claim.record.scopeHash) ∧
      ∃ e ∈ history, ∃ status body t, claim.response = some (status, body) ∧
        e.after claim.record.scopeHash = some (claim.record.complete status body t)

/-- What holds of the history of commits. -/
structure Chronicle (cfg : Config) (s : State W D) : Prop where
  coherent : Coherent cfg s
  single : s.server.Single
  ledger : Ledger Commit.before Commit.after Commit.time s.server.history
    s.server.db.rows.committed s.server.db.now
  entries : ∀ e ∈ s.server.history, ∃ p, s.processes[e.mutation]? = some p ∧
    p.ghost.core.Done ∧ e.Accounts cfg p.ghost.core p.ghost.sent
  pending : ∀ j, s.server.Pending j → ∀ e ∈ s.server.history, e.mutation ≠ j
  once : (s.server.history.map Commit.mutation).Nodup
  recorded : ∀ (j : Nat) (q : Process W D), s.processes[j]? = some q →
    q.ghost.core.Recorded s.server.history

section History

variable {s s' : State W D} {i c : Nat} {p : Process W D}

/-- Mutations that are done have stayed so. -/
def State.Settles (s s' : State W D) : Prop :=
  ∀ (j : Nat) (q : Process W D), s.processes[j]? = some q →
    ∃ q', s'.processes[j]? = some q' ∧
      (q.ghost.core.Done → q'.ghost.core.Done ∧ q.ghost.Settled q'.ghost)

/-- The mutations have gone on, and none has learnt of a commit. -/
structure State.Continues (s s' : State W D) : Prop where
  settles : s.Settles s'
  recorded : ∀ (j : Nat) (q' : Process W D), s'.processes[j]? = some q' →
    q'.ghost.core.committed = none ∨
      ∃ q, s.processes[j]? = some q ∧ q'.ghost.core.committed = q.ghost.core.committed ∧
        q'.ghost.core.role = q.ghost.core.role

theorem State.Settles.refl (s : State W D) : s.Settles s :=
  fun _ q hq => ⟨q, hq, fun hdone => ⟨hdone, .refl _⟩⟩

/-- The entries of the history are accounted for as before. -/
theorem Chronicle.entries_of (h : Chronicle cfg s) (hsettles : s.Settles s') {e : Commit W}
    (he : e ∈ s.server.history) : ∃ p, s'.processes[e.mutation]? = some p ∧
      p.ghost.core.Done ∧ e.Accounts cfg p.ghost.core p.ghost.sent := by
  obtain ⟨q, hq, hdone, haccounts⟩ := h.entries e he
  obtain ⟨q', hq', hsettled⟩ := hsettles e.mutation q hq
  obtain ⟨hdone', hsettled⟩ := hsettled hdone
  exact ⟨q', hq', hdone', haccounts.settled hsettled⟩

theorem Core.Recorded.mono {core : Core W} {history history' : List (Commit W)}
    (h : core.Recorded history) (hsub : ∀ e ∈ history, e ∈ history') : core.Recorded history' := by
  intro claim writes hcommitted
  obtain ⟨hrole, e, he, hrest⟩ := h claim writes hcommitted
  exact ⟨hrole, e, hsub e he, hrest⟩

theorem Chronicle.recorded_of (h : Chronicle cfg s) (hcontinues : s.Continues s') {j : Nat}
    {q' : Process W D} (hq' : s'.processes[j]? = some q') :
    q'.ghost.core.Recorded s.server.history := by
  intro claim writes hcommitted
  rcases hcontinues.recorded j q' hq' with hnone | ⟨q, hq, hsame, hrole⟩
  · rw [hnone] at hcommitted
    cases hcommitted
  · rw [hrole]
    exact h.recorded j q hq claim writes (hsame.symm.trans hcommitted)

/-- An event that commits nothing. -/
theorem Chronicle.quiet (h : Chronicle cfg s) (hcoherent : Coherent cfg s')
    (hreheld : s.server.Reheld s'.server) (hcontinues : s.Continues s')
    (hhistory : s'.server.history = s.server.history)
    (hcommitted : s'.server.db.rows.committed = s.server.db.rows.committed)
    (hnow : s.server.db.now ≤ s'.server.db.now)
    (hpending : ∀ j, s'.server.Pending j →
      s.server.Pending j ∨ ∀ e ∈ s.server.history, e.mutation ≠ j) : Chronicle cfg s' where
  coherent := hcoherent
  single := h.single.reheld hreheld
  ledger := by
    rw [hhistory, hcommitted]
    exact h.ledger.pass hnow
  entries e he := h.entries_of hcontinues.settles (hhistory ▸ he)
  pending j hj e he := (hpending j hj).elim (fun hold => h.pending j hold e (hhistory ▸ he))
    fun hnew => hnew e (hhistory ▸ he)
  once := hhistory ▸ h.once
  recorded j q' hq' := hhistory ▸ h.recorded_of hcontinues hq'

/-- Mutation `i`, which has committed nothing yet, commits on connection `c`. -/
theorem Chronicle.enter (h : Chronicle cfg s) (hcoherent : Coherent cfg s')
    (hreheld : s.server.Reheld s'.server) (hsettles : s.Settles s')
    (hhistory : s'.server.history = s.server.history ++ [s.server.db.entry i c])
    (hdb : s'.server.db = s.server.db.commit c)
    (hfirst : ∀ e ∈ s.server.history, e.mutation ≠ i)
    (hpending : ∀ j, s'.server.Pending j → s.server.Pending j ∧ j ≠ i)
    (hentry : ∃ q', s'.processes[i]? = some q' ∧ q'.ghost.core.Done ∧
      (s.server.db.entry i c).Accounts cfg q'.ghost.core q'.ghost.sent)
    (hrecorded : ∀ (j : Nat) (q' : Process W D), s'.processes[j]? = some q' →
      q'.ghost.core.Recorded s'.server.history) : Chronicle cfg s' where
  coherent := hcoherent
  single := h.single.reheld hreheld
  ledger := by
    rw [hhistory, hdb]
    exact h.ledger.append rfl rfl
  entries e he := by
    rw [hhistory] at he
    rcases List.mem_append.mp he with he | he
    · exact h.entries_of hsettles he
    · obtain rfl := List.mem_singleton.mp he
      exact hentry
  pending j hj e he := by
    obtain ⟨hold, hne⟩ := hpending j hj
    rw [hhistory] at he
    rcases List.mem_append.mp he with he | he
    · exact h.pending j hold e he
    · obtain rfl := List.mem_singleton.mp he
      exact Ne.symm hne
  once := by
    rw [hhistory, List.map_append, List.nodup_append]
    refine ⟨h.once, List.nodup_singleton _, fun x hx y hy => ?_⟩
    obtain ⟨e, he, rfl⟩ := List.mem_map.mp hx
    obtain rfl := List.mem_singleton.mp hy
    exact hfirst e he
  recorded := hrecorded

-- ============================================================================
-- Events
-- ============================================================================

/-- Only a commit that is executed is entered. -/
theorem Server.execute_commit {sv sv' : Server W} {a : Answer D} {v : Unit}
    (h : sv.execute i c .commit a = some (v, sv')) :
    sv'.db = sv.db.commit c ∧ sv'.history = sv.history ++ [sv.db.entry i c] := by
  obtain ⟨⟨v', db'⟩, hex, heq⟩ := Option.map_eq_some_iff.mp h
  obtain ⟨-, rfl⟩ := Prod.mk.inj heq
  cases a
  case done =>
    obtain rfl := congrArg Prod.snd (Option.some.inj hex)
    exact ⟨rfl, rfl⟩
  all_goals cases hex

theorem Server.execute_other {sv sv' : Server W} {st : Stmt W} (hst : st ≠ .commit)
    {a : Answer D} {v : st.Value D} (h : sv.execute i c st a = some (v, sv')) :
    sv'.history = sv.history ∧ Effects c sv.db sv'.db := by
  refine ⟨?_, effects_execute hst (Server.execute_eq_some h).1⟩
  obtain ⟨⟨v', db'⟩, -, heq⟩ := Option.map_eq_some_iff.mp h
  obtain ⟨-, rfl⟩ := Prod.mk.inj heq
  cases st with
  | commit => exact absurd rfl hst
  | _ => rfl

/-- The history behind an operation that is no commit. -/
theorem Server.Performed.history {sv sv' : Server W} {conn conn' : Option Nat} {op : Op W}
    {v : op.Ans D} (h : sv.Performed i conn op v conn' sv') (hop : op ≠ .stmt .commit) :
    sv'.history = sv.history ∧ sv'.db.rows.committed = sv.db.rows.committed ∧
      sv'.db.now = sv.db.now := by
  cases h with
  | clock => exact ⟨rfl, rfl, rfl⟩
  | checkout hcheckout =>
      unfold Server.checkout at hcheckout
      split at hcheckout
      · obtain ⟨-, heq⟩ := Option.ite_none_right_eq_some.mp hcheckout
        obtain rfl := Option.some.inj heq
        exact ⟨rfl, rfl, rfl⟩
      · split at hcheckout
        · obtain rfl := Option.some.inj hcheckout
          exact ⟨rfl, rfl, rfl⟩
        · cases hcheckout
  | refused r hr => exact ⟨rfl, rfl, rfl⟩
  | @stmt c k st a r sv' hc hk hholder hexchange =>
      have hst : st ≠ .commit := fun heq => hop (congrArg Op.stmt heq)
      rcases Server.exchange_cases hexchange with ⟨e, -, rfl⟩ | ⟨e, -, -, rfl⟩ | ⟨v, -, -, hex⟩
      · exact ⟨rfl, rfl, rfl⟩
      · exact ⟨rfl, (effects_refuse st).committed⟩
      · obtain ⟨hhistory, heffects⟩ := Server.execute_other hst hex
        exact ⟨hhistory, heffects.committed⟩
  | invalidate hc hk r =>
      unfold Server.invalidate
      split <;> exact ⟨rfl, rfl, rfl⟩
  | close hc hk r =>
      unfold Server.release
      split <;> exact ⟨rfl, rfl, rfl⟩
  | pause r => exact ⟨rfl, rfl, rfl⟩

/-- Only the answer to a commit tells of one. -/
theorem Ghost.after_committed {g : Ghost W} {op : Op W} (hop : op ≠ .stmt .commit) (a : op.Ans D)
    (l : Local W) : (g.after op a l).core.committed = g.core.committed := by
  cases op with
  | stmt st =>
      cases st with
      | commit => exact absurd rfl hop
      | _ => cases a <;> rfl
  | checkout => cases a <;> rfl
  | _ => rfl

/-- Mutation `i` goes on and the others stay where they are. -/
theorem State.settles_set (hp : s.processes[i]? = some p) {p' : Process W D} {server' : Server W}
    (hdone : p.ghost.core.Done → p'.ghost.core.Done ∧ p.ghost.Settled p'.ghost) :
    s.Settles ⟨server', s.processes.set i p'⟩ := by
  have hi : i < s.processes.length := (List.getElem?_eq_some_iff.mp hp).1
  intro j q hq
  by_cases hij : i = j
  · subst hij
    obtain rfl := Option.some.inj (hp.symm.trans hq)
    exact ⟨p', List.getElem?_set_self hi, hdone⟩
  · exact ⟨q, (List.getElem?_set_ne hij).trans hq, fun hq => ⟨hq, .refl _⟩⟩

theorem State.continues_set (hp : s.processes[i]? = some p) {p' : Process W D}
    {server' : Server W}
    (hdone : p.ghost.core.Done → p'.ghost.core.Done ∧ p.ghost.Settled p'.ghost)
    (hcommitted : p'.ghost.core.committed = p.ghost.core.committed)
    (hrole : p'.ghost.core.role = p.ghost.core.role) :
    s.Continues ⟨server', s.processes.set i p'⟩ where
  settles := State.settles_set hp hdone
  recorded j q' hq' := by
    rcases getElem?_set_cases hq' with ⟨rfl, rfl⟩ | ⟨-, hq'⟩
    · exact .inr ⟨p, hp, hcommitted, hrole⟩
    · exact .inr ⟨q', hq', rfl, rfl⟩

/-- What a claim has become behind the commit. -/
theorem Linked.claim_committed {db : Database W} {core : Core W} {fresh : Bool} {vars : Vars}
    (h : Linked cfg db c core.role core.view) (hallowed : Stmt.commit.Allowed cfg core fresh vars)
    {claim : Claim} (hclaim : core.view.claim = some claim) :
    core.role = .keyed (some claim.record.scopeHash) ∧
      ∃ status body t, claim.response = some (status, body) ∧
        (db.entry i c).after claim.record.scopeHash =
          some (claim.record.complete status body t) := by
  obtain ⟨hrole, -, howner, -, row, hrow, hclaimRow⟩ := h.claimed claim hclaim
  refine ⟨hrole, ?_⟩
  have hnotSweep : core.role ≠ .sweep := by
    rw [hrole]
    exact nofun
  obtain ⟨-, r, -, hcommittable⟩ := hallowed.2.resolve_left hnotSweep
  have hresponse := hcommittable.claimed claim hclaim
  rcases hclaimRow with ⟨hnone, -⟩ | ⟨status, body, t, hsome, -, rfl, -⟩
  · rw [hresponse] at hnone
    cases hnone
  · refine ⟨status, body, t, hsome, ?_⟩
    rw [Database.entry_after, if_pos howner]
    exact hrow

/-- The commit of a mutation comes back, or is lost. -/
theorem Chronicle.committed (h : Chronicle cfg s) (hp : s.processes[i]? = some p) {l : Local W}
    (hallowed : (Op.stmt .commit).Allowed cfg p.ghost.core p.ghost.fresh l.vars) {v : Reply Unit}
    {conn' : Option Nat} {p' : Process W D}
    (hghost : p'.ghost = p.ghost.after (D := D) (.stmt .commit) v l)
    (hperformed : s.server.Performed (D := D) i p.connection (.stmt .commit) v conn' server')
    (hcoherent : Coherent cfg ⟨server', s.processes.set i p'⟩) :
    Chronicle cfg ⟨server', s.processes.set i p'⟩ := by
  have hi : i < s.processes.length := (List.getElem?_eq_some_iff.mp hp).1
  obtain ⟨hreheld, hpending⟩ := h.coherent.reheld hp hallowed hperformed
  obtain ⟨hout, hdoomed, hcommit⟩ := hallowed
  have hopen : ¬ p.ghost.core.Done := by
    rintro (hcommitted | ⟨-, hgone⟩)
    · exact hcommitted hcommit.1
    · exact absurd (hdoomed.symm.trans (hgone hout)) nofun
  have hfirst (e : Commit W) (he : e ∈ s.server.history) : e.mutation ≠ i := by
    rintro rfl
    obtain ⟨q, hq, hdone, -⟩ := h.entries e he
    obtain rfl := Option.some.inj (hp.symm.trans hq)
    exact hopen hdone
  have hquiet (hcommitted : p'.ghost.core.committed = p.ghost.core.committed)
      (hrole : p'.ghost.core.role = p.ghost.core.role)
      (hhistory : server'.history = s.server.history)
      (hrows : server'.db.rows.committed = s.server.db.rows.committed)
      (hnow : server'.db.now = s.server.db.now) : Chronicle cfg ⟨server', s.processes.set i p'⟩ :=
    h.quiet hcoherent hreheld
      (State.continues_set hp (fun hdone => absurd hdone hopen) hcommitted hrole) hhistory hrows
      hnow.ge fun j hj => by
        rcases hpending j hj with hold | ⟨rfl, -⟩
        · exact .inl hold
        · exact .inr hfirst
  cases hperformed with
  | @stmt c k _ a _ _ hc hk hholder hexchange =>
      rcases Server.exchange_cases hexchange with ⟨e, rfl, rfl⟩ | ⟨e, rfl, -, rfl⟩ |
        ⟨v, rfl, halive, hex⟩
      · exact hquiet (by rw [hghost]; rfl) (by rw [hghost]; rfl) rfl rfl rfl
      · exact hquiet (by rw [hghost]; rfl) (by rw [hghost]; rfl) rfl rfl rfl
      · obtain ⟨hmine, hlinked⟩ := h.coherent.mine hp hout hdoomed hc hk
        obtain ⟨hdb, hhistory⟩ := Server.execute_commit hex
        have hsame := (Server.execute_eq_some hex).2
        have hlink := hlinked halive
        have hcommitted : p'.ghost.core.committed =
            some (p.ghost.core.view.claim, p.ghost.core.view.writes) := by
          rw [hghost]
          rfl
        have hset : (s.processes.set i p')[i]? = some p' := List.getElem?_set_self hi
        refine h.enter hcoherent hreheld (State.settles_set hp fun hdone => absurd hdone hopen)
          hhistory hdb hfirst (fun j hj => ?_) ⟨p', hset, .inl ?_, ?_⟩ fun j q' hq' => ?_
        · have hold : s.server.Pending j := hj.congr hsame
          refine ⟨hold, ?_⟩
          -- A commit on its way would be on a second connection.
          rintro rfl
          obtain ⟨d, m, hm, horphan⟩ := hold
          obtain rfl := h.single c d _ k m hk hm (.inl hmine) (.inr ⟨_, horphan⟩)
          obtain rfl := Option.some.inj (hk.symm.trans hm)
          exact absurd (hmine.symm.trans horphan) nofun
        · rw [hcommitted]
          exact nofun
        · have haccounts := hlink.accounts (i := i) h.coherent.records (h.coherent.keeps i p hp).swept
            hcommit
          rw [hghost]
          exact haccounts.congr rfl rfl rfl rfl
        · rw [hhistory]
          have hmono (e : Commit W) (he : e ∈ s.server.history) :
              e ∈ s.server.history ++ [s.server.db.entry i c] := List.mem_append_left _ he
          rcases getElem?_set_cases hq' with ⟨rfl, rfl⟩ | ⟨-, hq'⟩
          · intro claim writes hsome
            obtain ⟨hclaim, -⟩ := Prod.mk.inj (Option.some.inj (hcommitted.symm.trans hsome))
            obtain ⟨hrole, status, body, t, hresponse, hafter⟩ :=
              hlink.claim_committed (i := i) hcommit hclaim
            refine ⟨?_, s.server.db.entry i c, by simp, status, body, t, hresponse, hafter⟩
            rw [hghost]
            exact hrole
          · exact (h.recorded j q' hq').mono hmono

/-- The operation of a mutation comes back. -/
theorem Chronicle.perform (h : Chronicle cfg s) (hp : s.processes[i]? = some p) {l : Local W}
    {op : Op W}
    {kont : op.Ans D → Local W → Coro (Op W) (Op.Ans D) (Local W) (Except Exc (Option Response))}
    (htree : p.tree = .call l op kont) {v : op.Ans D} {conn' : Option Nat}
    (hperformed : s.server.Performed i p.connection op v conn' server') :
    Chronicle cfg
      ⟨server', s.processes.set i (p.resume op v { l with activity := p.activity }
        (kont v { l with activity := p.activity }) conn')⟩ := by
  have hcoherent := h.coherent.perform hp htree hperformed
  have hallowed := (h.coherent.keeps i p hp).allowed htree
  by_cases hop : op = .stmt .commit
  · subst hop
    exact h.committed (l := { l with activity := p.activity }) hp hallowed rfl hperformed hcoherent
  · obtain ⟨hreheld, hpending⟩ := h.coherent.reheld hp hallowed hperformed
    obtain ⟨hhistory, hcommitted, hnow⟩ := hperformed.history hop
    exact h.quiet hcoherent hreheld
      (State.continues_set hp (fun hdone => hdone.after hallowed v _)
        (p.ghost.after_committed hop v _) (p.ghost.after_role op v _).1)
      hhistory hcommitted hnow.ge
      fun j hj => .inl ((hpending j hj).resolve_right fun hnew => hop hnew.2)

/-- Mutations are where they were. -/
theorem State.continues_refl (s : State W D) (server' : Server W) :
    s.Continues { s with server := server' } :=
  ⟨.refl _, fun _ q' hq' => .inr ⟨q', hq', rfl, rfl⟩⟩

/-- The server executes what a lost connection has still sent. -/
theorem Chronicle.late (h : Chronicle cfg s) {k : Connection W}
    (hk : s.server.connections[c]? = some k) {st : Stmt W}
    (hholder : k.holder = .orphan i (some st)) (halive : k.alive = true) {a : Answer D}
    {v : st.Value D} {sv : Server W} (hex : s.server.execute i c st a = some (v, sv)) :
    Chronicle cfg
      { s with server := sv.setConnection c { k with holder := .orphan i none } } := by
  have hcoherent := h.coherent.late hk hholder halive hex
  obtain ⟨hreheld, hpending⟩ := Server.reheld_late hk hholder hex
  have hfits := (h.coherent.fits c k hk).2
  by_cases hst : st = .commit
  · subst hst
    rw [hholder] at hfits
    obtain ⟨p, hp, htaken, hgone, hsent⟩ := hfits
    obtain ⟨hlinked, fresh, vars, hallowed, hvars⟩ := hsent halive .commit rfl
    obtain ⟨hdb, hhistory⟩ := Server.execute_commit hex
    have hsame := (Server.execute_eq_some hex).2
    refine h.enter hcoherent hreheld (.refl s) hhistory hdb
      (h.pending i ⟨c, k, hk, hholder⟩) (fun j hj => ⟨hpending j hj, ?_⟩)
      ⟨p, hp, .inr ⟨htaken, fun hout => (hgone hout).2⟩, ?_⟩ fun j q hq => ?_
    · -- The commit is executed, and there is no second one.
      rintro rfl
      obtain ⟨d, m, hm, horphan⟩ := hj
      change (sv.connections.set c { k with holder := .orphan j none })[d]? = some m at hm
      rw [hsame] at hm
      rcases getElem?_set_cases hm with ⟨-, rfl⟩ | ⟨hne, hm⟩
      · exact absurd (Holder.orphan.inj horphan).2 nofun
      · exact hne (h.single c d j k m hk hm (.inr ⟨_, hholder⟩) (.inr ⟨_, horphan⟩))
    · rw [hvars rfl]
      exact hlinked.accounts h.coherent.records (h.coherent.keeps i p hp).swept hallowed
    · refine (h.recorded j q hq).mono fun e he => ?_
      show e ∈ sv.history
      rw [hhistory]
      exact List.mem_append_left _ he
  · obtain ⟨hhistory, heffects⟩ := Server.execute_other hst hex
    exact h.quiet hcoherent hreheld (s.continues_refl _) hhistory heffects.committed.1
      heffects.committed.2.ge fun j hj => .inl (hpending j hj)

/-- The server ends a connection. -/
theorem Chronicle.drop (h : Chronicle cfg s) {k : Connection W}
    (hk : s.server.connections[c]? = some k) :
    Chronicle cfg
      { s with
        server := (s.server.setConnection c { k with alive := false }).setDatabase
          (s.server.db.drop c) } := by
  obtain ⟨hreheld, hpending⟩ := Server.reheld_drop hk (s.server.db.drop c)
  exact h.quiet (h.coherent.drop hk) hreheld (s.continues_refl _) rfl rfl le_rfl
    fun j hj => .inl (hpending j hj)

/-- A job arrives. -/
theorem Chronicle.arrive (h : Chronicle cfg s) (job : Job W D)
    (activity : RequestTimeout.RequestActivity) (sessionKey : Bool) (context : Option Text) :
    Chronicle cfg
      { s with
        processes := s.processes ++ [Process.start cfg job activity sessionKey context] } := by
  refine h.quiet (h.coherent.arrive job activity sessionKey context) (.same rfl)
    ⟨fun j q hq => ⟨q, ?_, fun hdone => ⟨hdone, .refl _⟩⟩, fun j q hq => ?_⟩ rfl rfl le_rfl
    fun j hj => .inl hj
  · exact (List.getElem?_append_left (List.getElem?_eq_some_iff.mp hq).1).trans hq
  · change (s.processes ++ [Process.start cfg job activity sessionKey context])[j]? = _ at hq
    rcases Nat.lt_or_ge j s.processes.length with hlt | hge
    · exact .inr ⟨q, (List.getElem?_append_left hlt).symm.trans hq, rfl, rfl⟩
    · rw [List.getElem?_append_right hge, List.getElem?_singleton] at hq
      split at hq
      · obtain rfl := Option.some.inj hq
        exact .inl rfl
      · cases hq

/-- Every event keeps the chronicle. -/
theorem Chronicle.next (h : Chronicle cfg s) {e : Event W D} (hnext : s.next cfg e = some s') :
    Chronicle cfg s' := by
  have hcoherent := h.coherent.next hnext
  cases State.stepped hnext with
  | arrive job activity sessionKey context => exact h.arrive job activity sessionKey context
  | pass milliseconds _ =>
      exact h.quiet hcoherent (.same rfl) (s.continues_refl _) rfl rfl (Nat.le_add_right _ _)
        fun j hj => .inl hj
  | abandon hp habandon =>
      obtain ⟨-, -, hghost⟩ := (h.coherent.keeps _ _ hp).abandon habandon
      refine h.quiet hcoherent (.same rfl) (State.continues_set hp (fun hdone => ?_)
        (by rw [hghost]) (by rw [hghost])) rfl rfl le_rfl fun j hj => .inl hj
      rw [hghost]
      exact ⟨hdone, .refl _⟩
  | resume hp htree hperformed => exact h.perform hp htree hperformed
  | late hk hholder halive hex => exact h.late hk hholder halive hex
  | drop hk => exact h.drop hk

theorem chronicle_init (h : (mutationSystem cfg W D).init s) : Chronicle cfg s := by
  have hcoherent := coherent_init h
  obtain ⟨now, rows, monotonic, -, rfl⟩ := h
  have hnone {α : Type} (n : Nat) (x : α) : ([] : List α)[n]? ≠ some x := by simp
  constructor
  case coherent => exact hcoherent
  case single => exact fun c _ _ k _ hk => absurd hk (hnone c k)
  case ledger => exact .nil _ _
  case entries => exact nofun
  case pending => exact fun _ _ => nofun
  case once => exact List.nodup_nil
  case recorded => exact fun j q hq => absurd hq (hnone j q)

theorem chronicle_invariant (cfg : Config) :
    (mutationSystem cfg W D).Invariant (Chronicle cfg) where
  init _ := chronicle_init
  step _ _ _ h := h.next

end History

end QuickApi.Mutation
