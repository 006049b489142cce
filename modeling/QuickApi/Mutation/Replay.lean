/-
  QuickApi.Mutation.Replay

  What is stored can be replayed: a committed record is completed, holds a
  response that is valid under the fixed limit, and stays as it is until it
  has expired; `begin` meets no other record.
-/

import QuickApi.Mutation.Invariance

namespace QuickApi.Mutation

open QuickApi.Fingerprint (Text)
open QuickApi.Lib

variable {W D : Type} {cfg : Config}

-- ============================================================================
-- What becomes of the database
-- ============================================================================

/-- What one event does to the database. -/
inductive Database.Moved (db : Database W) : Database W → Prop where
  | effects {db' : Database W} (c : Nat) (h : Effects c db db') : db.Moved db'
  | commit (c : Nat) : db.Moved (db.commit c)
  | pass (milliseconds : Nat) : db.Moved { db with now := db.now + milliseconds }

theorem Database.Moved.refl (db : Database W) : db.Moved db := .effects 0 .refl

theorem Effect.committed {c : Nat} {db db' : Database W} (h : Effect c db db') :
    db'.rows.committed = db.rows.committed ∧ db'.now = db.now := by
  cases h <;> exact ⟨rfl, rfl⟩

theorem Effects.committed {c : Nat} {db db' : Database W} (h : Effects c db db') :
    db'.rows.committed = db.rows.committed ∧ db'.now = db.now := by
  induction h with
  | refl => exact ⟨rfl, rfl⟩
  | tail _ h ih => exact ⟨h.committed.1.trans ih.1, h.committed.2.trans ih.2⟩

theorem Database.moved_execute {c : Nat} {db db' : Database W} {st : Stmt W} {a : Answer D}
    {v : st.Value D} (h : db.execute c st a = some (v, db')) : db.Moved db' := by
  cases st
  case commit =>
    cases a
    case done =>
      obtain rfl := congrArg Prod.snd (Option.some.inj h)
      exact .commit c
    all_goals cases h
  all_goals
    refine .effects c (effects_execute ?_ h)
    exact nofun

theorem Server.moved_performed {sv sv' : Server W} {i : Nat} {conn conn' : Option Nat} {op : Op W}
    {v : op.Ans D} (h : sv.Performed i conn op v conn' sv') : sv.db.Moved sv'.db := by
  cases h with
  | clock => exact .refl _
  | checkout hcheckout =>
      unfold Server.checkout at hcheckout
      split at hcheckout
      · obtain ⟨-, heq⟩ := Option.ite_none_right_eq_some.mp hcheckout
        obtain rfl := Option.some.inj heq
        exact .refl _
      · split at hcheckout
        · obtain rfl := Option.some.inj hcheckout
          exact .refl _
        · cases hcheckout
  | refused r hr => exact .refl _
  | stmt hc hk hholder hexchange =>
      rcases Server.exchange_cases hexchange with ⟨e, -, rfl⟩ | ⟨e, -, -, rfl⟩ | ⟨v, -, -, hex⟩
      · exact .refl _
      · exact .effects _ (effects_refuse _)
      · exact Database.moved_execute (Server.execute_eq_some hex).1
  | invalidate hc hk r =>
      unfold Server.invalidate
      split
      · exact .refl _
      · exact .refl _
  | close hc hk r =>
      unfold Server.release
      split
      · exact .effects _ (.single .rollback)
      · exact .refl _
  | pause r => exact .refl _

theorem State.moved_next {s s' : State W D} {e : Event W D} (hnext : s.next cfg e = some s') :
    s.server.db.Moved s'.server.db := by
  cases State.stepped hnext with
  | arrive job activity sessionKey context => exact .refl _
  | pass milliseconds _ => exact .pass milliseconds
  | abandon hp habandon => exact .refl _
  | resume hp htree hperformed => exact Server.moved_performed hperformed
  | late hk hholder halive hex => exact Database.moved_execute (Server.execute_eq_some hex).1
  | drop hk => exact .effects _ (.single .drop)

/-- A committed record is the same behind an event, or it has expired. -/
theorem Records.kept {db db' : Database W} (h : Records cfg db) (hmoved : db.Moved db') {k : Text}
    {r : IdempotencyORM} (hr : db.rows.committed k = some r) :
    db'.rows.committed k = some r ∨ r.Expired db'.now := by
  cases hmoved with
  | effects c heffects =>
      rw [heffects.committed.1]
      exact .inl hr
  | commit c =>
      show (if db.rows.owner k = some c then db.rows.latest k else db.rows.committed k) = some r ∨
        r.Expired db.now
      split
      · by_cases hsame : db.rows.latest k = db.rows.committed k
        · exact .inl (hsame.trans hr)
        · exact .inr (h.changed k hsame r hr)
      · exact .inl hr
  | pass milliseconds => exact .inl hr

theorem Database.Moved.now_le {db db' : Database W} (h : db.Moved db') : db.now ≤ db'.now := by
  cases h with
  | effects c heffects => exact heffects.committed.2.ge
  | commit c => exact le_rfl
  | pass milliseconds => exact Nat.le_add_right _ _

/-- Over a whole run a committed record stays as it is until it has expired. -/
theorem Coherent.kept_run {s s' : State W D} {es : List (Event W D)} (h : Coherent cfg s)
    (hrun : (mutationSystem cfg W D).run s es = some s') {k : Text} {r : IdempotencyORM}
    (hr : s.server.db.rows.committed k = some r) :
    s'.server.db.rows.committed k = some r ∨ r.Expired s'.server.db.now := by
  refine (System.run_preserves (S := mutationSystem cfg W D)
    (P := fun s => Coherent cfg s ∧
      (s.server.db.rows.committed k = some r ∨ r.Expired s.server.db.now))
    (fun s e s' hs hnext => ⟨hs.1.next hnext, ?_⟩) ⟨h, .inl hr⟩ hrun).2
  have hmoved := State.moved_next hnext
  rcases hs.2 with hr | hexpired
  · exact hs.1.records.kept hmoved hr
  · exact .inr (hexpired.mono hmoved.now_le)

-- ============================================================================
-- What `begin` finds
-- ============================================================================

/-- A record that is read without a claim is the committed one. -/
theorem Linked.finds {db db' : Database W} {c : Nat} {role : Role} {v : View W}
    (h : Linked cfg db c role v) (hrecords : Records cfg db) (hclaim : v.claim = none) {k : Text}
    {a : Answer D} {r : IdempotencyORM} {unexpired : Bool}
    (hex : db.execute c (.find k) a = some (some (r, unexpired), db')) :
    db.rows.committed k = some r ∧ unexpired = decide (r.Unexpired db.now) := by
  cases a
  case done =>
    obtain ⟨hlock, heq⟩ := Option.ite_none_right_eq_some.mp hex
    have hfind := congrArg Prod.fst (Option.some.inj heq)
    unfold Database.find at hfind
    split at hfind
    · cases hfind
    · next r' hlatest =>
        obtain ⟨rfl, rfl⟩ := Prod.mk.inj (Option.some.inj hfind)
        refine ⟨?_, rfl⟩
        rcases hlock with hnone | hown
        · exact (hrecords.clean k hnone).symm.trans hlatest
        · rcases h.unclaimed hclaim k hown with hsame | ⟨hnone, -⟩
          · exact hsame.symm.trans hlatest
          · rw [hlatest] at hnone
            cases hnone
  all_goals cases hex

/-- So is one that is read under the lock. -/
theorem Coherent.finds {s s' : State W D} (h : Coherent cfg s) {i : Nat} {p p' : Process W D}
    {l : Local W} {k : Text} {a : Answer D}
    {kont : Reply (Option (IdempotencyORM × Bool)) → Local W →
      Coro (Op W) (Op.Ans D) (Local W) (Except Exc (Option Response))}
    (hp : s.processes[i]? = some p) (htree : p.tree = .call l (.stmt (.find k)) kont)
    (hresume : s.resume i p a = some s') (hp' : s'.processes[i]? = some p') :
    ∃ reply, p'.tree = kont reply { l with activity := p.activity } ∧
      ∀ r unexpired, reply = .ok (some (r, unexpired)) →
        s.server.db.rows.committed k = some r ∧ unexpired = decide (r.Unexpired s.server.db.now) := by
  obtain ⟨hout, hdoomed, hheld, hclaim⟩ := (h.keeps i p hp).allowed htree
  have hi : i < s.processes.length := (List.getElem?_eq_some_iff.mp hp).1
  unfold State.resume at hresume
  rw [htree] at hresume
  obtain ⟨⟨v, connection, sv⟩, hperform, rfl⟩ := Option.map_eq_some_iff.mp hresume
  have hset : some (p.resume (.stmt (.find k)) v { l with activity := p.activity }
      (kont v { l with activity := p.activity }) connection) = some p' :=
    (List.getElem?_set_self hi).symm.trans hp'
  obtain rfl := Option.some.inj hset
  refine ⟨v, rfl, ?_⟩
  rintro r unexpired rfl
  cases Server.performed hperform with
  | stmt hc hk hholder hexchange =>
      rcases Server.exchange_cases hexchange with ⟨e, he, -⟩ | ⟨e, he, -⟩ | ⟨v, hv, halive, hex⟩
      · cases he
      · cases he
      · obtain rfl := Reply.ok.inj hv
        obtain ⟨-, hlinked⟩ := h.mine hp hout hdoomed hc hk
        obtain ⟨hdb, -⟩ := Server.execute_eq_some hex
        exact (hlinked halive).finds h.records hclaim hdb

/-- `begin` raises nothing over the record it finds but the conflict. -/
theorem Coherent.checks {s s' : State W D} (h : Coherent cfg s) {i : Nat} {p p' : Process W D}
    {l : Local W} {k : Text} {a : Answer D}
    {kont : Reply (Option (IdempotencyORM × Bool)) → Local W →
      Coro (Op W) (Op.Ans D) (Local W) (Except Exc (Option Response))}
    (hp : s.processes[i]? = some p) (htree : p.tree = .call l (.stmt (.find k)) kont)
    (hresume : s.resume i p a = some s') (hp' : s'.processes[i]? = some p') :
    ∃ reply, p'.tree = kont reply { l with activity := p.activity } ∧
      ∀ r unexpired, reply = .ok (some (r, unexpired)) →
        s.server.db.rows.committed k = some r ∧
          ∀ fingerprint e, checkRecord cfg r unexpired fingerprint = .error e →
            e = .http 409 "Idempotency-Key was already used with a different payload." := by
  obtain ⟨reply, htree', hfound⟩ := h.finds hp htree hresume hp'
  refine ⟨reply, htree', fun r unexpired hreply => ?_⟩
  obtain ⟨hr, -⟩ := hfound r unexpired hreply
  refine ⟨hr, fun fingerprint e he => ?_⟩
  rcases (h.records.stored k r hr).checkRecord unexpired fingerprint with
    ⟨hnone, -⟩ | ⟨status, body, hreplay, -⟩ | ⟨hconflict, -⟩
  · rw [hnone] at he
    cases he
  · rw [hreplay] at he
    cases he
  · rw [hconflict] at he
    exact (Except.error.inj he).symm

/-- In every reachable state each committed record can be replayed, under its own scope; over
    every run from there it stays as it is until it has expired; and `begin` raises nothing over
    the record it finds but the conflict. -/
theorem stored_replayable (cfg : Config) {s : State W D}
    (hs : (mutationSystem cfg W D).Reachable s) :
    (∀ k r, s.server.db.rows.committed k = some r → Replayable cfg r ∧ r.scopeHash = k) ∧
      (∀ k r es s', s.server.db.rows.committed k = some r →
        (mutationSystem cfg W D).run s es = some s' →
        s'.server.db.rows.committed k = some r ∨ r.Expired s'.server.db.now) ∧
      ∀ (i : Nat) (p p' : Process W D) l k kont a s', s.processes[i]? = some p →
        p.tree = .call l (.stmt (.find k)) kont → s.resume i p a = some s' →
        s'.processes[i]? = some p' →
        ∃ reply, p'.tree = kont reply { l with activity := p.activity } ∧
          ∀ r unexpired, reply = .ok (some (r, unexpired)) →
            s.server.db.rows.committed k = some r ∧
              ∀ fingerprint e, checkRecord cfg r unexpired fingerprint = .error e →
                e = .http 409 "Idempotency-Key was already used with a different payload." := by
  have h := (coherent_invariant cfg).of_reachable hs
  exact ⟨fun k r hr => ⟨h.records.stored k r hr, h.records.keyedCommitted k r hr⟩,
    fun k r es s' hr hrun => h.kept_run hrun hr,
    fun i p p' l k kont a s' hp htree hresume hp' => h.checks hp htree hresume hp'⟩

/-- The record of the sample request. -/
theorem stored_replayable_sample :
    ∃ s r, (mutationSystem sampleConfig Unit Unit).run sampleStart sampleFirst = some s ∧
      s.server.db.rows.committed ['h'] = some r ∧ Replayable sampleConfig r := by
  have hrun : ((mutationSystem sampleConfig Unit Unit).run sampleStart sampleFirst).map
      (fun s => s.server.db.rows.committed ['h']) =
      some (some (sampleRecord.complete 201 [] 0)) := by
    decide +kernel
  obtain ⟨s, hs, hr⟩ := Option.map_eq_some_iff.mp hrun
  exact ⟨s, _, hs, hr, ((stored_replayable sampleConfig (sample_reachable hs)).1 _ _ hr).1⟩

-- ============================================================================
-- The rows of the table
-- ============================================================================

/-- What is promised of the rows of `request_idempotency`. -/
structure State.RowsReplayable (cfg : Config) (s : State W D) : Prop where
  /-- a committed row is completed, with a response that can be replayed, and kept for a day -/
  rows : ∀ k r, s.server.db.rows.committed k = some r →
    r.scopeHash = k ∧ r.state = .completed ∧
      (∃ status body, r.responseStatus = some status ∧ r.responseBody = some body ∧
        validateResponse cfg status body 65536 = .ok ()) ∧
      ∃ t, r.completedAt = some t ∧ r.expiresAt = some (t + 86400 * 1000)
  /-- it is the same behind an event, or its time is over -/
  kept : ∀ e s', s.next cfg e = some s' → ∀ k r, s.server.db.rows.committed k = some r →
    s'.server.db.rows.committed k = some r ∨ ∃ t ∈ r.expiresAt, t ≤ s'.server.db.now
  /-- `begin` raises no `RuntimeError` over the row that it reads -/
  begins : ∀ (i : Nat) (p p' : Process W D) l k kont a s', s.processes[i]? = some p →
    p.tree = .call l (.stmt (.find k)) kont → s.resume i p a = some s' →
    s'.processes[i]? = some p' →
    ∃ reply, p'.tree = kont reply { l with activity := p.activity } ∧
      ∀ r unexpired, reply = .ok (some (r, unexpired)) → ∀ fingerprint message,
        checkRecord cfg r unexpired fingerprint ≠ .error (.runtimeError message)

/-- In every reachable state the rows keep what is promised. -/
theorem rows_always_replayable (cfg : Config) {s : State W D}
    (hs : (mutationSystem cfg W D).Reachable s) : s.RowsReplayable cfg := by
  have h := (coherent_invariant cfg).of_reachable hs
  constructor
  case rows =>
    intro k r hr
    obtain ⟨hcompleted, hresponse, hretained⟩ := h.records.stored k r hr
    exact ⟨h.records.keyedCommitted k r hr, hcompleted, hresponse, hretained⟩
  case kept =>
    intro e s' hnext k r hr
    exact (h.records.kept (State.moved_next hnext) hr).imp_right And.right
  case begins =>
    intro i p p' l k kont a s' hp htree hresume hp'
    obtain ⟨reply, htree', hfound⟩ := h.checks hp htree hresume hp'
    refine ⟨reply, htree', fun r unexpired hreply fingerprint message he => ?_⟩
    cases (hfound r unexpired hreply).2 fingerprint _ he

/-- The row of the sample request. -/
theorem rows_always_replayable_sample :
    ∃ s r, (mutationSystem sampleConfig Unit Unit).run sampleStart sampleFirst = some s ∧
      s.server.db.rows.committed ['h'] = some r ∧ r.state = .completed ∧
      ∃ t, r.completedAt = some t ∧ r.expiresAt = some (t + 86400 * 1000) := by
  have hrun : ((mutationSystem sampleConfig Unit Unit).run sampleStart sampleFirst).map
      (fun s => s.server.db.rows.committed ['h']) =
      some (some (sampleRecord.complete 201 [] 0)) := by
    decide +kernel
  obtain ⟨s, hs, hr⟩ := Option.map_eq_some_iff.mp hrun
  obtain ⟨-, hcompleted, -, hretained⟩ :=
    (rows_always_replayable sampleConfig (sample_reachable hs)).rows _ _ hr
  exact ⟨s, _, hs, hr, hcompleted, hretained⟩

end QuickApi.Mutation
