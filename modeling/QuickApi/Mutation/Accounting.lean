/-
  QuickApi.Mutation.Accounting

  What a committed transaction has done: all of its mutation's writes and, for
  a claim, one completed record with the prepared response, or nothing to the
  records at all; and a mutation that has committed, or has lost its
  connection, commits no more.
-/

import QuickApi.Mutation.Invariance

namespace QuickApi.Mutation

open QuickApi.Fingerprint (Text)
open QuickApi.Lib

variable {W D : Type} {cfg : Config}

-- ============================================================================
-- A commit
-- ============================================================================

/-- The response may be returned behind a commit. -/
structure Response.Success (r : Response) : Prop where
  json : r.json = true
  background : r.background = false
  status : r.status < 400

/-- What a commit has done to the records. -/
inductive Commit.Rows (cfg : Config) (e : Commit W) (core : Core W) (sent : Option Response) :
    Prop where
  /-- the sweep has deleted expired records -/
  | purged (hrole : core.role = .sweep)
      (hrows : ∀ k, e.after k = e.before k ∨
        e.after k = none ∧ ∀ r, e.before k = some r → r.Expired e.time)
  /-- a request without a claim has left them alone -/
  | same (hrole : core.role ≠ .sweep) (hrows : e.after = e.before)
      (hwrites : core.role.isKeyed = true → core.guarded = true → e.writes = [])
  /-- a claim has become a completed record, in place of none or an expired one -/
  | claimed (record : IdempotencyORM) (r : Response) (t : Nat)
      (hrole : core.role = .keyed (some record.scopeHash)) (hsent : sent = some r)
      (hold : ∀ old, e.before record.scopeHash = some old → old.Expired e.time)
      (hvalid : validateResponse cfg r.status r.body cfg.maxResponseBytes = .ok ())
      (ht : t ≤ e.time)
      (hrows : e.after = Function.update e.before record.scopeHash
        (some (record.complete r.status r.body t)))

/-- A commit is whole: it has made all writes of its mutation durable, of a request whose response
    is a success, and at most one record. -/
structure Commit.Accounts (cfg : Config) (e : Commit W) (core : Core W) (sent : Option Response) :
    Prop where
  writes : e.writes = core.written
  response : core.role ≠ .sweep → ∃ r, sent = some r ∧ r.Success
  rows : e.Rows cfg core sent

section Commit

variable {db : Database W} {c i : Nat} {core : Core W} {fresh : Bool} {vars : Vars}

/-- The entry that a commit of mutation `i` on connection `c` leaves in the history. -/
def Database.entry (db : Database W) (i c : Nat) : Commit W :=
  ⟨i, db.now, db.writes c, db.rows.committed, (db.commit c).rows.committed⟩

theorem Database.entry_after (db : Database W) (i c : Nat) (k : Text) :
    (db.entry i c).after k =
      if db.rows.owner k = some c then db.rows.latest k else db.rows.committed k := rfl

theorem Linked.purged_rows (h : Linked cfg db c core.role core.view) (hrecords : Records cfg db)
    (hrole : core.role = .sweep) (k : Text) :
    (db.entry i c).after k = (db.entry i c).before k ∨
      (db.entry i c).after k = none ∧ ∀ r, (db.entry i c).before k = some r → r.Expired db.now := by
  rw [Database.entry_after]
  split
  · next howner =>
      rcases h.unclaimed (h.claim_eq_none hrole) k howner with hsame | ⟨hnone, -⟩
      · exact .inl hsame
      · refine .inr ⟨hnone, fun r hr => hrecords.changed k ?_ r hr⟩
        rw [hnone, show db.rows.committed k = some r from hr]
        exact nofun
  · exact .inl rfl

theorem Linked.same_rows (h : Linked cfg db c core.role core.view) (hrole : core.role ≠ .sweep)
    (hclaim : core.view.claim = none)
    (hkept : core.role.isKeyed = true → core.view.cleared = false) :
    (db.entry i c).after = (db.entry i c).before := by
  funext k
  rw [Database.entry_after]
  split
  · next howner =>
      have hkeyed : core.role = .keyed (some k) := (h.owned k howner).resolve_left hrole
      rcases h.unclaimed hclaim k howner with hsame | ⟨-, hsweep | hcleared⟩
      · exact hsame
      · exact absurd hsweep hrole
      · rw [hkept (by rw [hkeyed]; rfl)] at hcleared
        cases hcleared
  · rfl

theorem Linked.claimed_rows (h : Linked cfg db c core.role core.view) {claim : Claim}
    (hclaim : core.view.claim = some claim) {row : IdempotencyORM}
    (hrow : db.rows.latest claim.record.scopeHash = some row) :
    (db.entry i c).after =
      Function.update (db.entry i c).before claim.record.scopeHash (some row) := by
  obtain ⟨hrole, -, howner, -⟩ := h.claimed claim hclaim
  funext k
  rw [Database.entry_after, Function.update_apply]
  by_cases hk : k = claim.record.scopeHash
  · rw [if_pos hk, hk, if_pos howner]
    exact hrow
  · rw [if_neg hk, if_neg fun hown => hk ?_]
    · rfl
    · rcases h.owned k hown with hsweep | hkeyed
      · rw [hsweep] at hrole
        cases hrole
      · exact Option.some.inj (Role.keyed.inj (hkeyed.symm.trans hrole))

/-- What an allowed commit does. -/
theorem Linked.accounts (h : Linked cfg db c core.role core.view) (hrecords : Records cfg db)
    (hswept : core.Swept) (hallowed : Stmt.commit.Allowed cfg core fresh vars) :
    (db.entry i c).Accounts cfg core vars.response := by
  have hwrites : (db.entry i c).writes = core.view.writes := h.writes
  by_cases hrole : core.role = .sweep
  · obtain ⟨hwritten, hnone⟩ := hswept hrole
    exact ⟨by rw [hwrites, hnone, hwritten], fun hne => absurd hrole hne,
      .purged hrole (h.purged_rows hrecords hrole)⟩
  · obtain ⟨-, r, hresponse, hcommittable⟩ := hallowed.2.resolve_left hrole
    refine ⟨hwrites.trans hcommittable.whole, fun _ => ⟨r, hresponse, hcommittable.json,
      hcommittable.background, hcommittable.status⟩, ?_⟩
    cases hclaim : core.view.claim with
    | none =>
        refine .same hrole (h.same_rows hrole hclaim fun hk => hcommittable.kept hk hclaim) ?_
        exact fun hk hg => hwrites.trans (hcommittable.unclaimed hk hg hclaim)
    | some claim =>
        obtain ⟨hkeyed, -, -, hold, row, hrow, hclaimRow⟩ := h.claimed claim hclaim
        have hstored := hcommittable.claimed claim hclaim
        rcases hclaimRow with ⟨hnone, -⟩ | ⟨status, body, t, hsome, ht, rfl, hvalid⟩
        · rw [hstored] at hnone
          cases hnone
        · obtain ⟨rfl, rfl⟩ := Prod.mk.inj (Option.some.inj (hstored.symm.trans hsome))
          exact .claimed claim.record r t hkeyed hresponse hold hvalid ht
            (h.claimed_rows hclaim hrow)

end Commit

/-- An unexpired record is the same behind a commit; a guarded request of its scope has then
    written nothing. -/
theorem Commit.Accounts.keeps {e : Commit W} {core : Core W} {sent : Option Response}
    (h : e.Accounts cfg core sent) {k : Text} {r : IdempotencyORM} (hr : e.before k = some r)
    (hunexpired : ¬ r.Expired e.time) :
    e.after k = some r ∧
      (core.role = .keyed (some k) → core.guarded = true → e.writes = []) := by
  cases h.rows with
  | purged hrole hrows =>
      refine ⟨?_, fun hk => ?_⟩
      · rcases hrows k with hsame | ⟨-, hold⟩
        · exact hsame.trans hr
        · exact absurd (hold r hr) hunexpired
      · rw [hrole] at hk
        cases hk
  | same hrole hrows hwrites =>
      refine ⟨hrows ▸ hr, fun hk hg => hwrites ?_ hg⟩
      rw [hk]
      rfl
  | claimed record response t hrole hsent hold hvalid ht hrows =>
      have hne : k ≠ record.scopeHash := by
        rintro rfl
        exact hunexpired (hold r hr)
      refine ⟨?_, fun hk => ?_⟩
      · rw [hrows, Function.update_of_ne hne]
        exact hr
      · exact absurd (Option.some.inj (Role.keyed.inj (hk.symm.trans hrole))) hne

-- ============================================================================
-- Mutations that commit no more
-- ============================================================================

/-- The mutation has committed, or its connection is gone. -/
def Core.Done (core : Core W) : Prop :=
  core.committed ≠ none ∨ core.taken = true ∧ (core.out = true → core.doomed = true)

/-- What its commit depends on is the same. -/
structure Ghost.Settled (g g' : Ghost W) : Prop where
  role : g'.core.role = g.core.role
  guarded : g'.core.guarded = g.core.guarded
  written : g'.core.written = g.core.written
  committed : g'.core.committed = g.core.committed
  sent : g'.sent = g.sent

theorem Ghost.Settled.refl (g : Ghost W) : g.Settled g := ⟨rfl, rfl, rfl, rfl, rfl⟩

/-- A commit is accounted for by the role, the writes and the response of its mutation. -/
theorem Commit.Accounts.congr {e : Commit W} {core core' : Core W} {sent sent' : Option Response}
    (h : e.Accounts cfg core sent) (hrole : core'.role = core.role)
    (hguarded : core'.guarded = core.guarded) (hwritten : core'.written = core.written)
    (hsent : sent' = sent) : e.Accounts cfg core' sent' := by
  obtain rfl := hsent
  obtain ⟨hwrites, hresponse, hrows⟩ := h
  refine ⟨hwrites.trans hwritten.symm, by rw [hrole]; exact hresponse, ?_⟩
  cases hrows with
  | purged h hrows => exact .purged (hrole.trans h) hrows
  | same h hrows hnothing =>
      refine .same (by rw [hrole]; exact h) hrows ?_
      rw [hrole, hguarded]
      exact hnothing
  | claimed record r t h hsent hold hvalid ht hrows =>
      exact .claimed record r t (hrole.trans h) hsent hold hvalid ht hrows

theorem Commit.Accounts.settled {e : Commit W} {g g' : Ghost W} (h : e.Accounts cfg g.core g.sent)
    (hg : g.Settled g') : e.Accounts cfg g'.core g'.sent :=
  h.congr hg.role hg.guarded hg.written hg.sent

/-- A mutation that is done stays so, whatever it still does. -/
theorem Core.Done.after {g : Ghost W} (h : g.core.Done) {op : Op W} {vars : Vars}
    (hallowed : op.Allowed cfg g.core g.fresh vars) (a : op.Ans D) (s : Local W) :
    (g.after op a s).core.Done ∧ g.Settled (g.after op a s) := by
  cases op with
  | clock => exact ⟨h, ⟨rfl, rfl, rfl, rfl, rfl⟩⟩
  | pause => exact ⟨h, ⟨rfl, rfl, rfl, rfl, rfl⟩⟩
  | checkout =>
      have hcommitted : g.core.committed ≠ none := by
        refine h.resolve_right fun hgone => ?_
        rw [show g.core.taken = false from hallowed] at hgone
        exact absurd hgone.1 nofun
      cases a with
      | ok _ => exact ⟨.inl hcommitted, ⟨rfl, rfl, rfl, rfl, rfl⟩⟩
      | failed e => exact ⟨h, ⟨rfl, rfl, rfl, rfl, rfl⟩⟩
      | lost e => exact ⟨h, ⟨rfl, rfl, rfl, rfl, rfl⟩⟩
  | invalidate =>
      exact ⟨h.imp_right fun hgone => ⟨hgone.1, fun _ => rfl⟩, ⟨rfl, rfl, rfl, rfl, rfl⟩⟩
  | close => exact ⟨h.imp_right fun hgone => ⟨hgone.1, nofun⟩, ⟨rfl, rfl, rfl, rfl, rfl⟩⟩
  | stmt st =>
      obtain ⟨hout, hdoomed, hst⟩ := hallowed
      have hcommitted : g.core.committed ≠ none := by
        refine h.resolve_right fun hgone => ?_
        exact absurd (hdoomed.symm.trans (hgone.2 hout)) nofun
      cases st with
      | write w => exact absurd hst.2.1 hcommitted
      | commit => exact absurd hst.1 hcommitted
      | _ => cases a <;> exact ⟨.inl hcommitted, ⟨rfl, rfl, rfl, rfl, rfl⟩⟩

end QuickApi.Mutation
