/-
  QuickApi.Mutation.Storage

  The records of the table under the statements of any connection: what is
  committed can be replayed, and only an expired record is replaced or deleted.
-/

import Mathlib.Logic.Relation
import QuickApi.Mutation.Server

namespace QuickApi.Mutation

open QuickApi.Fingerprint (Text)
open QuickApi.Lib

variable {W D : Type} {cfg : Config}

-- ============================================================================
-- Expiry
-- ============================================================================

theorem IdempotencyORM.Expired.mono {r : IdempotencyORM} {now later : Nat} (h : r.Expired now)
    (hle : now ≤ later) : r.Expired later := by
  obtain ⟨hstate, e, he, hnow⟩ := h
  exact ⟨hstate, e, he, hnow.trans hle⟩

-- ============================================================================
-- The invariant
-- ============================================================================

/-- What holds of the table in every state. -/
structure Records (cfg : Config) (db : Database W) : Prop where
  clean : db.rows.Clean
  stored : ∀ k r, db.rows.committed k = some r → Replayable cfg r
  keyed : ∀ k r, db.rows.latest k = some r → r.scopeHash = k
  keyedCommitted : ∀ k r, db.rows.committed k = some r → r.scopeHash = k
  changed : ∀ k, db.rows.latest k ≠ db.rows.committed k →
    ∀ r, db.rows.committed k = some r → r.Expired db.now

variable {db : Database W} {c : Nat}

theorem Records.start {rows : Text → Option IdempotencyORM}
    (h : ∀ k r, rows k = some r → Replayable cfg r ∧ r.scopeHash = k) (now : Nat)
    (locks : Text → Option Nat) (begun : Nat → Bool) (writes : Nat → List W) :
    Records cfg (⟨now, .ofRows rows, locks, begun, writes⟩ : Database W) where
  clean := RowStore.clean_ofRows rows
  stored k r hr := (h k r hr).1
  keyed k r hr := (h k r hr).2
  keyedCommitted k r hr := (h k r hr).2
  changed _ hne := absurd rfl hne

/-- Only the table and the time matter. -/
theorem Records.congr (h : Records cfg db) {db' : Database W} (hrows : db'.rows = db.rows)
    (hnow : db.now ≤ db'.now) : Records cfg db' where
  clean := hrows ▸ h.clean
  stored := hrows ▸ h.stored
  keyed := hrows ▸ h.keyed
  keyedCommitted := hrows ▸ h.keyedCommitted
  changed k hne r hr := by
    rw [hrows] at hne hr
    exact (h.changed k hne r hr).mono hnow

theorem Records.lock (h : Records cfg db) (k : Text) :
    Records cfg { db with rows := db.rows.lock c k } where
  clean := h.clean.lock c k
  stored := h.stored
  keyed := h.keyed
  keyedCommitted := h.keyedCommitted
  changed := h.changed

/-- Row `k` is written or deleted by a transaction that can lock it; it was changed before, is
    absent or has expired. -/
theorem Records.put (h : Records cfg db) {k : Text} {row : Option IdempotencyORM}
    (hkey : ∀ r, row = some r → r.scopeHash = k)
    (hold : ∀ r, db.rows.committed k = some r → r.Expired db.now) :
    Records cfg (db.put c k row) where
  clean := (h.clean.lock c k).write (by rw [RowStore.lock_owner, if_pos rfl]) row
  stored := h.stored
  keyed j r hr := by
    rw [Database.put_latest] at hr
    split at hr
    · next hjk => exact (hkey r hr).trans hjk.symm
    · exact h.keyed j r hr
  keyedCommitted := h.keyedCommitted
  changed j hne r hr := by
    rw [Database.put_latest] at hne
    split at hne
    · next hjk =>
        obtain rfl := hjk
        exact hold r hr
    · exact h.changed j hne r hr

/-- A row whose latest version is not the committed one may be changed again. -/
theorem Records.old_of_latest (h : Records cfg db) {k : Text} {row : Option IdempotencyORM}
    (hlatest : db.rows.latest k = row)
    (hrow : ∀ r, row = some r → Replayable cfg r → r.Expired db.now) {r : IdempotencyORM}
    (hr : db.rows.committed k = some r) : r.Expired db.now := by
  by_cases hsame : db.rows.latest k = db.rows.committed k
  · exact hrow r (hlatest.symm.trans (hsame.trans hr)) (h.stored k r hr)
  · exact h.changed k hsame r hr

theorem Records.rollback (h : Records cfg db) (c : Nat) : Records cfg (db.rollback c) where
  clean := h.clean.rollback c
  stored := h.stored
  keyed k r hr := by
    rw [show (db.rollback c).rows.latest k =
      if db.rows.owner k = some c then db.rows.committed k else db.rows.latest k from rfl] at hr
    split at hr
    · exact h.keyedCommitted k r hr
    · exact h.keyed k r hr
  keyedCommitted := h.keyedCommitted
  changed k hne r hr := by
    rw [show (db.rollback c).rows.latest k =
      if db.rows.owner k = some c then db.rows.committed k else db.rows.latest k from rfl] at hne
    split at hne
    · exact absurd rfl hne
    · exact h.changed k hne r hr

/-- A commit keeps the invariant if what it makes durable can be replayed. -/
theorem Records.commit (h : Records cfg db)
    (hnew : ∀ k r, db.rows.owner k = some c → db.rows.latest k ≠ db.rows.committed k →
      db.rows.latest k = some r → Replayable cfg r) : Records cfg (db.commit c) where
  clean := h.clean.commit c
  stored k r hr := by
    rw [show (db.commit c).rows.committed k =
      if db.rows.owner k = some c then db.rows.latest k else db.rows.committed k from rfl] at hr
    split at hr
    · next howner =>
        by_cases hsame : db.rows.latest k = db.rows.committed k
        · exact h.stored k r (hsame.symm.trans hr)
        · exact hnew k r howner hsame hr
    · exact h.stored k r hr
  keyed := h.keyed
  keyedCommitted k r hr := by
    rw [show (db.commit c).rows.committed k =
      if db.rows.owner k = some c then db.rows.latest k else db.rows.committed k from rfl] at hr
    split at hr
    · exact h.keyed k r hr
    · exact h.keyedCommitted k r hr
  changed k hne r hr := by
    rw [show (db.commit c).rows.committed k =
      if db.rows.owner k = some c then db.rows.latest k else db.rows.committed k from rfl]
      at hne hr
    split at hne
    · exact absurd rfl hne
    · next howner =>
        rw [if_neg howner] at hr
        exact h.changed k hne r hr

-- ============================================================================
-- What a statement can do
-- ============================================================================

/-- One change that connection `c` can make to the database before it commits. -/
inductive Effect (c : Nat) (db : Database W) : Database W → Prop where
  | touch : Effect c db (db.touch c)
  | take (name : Text) (h : db.Available c name) : Effect c db (db.setLock name (some c))
  | give (name : Text) (h : db.locks name = some c) : Effect c db (db.setLock name none)
  | lock (k : Text) (h : db.rows.Lockable c k) : Effect c db { db with rows := db.rows.lock c k }
  | put (k : Text) (row : Option IdempotencyORM) (h : db.rows.Lockable c k)
      (old : ∀ r, db.rows.latest k = some r → r.state = .processing ∨ r.Expired db.now)
      (key : ∀ r, row = some r → r.scopeHash = k ∨
        ∃ r', db.rows.latest k = some r' ∧ r.scopeHash = r'.scopeHash) :
      Effect c db (db.put c k row)
  | write (w : W) : Effect c db (db.addWrite c w)
  | rollback : Effect c db (db.rollback c)
  | drop : Effect c db (db.drop c)

/-- Changes one after the other. -/
abbrev Effects (c : Nat) : Database W → Database W → Prop := Relation.ReflTransGen (Effect c)

theorem Effect.records {db' : Database W} (h : Effect c db db') (hdb : Records cfg db) :
    Records cfg db' := by
  cases h with
  | touch => exact hdb.congr rfl le_rfl
  | take name h => exact hdb.congr rfl le_rfl
  | give name h => exact hdb.congr rfl le_rfl
  | lock k h => exact hdb.lock k
  | put k row h old key =>
      refine hdb.put (fun r hr => ?_) fun r hr => hdb.old_of_latest rfl (fun r hr hrep => ?_) hr
      · rcases key r hr with hk | ⟨r', hr', hk⟩
        · exact hk
        · exact hk.trans (hdb.keyed k r' hr')
      · refine (old r hr).resolve_left fun hstate => ?_
        rw [hrep.completed] at hstate
        cases hstate
  | write w => exact hdb.congr rfl le_rfl
  | rollback => exact hdb.rollback c
  | drop => exact (hdb.rollback c).congr rfl le_rfl

theorem Effects.records {db' : Database W} (h : Effects c db db') (hdb : Records cfg db) :
    Records cfg db' := by
  induction h with
  | refl => exact hdb
  | tail _ h ih => exact h.records ih

theorem effects_touch : Effects c db (db.touch c) := .single .touch

theorem effects_getLock (name : Text) : Effects c db (db.getLock c name).2 := by
  unfold Database.getLock
  split
  · next h => exact effects_touch.tail (.take name h)
  · exact effects_touch

theorem effects_releaseLock (name : Text) : Effects c db (db.releaseLock c name).2 := by
  unfold Database.releaseLock
  split
  · next h => exact effects_touch.tail (.give name h)
  · exact effects_touch

theorem effects_find {k : Text} (h : db.rows.Lockable c k) : Effects c db (db.find c k).2 := by
  unfold Database.find
  split
  · exact effects_touch
  · exact effects_touch.tail (.lock k h)

/-- An expired record is deleted. -/
theorem effect_delete {k : Text} (h : db.rows.Lockable c k) {r : IdempotencyORM}
    (hr : db.rows.latest k = some r) (hexpired : r.Expired db.now) :
    Effect c db (db.put c k none) := by
  refine .put k none h (fun r' hr' => .inr ?_) nofun
  rw [hr] at hr'
  exact Option.some.inj hr' ▸ hexpired

theorem effects_deleteExpired {k : Text} (h : db.rows.Lockable c k) :
    Effects c db (db.deleteExpired c k) := by
  unfold Database.deleteExpired
  split
  · exact effects_touch
  · next r hr =>
      split
      · next hexpired => exact effects_touch.tail (effect_delete h hr hexpired)
      · exact effects_touch

theorem effects_complete {k : Text} (h : db.rows.Lockable c k) (status : Nat)
    (body : List UInt8) : Effects c db (db.complete c k status body).2 := by
  unfold Database.complete
  split
  · exact effects_touch
  · next r hr =>
      split
      · next hstate =>
          refine effects_touch.tail (.put k _ h (fun r' hr' => .inl ?_) ?_)
          · rw [show (db.touch c).rows.latest k = some r from hr] at hr'
            exact Option.some.inj hr' ▸ hstate
          · rintro r' hr'
            obtain rfl := Option.some.inj hr'
            exact .inr ⟨r, hr, rfl⟩
      · exact effects_touch

theorem effects_deletes {ks : List Text}
    (h : ∀ k ∈ ks, db.rows.Lockable c k ∧ ∀ r, db.rows.latest k = some r → r.Expired db.now) :
    Effects c db (ks.foldl (fun db k => db.put c k none) db) := by
  induction ks generalizing db with
  | nil => exact .refl
  | cons k ks ih =>
      obtain ⟨hlock, hold⟩ := h k List.mem_cons_self
      refine .head (.put k none hlock (fun r hr => .inr (hold r hr)) nofun) (ih fun j hj => ?_)
      obtain ⟨hlock', hold'⟩ := h j (List.mem_cons_of_mem k hj)
      unfold RowStore.Lockable
      rw [Database.put_owner, Database.put_latest]
      split
      · exact ⟨.inr rfl, nofun⟩
      · exact ⟨hlock', hold'⟩

theorem effects_purge {ks : List Text} (h : ∀ k ∈ ks, db.Purgeable c k) :
    Effects c db (db.purge c ks) := by
  refine .trans effects_touch (effects_deletes fun k hk => ?_)
  obtain ⟨hlock, hexpired⟩ := h k hk
  refine ⟨hlock, fun r hr => ?_⟩
  rw [show db.rows.latest k = some r from hr] at hexpired
  exact of_decide_eq_true hexpired

/-- A statement other than a commit makes such changes only. -/
theorem effects_execute {st : Stmt W} {a : Answer D} {v : st.Value D} {db' : Database W}
    (hst : st ≠ .commit) (h : db.execute c st a = some (v, db')) : Effects c db db' := by
  have hsnd {α : Type} {x : α × Database W} {v : α} {y : Database W} (h : some x = some (v, y))
      (hx : Effects c db x.2) : Effects c db y := by
    rw [Option.some.inj h] at hx
    exact hx
  unfold Database.execute at h
  split at h
  · exact hsnd h (effects_getLock _)
  · split at h
    · cases h
    · refine hsnd h ?_
      split
      · exact effects_getLock _
      · exact effects_touch
  · exact hsnd h (effects_releaseLock _)
  · split at h
    · cases h
    · refine hsnd h ?_
      split
      · exact effects_touch
      · exact effects_releaseLock _
  · split at h
    · next hlock => exact hsnd h (effects_find hlock)
    · cases h
  · split at h
    · next hlock => exact hsnd h (effects_deleteExpired hlock)
    · cases h
  · split at h
    · next hcond =>
        refine hsnd h (effects_touch.tail (.put _ _ hcond.1 (fun r hr => ?_) fun r hr => .inl ?_))
        · rw [show (db.touch c).rows.latest _ = none from hcond.2] at hr
          cases hr
        · exact congrArg IdempotencyORM.scopeHash (Option.some.inj hr).symm
    · cases h
  · split at h
    · next hlock => exact hsnd h (effects_complete hlock _ _)
    · cases h
  · split at h
    · next hcond => exact hsnd h (effects_purge hcond.2.2)
    · cases h
  · exact hsnd h (effects_touch.tail (.write _))
  · exact hsnd h effects_touch
  · exact absurd rfl hst
  · exact hsnd h (.single .rollback)
  · cases h

theorem effects_refuse (st : Stmt W) : Effects c db (db.refuse c st) := by
  cases st
  case commit => exact .single .rollback
  case rollback => exact .single .rollback
  all_goals exact effects_touch

-- ============================================================================
-- Other connections
-- ============================================================================

/-- What connection `d` has at the server is the same. -/
structure Frame (d : Nat) (db db' : Database W) : Prop where
  begun : db'.begun d = db.begun d
  writes : db'.writes d = db.writes d
  locks : ∀ name, db'.locks name = some d ↔ db.locks name = some d
  rows : RowStore.Untouched d db.rows db'.rows
  now : db.now ≤ db'.now

theorem Frame.refl (d : Nat) (db : Database W) : Frame d db db :=
  ⟨rfl, rfl, fun _ => Iff.rfl, .refl d db.rows, le_rfl⟩

theorem Frame.trans {d : Nat} {db db' db'' : Database W} (h : Frame d db db')
    (h' : Frame d db' db'') : Frame d db db'' where
  begun := h'.begun.trans h.begun
  writes := h'.writes.trans h.writes
  locks name := (h'.locks name).trans (h.locks name)
  rows :=
    { owner_iff := fun k => (h'.rows.owner_iff k).trans (h.rows.owner_iff k)
      latest := fun k hk =>
        (h'.rows.latest k ((h.rows.owner_iff k).mpr hk)).trans (h.rows.latest k hk)
      committed := fun k hk =>
        (h'.rows.committed k ((h.rows.owner_iff k).mpr hk)).trans (h.rows.committed k hk) }
  now := h.now.trans h'.now

section Others

variable {d : Nat} (hne : d ≠ c)

theorem setLock_iff {name : Text} {owner : Option Nat} (howner : owner ≠ some d)
    (hold : db.locks name ≠ some d) (j : Text) :
    (db.setLock name owner).locks j = some d ↔ db.locks j = some d := by
  show Function.update db.locks name owner j = some d ↔ _
  rw [Function.update_apply]
  split
  · next hj =>
      rw [hj]
      exact ⟨fun h => absurd h howner, fun h => absurd h hold⟩
  · exact Iff.rfl

include hne

theorem some_ne_of_ne : (some c : Option Nat) ≠ some d := fun h => hne (Option.some.inj h).symm

theorem untouched_put {k : Text} (h : db.rows.Lockable c k) (row : Option IdempotencyORM) :
    RowStore.Untouched d db.rows (db.put c k row).rows := by
  have hlock := RowStore.untouched_lock hne h
  have hwrite := RowStore.untouched_write (s := db.rows.lock c k) (t := d) hne
    (by rw [RowStore.lock_owner, if_pos rfl]) row
  refine ⟨fun j => (hwrite.owner_iff j).trans (hlock.owner_iff j), fun j hj => ?_, fun j hj => ?_⟩
  · exact (hwrite.latest j ((hlock.owner_iff j).mpr hj)).trans (hlock.latest j hj)
  · exact (hwrite.committed j ((hlock.owner_iff j).mpr hj)).trans (hlock.committed j hj)

theorem Effect.frame {db' : Database W} (h : Effect c db db') : Frame d db db' := by
  have hupdate {α : Type} (f : Nat → α) (a : α) : Function.update f c a d = f d :=
    Function.update_of_ne hne a f
  cases h with
  | touch => exact ⟨hupdate _ _, rfl, fun _ => Iff.rfl, .refl d _, le_rfl⟩
  | take name h =>
      refine ⟨rfl, rfl, setLock_iff (some_ne_of_ne hne) ?_, .refl d _, le_rfl⟩
      rcases h with h | h
      · rw [h]
        exact nofun
      · rw [h]
        exact some_ne_of_ne hne
  | give name h =>
      refine ⟨rfl, rfl, setLock_iff nofun ?_, .refl d _, le_rfl⟩
      rw [h]
      exact some_ne_of_ne hne
  | lock k h => exact ⟨rfl, rfl, fun _ => Iff.rfl, RowStore.untouched_lock hne h, le_rfl⟩
  | put k row h old key => exact ⟨rfl, rfl, fun _ => Iff.rfl, untouched_put hne h row, le_rfl⟩
  | write w => exact ⟨rfl, hupdate _ _, fun _ => Iff.rfl, .refl d _, le_rfl⟩
  | rollback =>
      exact ⟨hupdate _ _, hupdate _ _, fun _ => Iff.rfl, RowStore.untouched_rollback hne, le_rfl⟩
  | drop =>
      refine ⟨hupdate _ _, hupdate _ _, fun name => ?_, RowStore.untouched_rollback hne, le_rfl⟩
      show (if db.locks name = some c then none else db.locks name) = some d ↔ _
      split
      · next hc =>
          rw [hc]
          exact ⟨nofun, fun h => absurd h (some_ne_of_ne hne)⟩
      · exact Iff.rfl

theorem Effects.frame {db' : Database W} (h : Effects c db db') : Frame d db db' := by
  induction h with
  | refl => exact .refl d db
  | tail _ h ih => exact ih.trans (h.frame hne)

theorem frame_commit : Frame d db (db.commit c) where
  begun := by
    show Function.update db.begun c false d = db.begun d
    exact Function.update_of_ne hne false db.begun
  writes := by
    show Function.update db.writes c [] d = db.writes d
    exact Function.update_of_ne hne [] db.writes
  locks _ := Iff.rfl
  rows := RowStore.untouched_commit hne
  now := le_rfl

/-- What one connection does leaves the others alone. -/
theorem frame_execute {st : Stmt W} {a : Answer D} {v : st.Value D} {db' : Database W}
    (h : db.execute c st a = some (v, db')) : Frame d db db' := by
  cases st
  case commit =>
    cases a
    case done =>
      obtain rfl : db.commit c = db' := congrArg Prod.snd (Option.some.inj h)
      exact frame_commit hne
    all_goals cases h
  all_goals
    refine (effects_execute ?_ h).frame hne
    exact nofun

end Others

end QuickApi.Mutation
