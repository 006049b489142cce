/-
  QuickApi.Mutation.Linking

  What the contract says of a connection is what the server has: its advisory
  lock, its transaction with the domain's writes, and its claim.
-/

import QuickApi.Mutation.Storage

namespace QuickApi.Mutation

open QuickApi.Fingerprint (Text)
open QuickApi.Lib

variable {W D : Type} {cfg : Config}

-- ============================================================================
-- The link
-- ============================================================================

/-- The row of a claim, before and behind `complete`. -/
def ClaimRow (cfg : Config) (claim : Claim) (now : Nat) (row : IdempotencyORM) : Prop :=
  claim.response = none ∧ row = claim.record ∨
    ∃ status body t, claim.response = some (status, body) ∧ t ≤ now ∧
      row = claim.record.complete status body t ∧
      validateResponse cfg status body cfg.maxResponseBytes = .ok ()

/-- The lock of the connection may be `name`. -/
def LockView.Names (l : LockView) (name : Text) : Prop := l = .held name ∨ l = .asked name

/-- Connection `c`, which works for a mutation of the given role, is as `v` says. -/
structure Linked (cfg : Config) (db : Database W) (c : Nat) (role : Role) (v : View W) : Prop where
  begun : db.begun c = v.active
  writes : db.writes c = v.writes
  lock : ∀ name, db.locks name = some c → v.lock.Names name
  held : ∀ name, v.lock = .held name → db.locks name = some c
  asks : ∀ name, v.lock.Names name → role = .keyed (some name)
  idle : v.active = false → ∀ k, db.rows.owner k ≠ some c
  owned : ∀ k, db.rows.owner k = some c → role = .sweep ∨ role = .keyed (some k)
  unclaimed : v.claim = none → ∀ k, db.rows.owner k = some c →
    db.rows.latest k = db.rows.committed k ∨
      db.rows.latest k = none ∧ (role = .sweep ∨ v.cleared = true)
  claimed : ∀ claim, v.claim = some claim →
    role = .keyed (some claim.record.scopeHash) ∧ claim.record.state = .processing ∧
      db.rows.owner claim.record.scopeHash = some c ∧
      (∀ r, db.rows.committed claim.record.scopeHash = some r → r.Expired db.now) ∧
      ∃ row, db.rows.latest claim.record.scopeHash = some row ∧ ClaimRow cfg claim db.now row

variable {db db' : Database W} {c : Nat} {role : Role} {v : View W}

theorem ClaimRow.mono {claim : Claim} {now later : Nat} {row : IdempotencyORM}
    (h : ClaimRow cfg claim now row) (hle : now ≤ later) : ClaimRow cfg claim later row := by
  refine h.imp_right ?_
  rintro ⟨status, body, t, hresponse, ht, hrow, hvalid⟩
  exact ⟨status, body, t, hresponse, ht.trans hle, hrow, hvalid⟩

theorem LockView.Names.eq {l : LockView} {name name' : Text} (h : l.Names name)
    (h' : l.Names name') : name = name' := by
  rcases h with rfl | rfl
  · rcases h' with h' | h'
    · exact LockView.held.inj h'
    · cases h'
  · rcases h' with h' | h'
    · cases h'
    · exact LockView.asked.inj h'

/-- What others do does not matter. -/
theorem Linked.frame (h : Linked cfg db c role v) (hf : Frame c db db') :
    Linked cfg db' c role v where
  begun := hf.begun.trans h.begun
  writes := hf.writes.trans h.writes
  lock name hname := h.lock name ((hf.locks name).mp hname)
  held name hname := (hf.locks name).mpr (h.held name hname)
  asks := h.asks
  idle hv k hk := h.idle hv k ((hf.rows.owner_iff k).mp hk)
  owned k hk := h.owned k ((hf.rows.owner_iff k).mp hk)
  unclaimed hv k hk := by
    have hk' := (hf.rows.owner_iff k).mp hk
    rw [hf.rows.latest k hk', hf.rows.committed k hk']
    exact h.unclaimed hv k hk'
  claimed claim hc := by
    obtain ⟨hrole, hstate, howner, hold, row, hrow, hclaim⟩ := h.claimed claim hc
    refine ⟨hrole, hstate, (hf.rows.owner_iff _).mpr howner, fun r hr => ?_, row, ?_,
      hclaim.mono hf.now⟩
    · rw [hf.rows.committed _ howner] at hr
      exact (hold r hr).mono hf.now
    · exact (hf.rows.latest _ howner).trans hrow

/-- A connection that has nothing at the server. -/
structure Bare (db : Database W) (c : Nat) : Prop where
  begun : db.begun c = false
  writes : db.writes c = []
  locks : ∀ name, db.locks name ≠ some c
  rows : ∀ k, db.rows.owner k ≠ some c

theorem Bare.frame (h : Bare db c) (hf : Frame c db db') : Bare db' c where
  begun := hf.begun.trans h.begun
  writes := hf.writes.trans h.writes
  locks name hname := h.locks name ((hf.locks name).mp hname)
  rows k hk := h.rows k ((hf.rows.owner_iff k).mp hk)

/-- Nothing is known of a connection that has nothing. -/
theorem Bare.linked (h : Bare db c) (role : Role) : Linked cfg db c role .fresh where
  begun := h.begun
  writes := h.writes
  lock name hname := absurd hname (h.locks name)
  held _ hname := nomatch hname
  asks _ hname := by rcases hname with hname | hname <;> cases hname
  idle _ := h.rows
  owned k hk := absurd hk (h.rows k)
  unclaimed _ k hk := absurd hk (h.rows k)
  claimed _ hc := nomatch hc

theorem bare_drop (db : Database W) (c : Nat) : Bare (db.drop c) c where
  begun := db.rollback_begun c
  writes := db.rollback_writes c
  locks name hname := by
    rw [show (db.drop c).locks name = if db.locks name = some c then none else db.locks name
      from rfl] at hname
    split at hname
    · cases hname
    · contradiction
  rows := RowStore.rollback_owner_ne c

/-- A connection without a lock has nothing once it is rolled back. -/
theorem bare_rollback (h : ∀ name, db.locks name ≠ some c) : Bare (db.rollback c) c where
  begun := db.rollback_begun c
  writes := db.rollback_writes c
  locks := h
  rows := RowStore.rollback_owner_ne c

-- ============================================================================
-- Statements about the lock
-- ============================================================================

/-- A statement that leaves the rows alone. -/
theorem Linked.withLock (h : Linked cfg db c role v) {l : LockView} (hrows : db'.rows = db.rows)
    (hnow : db'.now = db.now) (hbegun : db'.begun c = true)
    (hwrites : db'.writes c = db.writes c) (hlock : ∀ name, db'.locks name = some c → l.Names name)
    (hheld : ∀ name, l = .held name → db'.locks name = some c)
    (hasks : ∀ name, l.Names name → role = .keyed (some name)) :
    Linked cfg db' c role { v with active := true, lock := l } where
  begun := hbegun
  writes := hwrites.trans h.writes
  lock := hlock
  held := hheld
  asks := hasks
  idle := nofun
  owned := hrows ▸ h.owned
  unclaimed := hrows ▸ h.unclaimed
  claimed := by
    rw [hrows, hnow]
    exact h.claimed

theorem Linked.touched (h : Linked cfg db c role v) :
    Linked cfg (db.touch c) c role { v with active := true } :=
  h.withLock rfl rfl (db.touch_begun c) rfl h.lock h.held h.asks

/-- The lock `name` is taken by a connection that has none. -/
theorem Linked.take (h : Linked cfg db c role v) {name : Text} (hrole : role = .keyed (some name))
    (hfree : v.lock = .free) {l : LockView} (hl : l.Names name) :
    Linked cfg ((db.touch c).setLock name (some c)) c role
      { v with active := true, lock := l } := by
  refine h.withLock rfl rfl (db.touch_begun c) rfl (fun j hj => ?_) (fun j hj => ?_) fun j hj => ?_
  · rw [Database.setLock_locks] at hj
    split at hj
    · next heq => exact heq ▸ hl
    · rcases h.lock j hj with hj | hj
      · rw [hfree] at hj
        cases hj
      · rw [hfree] at hj
        cases hj
  · obtain rfl := hl.eq (.inl hj)
    rw [Database.setLock_locks, if_pos rfl]
  · rw [hrole, hl.eq hj]

/-- A connection without a lock has asked for one and does not know whether it has it. -/
theorem Linked.ask (h : Linked cfg db c role v) {name : Text} (hrole : role = .keyed (some name))
    (hfree : v.lock = .free) :
    Linked cfg (db.touch c) c role { v with active := true, lock := .asked name } := by
  refine h.withLock rfl rfl (db.touch_begun c) rfl (fun j hj => ?_) nofun fun j hj => ?_
  · rcases h.lock j hj with hj | hj
    · rw [hfree] at hj
      cases hj
    · rw [hfree] at hj
      cases hj
  · rw [hrole, LockView.Names.eq (l := .asked name) (.inr rfl) hj]

theorem linked_getLock (h : Linked cfg db c role v) {name : Text} {a : Answer D}
    {acquired : Option Int} (hrole : role = .keyed (some name)) (hfree : v.lock = .free)
    (hex : db.execute c (.getLock name) a = some (acquired, db')) :
    Linked cfg db' c role (v.answered (D := D) (.getLock name) acquired) := by
  cases a
  case done =>
    have hpair : db.getLock c name = (acquired, db') := Option.some.inj hex
    unfold Database.getLock at hpair
    split at hpair
    · obtain ⟨rfl, rfl⟩ := Prod.mk.inj hpair
      exact h.take hrole hfree (.inl rfl)
    · obtain ⟨rfl, rfl⟩ := Prod.mk.inj hpair
      exact h.touched
  case unconfirmed value has =>
    change (if value = some 0 ∨ value = some 1 ∨ has = true ∧ ¬ db.Available c name then none
      else some (value, if has then (db.getLock c name).2 else db.touch c)) =
        some (acquired, db') at hex
    split at hex
    · cases hex
    · next hcond =>
        obtain ⟨rfl, rfl⟩ := Prod.mk.inj (Option.some.inj hex)
        obtain ⟨hzero, hone, havailable⟩ : ¬ value = some 0 ∧ ¬ value = some 1 ∧
            (has = true → db.Available c name) := by simpa using hcond
        have hview : (v.answered (D := D) (.getLock name) value) =
            { v with active := true, lock := .asked name } := by
          show { v with
              active := true
              lock := if value = some 1 then .held name
                else if value = some 0 then v.lock else .asked name : View W } = _
          rw [if_neg hone, if_neg hzero]
        rw [hview]
        split
        · next hhas =>
            unfold Database.getLock
            rw [if_pos (havailable hhas)]
            exact h.take hrole hfree (.inr rfl)
        · exact h.ask hrole hfree
  all_goals cases hex

/-- The lock `name` is given up by the connection that has it. -/
theorem Linked.give (h : Linked cfg db c role v) {name : Text} (hheld : v.lock = .held name)
    {l : LockView} (hl : l = .free ∨ l = .asked name) :
    Linked cfg ((db.touch c).setLock name none) c role { v with active := true, lock := l } := by
  have hnames : v.lock.Names name := .inl hheld
  refine h.withLock rfl rfl (db.touch_begun c) rfl (fun j hj => ?_) (fun j hj => ?_) fun j hj => ?_
  · rw [Database.setLock_locks] at hj
    split at hj
    · cases hj
    · next hne => exact absurd ((h.lock j hj).eq hnames) hne
  · rcases hl with rfl | rfl
    · cases hj
    · cases hj
  · rcases hl with rfl | rfl
    · rcases hj with hj | hj
      · cases hj
      · cases hj
    · rw [← LockView.Names.eq (l := .asked name) (.inr rfl) hj]
      exact h.asks name hnames

theorem linked_releaseLock (h : Linked cfg db c role v) {name : Text} {a : Answer D}
    {released : Option Int} (hheld : v.lock = .held name)
    (hex : db.execute c (.releaseLock name) a = some (released, db')) :
    Linked cfg db' c role (v.answered (D := D) (.releaseLock name) released) := by
  have hown : db.releaseLock c name = (some 1, (db.touch c).setLock name none) :=
    if_pos (h.held name hheld)
  cases a
  case done =>
    obtain ⟨rfl, rfl⟩ := Prod.mk.inj (hown.symm.trans (Option.some.inj hex))
    exact h.give hheld (.inl rfl)
  case unconfirmed value has =>
    change (if value = some 1 then none
      else some (value, if has then db.touch c else (db.releaseLock c name).2)) =
        some (released, db') at hex
    split at hex
    · cases hex
    · next hone =>
        obtain ⟨rfl, rfl⟩ := Prod.mk.inj (Option.some.inj hex)
        have hview : (v.answered (D := D) (.releaseLock name) value) =
            { v with active := true, lock := .asked name } := by
          show { v with
              active := true
              lock := if value = some 1 then .free else .asked name : View W } = _
          rw [if_neg hone]
        rw [hview, hown]
        split
        · refine h.withLock rfl rfl (db.touch_begun c) rfl (fun j hj => ?_) nofun fun j hj => ?_
          · rw [(h.lock j hj).eq (.inl hheld)]
            exact .inr rfl
          · rw [← LockView.Names.eq (l := .asked name) (.inr rfl) hj]
            exact h.asks name (.inl hheld)
        · exact h.give hheld (.inr rfl)
  all_goals cases hex

-- ============================================================================
-- Statements about records
-- ============================================================================

/-- Row `k` is locked by a connection without a claim. -/
theorem Linked.lockRow (h : Linked cfg db c role v) (hclean : db.rows.Clean) {k : Text}
    (hrole : role = .keyed (some k)) (hclaim : v.claim = none) (hlock : db.rows.Lockable c k) :
    Linked cfg { db.touch c with rows := db.rows.lock c k } c role { v with active := true } := by
  have howner (j : Text) : (db.rows.lock c k).owner j = if j = k then some c else db.rows.owner j :=
    RowStore.lock_owner c k j
  refine { h.touched with idle := nofun, owned := ?_, unclaimed := ?_, claimed := ?_ }
  · intro j hj
    rw [howner] at hj
    split at hj
    · next heq => exact .inr (heq ▸ hrole)
    · exact h.owned j hj
  · intro _ j hj
    rw [howner] at hj
    split at hj
    · next heq =>
        obtain rfl := heq
        rcases hlock with hnone | hown
        · exact .inl (hclean j hnone)
        · exact h.unclaimed hclaim j hown
    · exact h.unclaimed hclaim j hj
  · intro claim hc
    rw [show v.claim = some claim from hc] at hclaim
    cases hclaim

theorem Linked.clear (h : Linked cfg db c role v) :
    Linked cfg db c role { v with cleared := true } :=
  { h with
    unclaimed := fun hc k hk => (h.unclaimed hc k hk).imp_right fun hnone => ⟨hnone.1, .inr rfl⟩ }

/-- Row `k` is deleted by a connection without a claim. -/
theorem Linked.deleteRow (h : Linked cfg db c role v) {k : Text}
    (hrole : role = .sweep ∨ role = .keyed (some k)) (hcleared : role = .sweep ∨ v.cleared = true)
    (hclaim : v.claim = none) (hactive : v.active = true) : Linked cfg (db.put c k none) c role v := by
  refine { h with idle := ?_, owned := ?_, unclaimed := ?_, claimed := ?_ }
  · intro hidle
    rw [hactive] at hidle
    cases hidle
  · intro j hj
    rw [Database.put_owner] at hj
    split at hj
    · next heq => exact heq ▸ hrole
    · exact h.owned j hj
  · intro _ j hj
    rw [Database.put_owner] at hj
    rw [Database.put_latest]
    split at hj
    · next heq => exact .inr ⟨if_pos heq, hcleared⟩
    · next hne =>
        rw [if_neg hne]
        exact h.unclaimed hclaim j hj
  · intro claim hc
    rw [hclaim] at hc
    cases hc

/-- The row of the connection's scope is written with that of a claim. -/
theorem Linked.writeClaim (h : Linked cfg db c role v) {claim : Claim} {row : IdempotencyORM}
    (hrole : role = .keyed (some claim.record.scopeHash))
    (hstate : claim.record.state = .processing)
    (hold : ∀ r, db.rows.committed claim.record.scopeHash = some r → r.Expired db.now)
    (hrow : ClaimRow cfg claim db.now row) :
    Linked cfg ((db.touch c).put c claim.record.scopeHash (some row)) c role
      { v with active := true, claim := some claim } := by
  refine { h.touched with idle := nofun, owned := ?_, unclaimed := nofun, claimed := ?_ }
  · intro j hj
    rw [Database.put_owner] at hj
    split at hj
    · next heq => exact .inr (heq ▸ hrole)
    · exact h.owned j hj
  · intro claim' hc
    obtain rfl : claim = claim' := Option.some.inj hc
    refine ⟨hrole, hstate, ?_, hold, row, ?_, hrow⟩
    · rw [Database.put_owner, if_pos rfl]
    · rw [Database.put_latest, if_pos rfl]

theorem linked_find (h : Linked cfg db c role v) (hclean : db.rows.Clean) {k : Text}
    (hheld : v.lock = .held k) (hclaim : v.claim = none) (hlock : db.rows.Lockable c k) :
    Linked cfg (db.find c k).2 c role { v with active := true } := by
  unfold Database.find
  split
  · exact h.touched
  · exact h.lockRow hclean (h.asks k (.inl hheld)) hclaim hlock

theorem linked_deleteExpired (h : Linked cfg db c role v) {k : Text} (hheld : v.lock = .held k)
    (hclaim : v.claim = none) :
    Linked cfg (db.deleteExpired c k) c role { v with active := true, cleared := true } := by
  unfold Database.deleteExpired
  split
  · exact h.touched.clear
  · split
    · exact h.touched.clear.deleteRow (.inr (h.asks k (.inl hheld))) (.inr rfl) hclaim rfl
    · exact h.touched.clear

theorem linked_complete (h : Linked cfg db c role v) {k : Text} {status : Nat} {body : List UInt8}
    {claim : Claim} (hclaim : v.claim = some claim) (hscope : claim.record.scopeHash = k)
    (hresponse : claim.response = none)
    (hvalid : validateResponse cfg status body cfg.maxResponseBytes = .ok ()) :
    (db.complete c k status body).1 = 1 ∧
      Linked cfg (db.complete c k status body).2 c role
        (v.answered (D := D) (.complete k status body) (1 : Nat)) := by
  obtain rfl := hscope
  obtain ⟨hrole, hstate, howner, hold, row, hrow, hclaimRow⟩ := h.claimed claim hclaim
  have hrecord : row = claim.record := by
    rcases hclaimRow with ⟨-, heq⟩ | ⟨_, _, _, hsome, -⟩
    · exact heq
    · rw [hresponse] at hsome
      cases hsome
  have heq : db.complete c claim.record.scopeHash status body =
      (1, (db.touch c).put c claim.record.scopeHash
        (some (claim.record.complete status body db.now))) := by
    unfold Database.complete
    rw [hrow, hrecord]
    exact if_pos hstate
  have hview : (v.answered (D := D) (.complete claim.record.scopeHash status body) (1 : Nat)) =
      { v with active := true, claim := some { claim with response := some (status, body) } } := by
    show { v with
        active := true
        claim := if (1 : Nat) = 1 then v.claim.map _ else v.claim : View W } = _
    rw [if_pos rfl, hclaim]
    rfl
  have hcompleted : ClaimRow cfg ⟨claim.record, some (status, body)⟩ db.now
      (claim.record.complete status body db.now) :=
    .inr ⟨status, body, db.now, rfl, le_rfl, rfl, hvalid⟩
  have hrole' : role = .keyed
      (some (⟨claim.record, some (status, body)⟩ : Claim).record.scopeHash) := hrole
  rw [heq, hview]
  exact ⟨rfl, h.writeClaim hrole' hstate hold hcompleted⟩

/-- Rows of expired records are deleted by the sweep. -/
theorem Linked.purged (h : Linked cfg db c role v) (hrole : role = .sweep)
    (hclaim : v.claim = none) (hactive : v.active = true) (ks : List Text) :
    Linked cfg (ks.foldl (fun db k => db.put c k none) db) c role v := by
  induction ks generalizing db with
  | nil => exact h
  | cons k ks ih => exact ih (h.deleteRow (.inl hrole) (.inl hrole) hclaim hactive)

-- ============================================================================
-- The domain's statements and the end of the transaction
-- ============================================================================

theorem Linked.addWrite (h : Linked cfg db c role v) (w : W) :
    Linked cfg ((db.touch c).addWrite c w) c role
      { v with active := true, writes := v.writes ++ [w] } := by
  refine { h.touched with writes := ?_, idle := nofun }
  rw [Database.addWrite_writes, h.touched.writes]

/-- A transaction that is over has left its lock only. -/
theorem Linked.ended (h : Linked cfg db c role v) (hbegun : db'.begun c = false)
    (hwrites : db'.writes c = []) (hlocks : db'.locks = db.locks)
    (howner : ∀ k, db'.rows.owner k ≠ some c) : Linked cfg db' c role v.ended where
  begun := hbegun
  writes := hwrites
  lock name hname := h.lock name (hlocks ▸ hname)
  held name hname := hlocks ▸ h.held name hname
  asks := h.asks
  idle _ := howner
  owned k hk := absurd hk (howner k)
  unclaimed _ k hk := absurd hk (howner k)
  claimed _ hc := nomatch hc

theorem Linked.commit (h : Linked cfg db c role v) : Linked cfg (db.commit c) c role v.ended :=
  h.ended (db.commit_begun c) (db.commit_writes c) rfl (RowStore.commit_owner_ne c)

theorem Linked.rollback (h : Linked cfg db c role v) : Linked cfg (db.rollback c) c role v.ended :=
  h.ended (db.rollback_begun c) (db.rollback_writes c) rfl (RowStore.rollback_owner_ne c)

/-- A claim belongs to a keyed mutation. -/
theorem Linked.claim_eq_none (h : Linked cfg db c role v) (hrole : role = .sweep) :
    v.claim = none := by
  cases hclaim : v.claim with
  | none => rfl
  | some claim =>
      obtain ⟨hkeyed, -⟩ := h.claimed claim hclaim
      rw [hrole] at hkeyed
      cases hkeyed

-- ============================================================================
-- Any statement
-- ============================================================================

section Statements

variable {core : Core W} {fresh : Bool} {vars : Vars}

/-- A statement that the contract allows keeps the link. -/
theorem Linked.execute (h : Linked cfg db c core.role core.view) (hrecords : Records cfg db)
    {st : Stmt W} {a : Answer D} {value : st.Value D} (hallowed : st.Allowed cfg core fresh vars)
    (hex : db.execute c st a = some (value, db')) :
    Linked cfg db' c core.role (core.view.answered st value) := by
  cases st with
  | getLock name => exact linked_getLock h hallowed.1 hallowed.2.1 hex
  | releaseLock name => exact linked_releaseLock h hallowed.1 hex
  | find k =>
      cases a
      case done =>
        obtain ⟨hlock, heq⟩ := Option.ite_none_right_eq_some.mp hex
        obtain rfl := congrArg Prod.snd (Option.some.inj heq)
        exact linked_find h hrecords.clean hallowed.1 hallowed.2 hlock
      all_goals cases hex
  | deleteExpired k =>
      cases a
      case done =>
        obtain ⟨hlock, heq⟩ := Option.ite_none_right_eq_some.mp hex
        obtain rfl := congrArg Prod.snd (Option.some.inj heq)
        exact linked_deleteExpired h hallowed.1 hallowed.2
      all_goals cases hex
  | insert record =>
      cases a
      case done =>
        obtain ⟨⟨-, hlatest⟩, heq⟩ := Option.ite_none_right_eq_some.mp hex
        obtain rfl := congrArg Prod.snd (Option.some.inj heq)
        obtain ⟨hheld, -, hstate⟩ := hallowed
        have hold (r : IdempotencyORM) (hr : db.rows.committed record.scopeHash = some r) :
            r.Expired db.now :=
          hrecords.old_of_latest hlatest nofun hr
        have hrole : core.role = .keyed (some (⟨record, none⟩ : Claim).record.scopeHash) :=
          h.asks _ (.inl hheld)
        exact h.writeClaim hrole hstate hold (.inl ⟨rfl, rfl⟩)
      all_goals cases hex
  | complete k status body =>
      cases a
      case done =>
        obtain ⟨-, heq⟩ := Option.ite_none_right_eq_some.mp hex
        obtain ⟨-, ⟨claim, hclaim, hscope, hresponse⟩, hvalid⟩ := hallowed
        obtain ⟨hone, hlinked⟩ := linked_complete (D := D) h hclaim hscope hresponse hvalid
        have hpair : db.complete c k status body = (value, db') := Option.some.inj heq
        rw [hpair] at hone hlinked
        obtain rfl : value = (1 : Nat) := hone
        exact hlinked
      all_goals cases hex
  | purgeExpired limit =>
      cases a
      case purged ks =>
        obtain ⟨-, heq⟩ := Option.ite_none_right_eq_some.mp hex
        obtain rfl := congrArg Prod.snd (Option.some.inj heq)
        exact h.touched.purged hallowed (h.claim_eq_none hallowed) rfl ks
      all_goals cases hex
  | write w =>
      cases a
      case data d =>
        obtain rfl := congrArg Prod.snd (Option.some.inj hex)
        exact h.addWrite w
      all_goals cases hex
  | read w =>
      cases a
      case data d =>
        obtain rfl := congrArg Prod.snd (Option.some.inj hex)
        exact h.touched
      all_goals cases hex
  | commit =>
      cases a
      case done =>
        obtain rfl := congrArg Prod.snd (Option.some.inj hex)
        exact h.commit
      all_goals cases hex
  | rollback =>
      cases a
      case done =>
        obtain rfl := congrArg Prod.snd (Option.some.inj hex)
        exact h.rollback
      all_goals cases hex

/-- So does one that the server refuses. -/
theorem Linked.refuse (h : Linked cfg db c core.role core.view) {st : Stmt W}
    (hallowed : st.Allowed cfg core fresh vars) :
    Linked cfg (db.refuse c st) c core.role (core.view.failed st) := by
  cases st with
  | getLock name => exact h.ask hallowed.1 hallowed.2.1
  | releaseLock name =>
      refine h.withLock rfl rfl (db.touch_begun c) rfl (fun j hj => ?_) nofun fun j hj => ?_
      · rw [(h.lock j hj).eq (.inl hallowed.1)]
        exact .inr rfl
      · rw [← LockView.Names.eq (l := .asked name) (.inr rfl) hj]
        exact h.asks name (.inl hallowed.1)
  | commit => exact h.rollback
  | rollback => exact h.rollback
  | find k => exact h.touched
  | deleteExpired k => exact h.touched
  | insert record => exact h.touched
  | complete k status body => exact h.touched
  | purgeExpired limit => exact h.touched
  | write w => exact h.touched
  | read w => exact h.touched

end Statements

end QuickApi.Mutation
