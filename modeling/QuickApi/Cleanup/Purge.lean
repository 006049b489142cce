/-
  QuickApi.Cleanup.Purge

  The table behind the cleanup service: `purge_expired_batch`
  (`app/database/repositories/idempotency_repo.py`), and any number of services
  that sweep one table, their batches in any order.  The time is fixed, and no
  one else writes to the table.
-/

import QuickApi.Cleanup.Effect
import QuickApi.Mutation.Record
import QuickApi.Lib.LeastFirst
import Mathlib.Data.Prod.Lex
import Mathlib.Data.List.Lex

namespace QuickApi.Cleanup

open QuickApi.Lib
open QuickApi.Mutation (IdempotencyORM)

-- ============================================================================
-- The table
-- ============================================================================

/-- `request_idempotency`; the scope hash is its primary key. -/
structure Table where
  rows : List IdempotencyORM
  nodupKeys : (rows.map (·.scopeHash)).Nodup

/-- `expires_at, scope_hash` -/
def expiryKey (row : IdempotencyORM) : ℕ ×ₗ List Char :=
  toLex (row.expiresAt.getD 0, row.scopeHash)

/-- The `ValueError` of `purge_expired_batch` -/
structure ValueError where
  message : String
deriving DecidableEq, Repr

namespace Table

variable (table : Table) (now : Nat)

/-- The rows that the condition of the `DELETE` selects, in its order. -/
def expired : List IdempotencyORM :=
  leastFirst expiryKey (table.rows.filter fun row => row.Expired now)

def remove (gone : List IdempotencyORM) : Table where
  rows := table.rows.filter fun row => row ∉ gone
  nodupKeys := table.nodupKeys.sublist (List.filter_sublist.map _)

/-- `purge_expired_batch`: the rows that the `DELETE` removes, whose number is returned, and the
    table that it leaves. -/
def purgeExpiredBatch (limit : Nat) : Except ValueError (List IdempotencyORM × Table) :=
  if ¬ (1 ≤ limit ∧ limit ≤ 1000) then
    .error ⟨"Idempotency cleanup batch must contain 1–1000 rows."⟩
  else
    let gone := (table.expired now).take limit
    .ok (gone, table.remove gone)

end Table

-- ============================================================================
-- Replicas
-- ============================================================================

/-- A batch that has returned. -/
structure Batch where
  replica : Nat
  pass : Nat
  rows : List IdempotencyORM

structure Replicas where
  table : Table
  services : List Service
  /-- ghost: the batches that have returned, in their order -/
  purged : List Batch

/-- The rows of some batches. -/
def rowsOf (batches : List Batch) : List IdempotencyORM := batches.flatMap Batch.rows

namespace Replicas

variable (settings : Nat → CleanupSettings) (now : Nat) (r : Replicas)

/-- The service `i` takes a step; a batch returns what the table gives. -/
def next (e : Nat × Event) : Option Replicas :=
  r.services[e.1]?.bind fun s =>
    (s.next (settings e.1) e.2).bind fun s' =>
      match e.2 with
      | .batchReturned p removed =>
          match r.table.purgeExpiredBatch now (settings e.1).batchSize with
          | .ok (gone, table) =>
              if gone.length = removed then
                some ⟨table, r.services.set e.1 s', r.purged ++ [⟨e.1, p, gone⟩]⟩
              else none
          | .error _ => none
      | _ => some { r with services := r.services.set e.1 s' }

/-- The batches of one pass of one service. -/
def batches (i p : Nat) : List Batch := r.purged.filter fun b => b.replica = i ∧ b.pass = p

end Replicas

/-- Every run of some services over a table. -/
def replicaSystem (settings : Nat → CleanupSettings) (now : Nat) (table : Table) (count : Nat) :
    System Replicas (Nat × Event) where
  init r := r = ⟨table, List.replicate count .new, []⟩
  next r := r.next settings now

-- ============================================================================
-- One batch
-- ============================================================================

namespace Table

variable {table : Table} {now : Nat}

theorem nodup_expiryKey (table : Table) (now : Nat) :
    ((table.rows.filter fun row => row.Expired now).map expiryKey).Nodup := by
  have hnodup : (((table.rows.filter fun row => row.Expired now)).map (·.scopeHash)).Nodup :=
    table.nodupKeys.sublist (List.filter_sublist.map _)
  rw [List.Nodup, List.pairwise_map] at hnodup ⊢
  exact hnodup.imp fun hne heq => hne (congrArg (fun k => (ofLex k).2) heq)

theorem mem_expired {row : IdempotencyORM} :
    row ∈ table.expired now ↔ row ∈ table.rows ∧ row.Expired now := by
  rw [expired, mem_leastFirst, List.mem_filter, decide_eq_true_iff]

/-- A batch takes the first rows; the others are as before, and in the same order. -/
theorem expired_remove (table : Table) (now limit : Nat) :
    (table.remove ((table.expired now).take limit)).expired now =
      (table.expired now).drop limit := by
  have hcomm : (table.remove ((table.expired now).take limit)).rows.filter
        (fun row => row.Expired now) =
      (table.rows.filter fun row => row.Expired now).filter
        fun row => row ∉ (table.expired now).take limit := by
    rw [remove, List.filter_comm]
  rw [expired, hcomm]
  exact leastFirst_remove (table.nodup_expiryKey now) limit

theorem rows_remove_append (table : Table) (gone others : List IdempotencyORM) :
    ((table.remove gone).remove others).rows = (table.remove (gone ++ others)).rows := by
  simp only [remove, List.filter_filter, List.mem_append, not_or]
  refine List.filter_congr fun row _ => ?_
  rw [Bool.and_comm, ← Bool.decide_and]

end Table

-- ============================================================================
-- One step of a pass
-- ============================================================================

/-- The pass behind the check of the `for` loop. -/
def Pass.check (accepting : Bool) (count : Nat) : Nat → Pass
  | 0 => .done (.ok count)
  | left + 1 => if accepting then .purging count left else .done (.ok count)

/-- The pass behind a batch. -/
def Pass.behindBatch (settings : CleanupSettings) (accepting : Bool) (count left removed : Nat) :
    Pass :=
  if removed < settings.batchSize then .done (.ok (count + removed))
  else .check accepting (count + removed) left

/-- What an event does to the passes. -/
inductive PassStep (settings : CleanupSettings) (s : Service) : Event → List Pass → Prop
  | kept (e : Event) (he : ∀ p removed, e ≠ .batchReturned p removed) :
      PassStep settings s e s.passes
  | launched (e : Event) (he : ∀ p removed, e ≠ .batchReturned p removed) :
      PassStep settings s e (s.passes ++ [.created])
  | began (p : Nat) (hp : s.passes[p]? = some .created) :
      PassStep settings s (.passBegins p)
        (s.passes.set p (.check s.accepting 0 settings.maxBatches))
  | returned (p removed count left : Nat) (hp : s.passes[p]? = some (.purging count left)) :
      PassStep settings s (.batchReturned p removed)
        (s.passes.set p (.behindBatch settings s.accepting count left removed))
  | failed (p count left : Nat) (e : Exc) (hp : s.passes[p]? = some (.purging count left)) :
      PassStep settings s (.batchFailed p e) (s.passes.set p (.done (.error e)))

namespace Service

variable {settings : CleanupSettings} {s s' : Service} {e : Event}

theorem advance_passes (s : Service) (p count left : Nat) :
    (s.advance p count left).passes = s.passes.set p (.check s.accepting count left) := by
  cases left with
  | zero => rfl
  | succ left =>
      rw [advance, Pass.check]
      split
      · rfl
      · rfl

theorem batchReturned_passes (s : Service) (settings : CleanupSettings)
    (p count left removed : Nat) :
    (s.batchReturned settings p count left removed).passes =
      s.passes.set p (.behindBatch settings s.accepting count left removed) := by
  rw [batchReturned, Pass.behindBatch]
  split
  · rfl
  · exact s.advance_passes p _ left

theorem Called.passes (h : Called s s') :
    s'.passes = s.passes ∨ s'.passes = s.passes ++ [.created] := by
  cases h with
  | launched => exact .inr rfl
  | refused => exact .inl rfl
  | joined => exact .inl rfl
  | late => exact .inl rfl

theorem leave_passes (s : Service) (c : Nat) (call : SweepCall) (p : Nat) (r : Except Exc Nat) :
    (s.leave c call p r).passes = s.passes := by
  have hrelease (s : Service) : (s.release p).passes = s.passes := by
    unfold release
    split
    · rfl
    · rfl
  unfold leave
  dsimp only
  split
  · exact hrelease _
  · exact (quiet_timerSwept _ _ _).passes.trans (hrelease _)

theorem stop_passes (s : Service) : s.stop.passes = s.passes := by
  unfold stop
  dsimp only
  split
  · rfl
  · split
    · rfl
    · exact (s.quiesce.stopBehindTimer_spec none _).2.passes

theorem passStep_of_next (h : s.next settings e = some s') : PassStep settings s e s'.passes := by
  have hkept (he : ∀ p removed, e ≠ .batchReturned p removed) (hpasses : s'.passes = s.passes) :
      PassStep settings s e s'.passes := by
    rw [hpasses]
    exact .kept e he
  have hcalled (he : ∀ p removed, e ≠ .batchReturned p removed)
      (hpasses : s'.passes = s.passes ∨ s'.passes = s.passes ++ [.created]) :
      PassStep settings s e s'.passes := by
    obtain hpasses | hpasses := hpasses
    · exact hkept he hpasses
    · rw [hpasses]
      exact .launched e he
  cases e with
  | start =>
      obtain ⟨-, hs⟩ := Option.ite_none_left_eq_some.mp h
      obtain rfl := Option.some.inj hs
      refine hkept (by simp) ?_
      unfold start
      split
      · rfl
      · rfl
  | quiesce =>
      obtain rfl := Option.some.inj h
      exact hkept (by simp) rfl
  | stop =>
      obtain rfl := Option.some.inj h
      exact hkept (by simp) s.stop_passes
  | sweep =>
      obtain rfl := Option.some.inj h
      exact hcalled (by simp) (s.called_sweep .task).passes
  | stopTimerDone i =>
      simp only [next] at h
      split at h
      · obtain ⟨cancelled, -, rfl⟩ := Option.map_eq_some_iff.mp h
        exact hkept (by simp) (s.stopBehindTimer_spec none cancelled).2.passes
      · cases h
  | stopPendingDone i =>
      simp only [next] at h
      split at h
      · obtain ⟨r, -, rfl⟩ := Option.map_eq_some_iff.mp h
        cases r with
        | ok n => exact hkept (by simp) rfl
        | error e => exact hkept (by simp) rfl
      · cases h
  | callResumes c =>
      simp only [next] at h
      split at h
      · obtain ⟨r, -, rfl⟩ := Option.map_eq_some_iff.mp h
        exact hkept (by simp) (s.leave_passes c _ _ r)
      · cases h
  | callCancelled c =>
      simp only [next] at h
      split at h
      · obtain rfl := Option.some.inj h
        exact hkept (by simp) (s.leave_passes c _ _ _)
      · cases h
  | passBegins p =>
      simp only [next] at h
      split at h <;> cases h
      next hx =>
        rw [advance_passes]
        exact .began p hx
  | batchReturned p removed =>
      simp only [next] at h
      split at h
      · next count left hx =>
          obtain rfl := Option.some.inj h
          rw [batchReturned_passes]
          exact .returned p removed count left hx
      · cases h
  | batchFailed p e =>
      simp only [next] at h
      split at h <;> cases h
      next hx => exact .failed p _ _ e hx
  | timerBegins k =>
      simp only [next] at h
      split at h <;> cases h
      exact hkept (by simp) rfl
  | timerFires k =>
      simp only [next] at h
      split at h <;> cases h
      refine hcalled (by simp) ?_
      have hsweep := (s.called_sweep (.timer k)).passes
      unfold timerSweeps
      split
      · next m hm =>
          rw [hm] at hsweep
          exact hsweep
      · next r m hm =>
          rw [hm] at hsweep
          rw [(quiet_timerSwept m k r).passes]
          exact hsweep
  | timerWoken k =>
      simp only [next] at h
      split at h <;> cases h
      exact hkept (by simp) rfl
  | timerCancelled k =>
      simp only [next] at h
      split at h <;> cases h
      · exact hkept (by simp) rfl
      · exact hkept (by simp) rfl

end Service

-- ============================================================================
-- The accounts of the passes
-- ============================================================================

@[simp] theorem rowsOf_append (bs cs : List Batch) : rowsOf (bs ++ cs) = rowsOf bs ++ rowsOf cs :=
  List.flatMap_append

theorem rowsOf_singleton (b : Batch) : rowsOf [b] = b.rows := List.append_nil _

/-- What a pass has counted, by the batches that it has run; it ends early only where there was
    nothing left to remove, or the service was no longer accepting. -/
def PassCounted (settings : CleanupSettings) (exhausted : Prop) (batches : List Batch) :
    Pass → Prop
  | .created => batches = []
  | .purging count left =>
      batches.length + left + 1 = settings.maxBatches ∧ (rowsOf batches).length = count ∧
        count = settings.batchSize * batches.length
  | .done (.ok count) =>
      batches.length ≤ settings.maxBatches ∧ (rowsOf batches).length = count ∧
        count ≤ settings.batchSize * batches.length ∧
        (count = settings.batchSize * batches.length ∨ exhausted)
  | .done (.error _) => batches.length ≤ settings.maxBatches

namespace PassCounted

variable {settings : CleanupSettings} {exhausted exhausted' : Prop} {batches : List Batch}

theorem mono {x : Pass} (h : PassCounted settings exhausted batches x)
    (hexhausted : exhausted → exhausted') : PassCounted settings exhausted' batches x := by
  cases x with
  | created => exact h
  | purging count left => exact h
  | done result =>
      cases result with
      | error e => exact h
      | ok count =>
          obtain ⟨hlength, hcount, hle, hlast⟩ := h
          exact ⟨hlength, hcount, hle, hlast.imp_right hexhausted⟩

/-- The check of the loop, behind full batches. -/
theorem check {count left : Nat} (hlength : batches.length + left = settings.maxBatches)
    (hcount : (rowsOf batches).length = count)
    (hfull : count = settings.batchSize * batches.length) (accepting : Bool) :
    PassCounted settings exhausted batches (.check accepting count left) := by
  have hdone : PassCounted settings exhausted batches (.done (.ok count)) :=
    ⟨by omega, hcount, hfull.le, .inl hfull⟩
  cases left with
  | zero => exact hdone
  | succ left =>
      rw [Pass.check]
      split
      · exact ⟨by omega, hcount, hfull⟩
      · exact hdone

/-- A batch is counted: it is full, or nothing was left behind it. -/
theorem behindBatch {count left : Nat} (h : PassCounted settings exhausted batches (.purging count left))
    (b : Batch) (hsize : b.rows.length ≤ settings.batchSize)
    (hshort : b.rows.length < settings.batchSize → exhausted') (accepting : Bool) :
    PassCounted settings exhausted' (batches ++ [b])
      (.behindBatch settings accepting count left b.rows.length) := by
  obtain ⟨hlength, hcount, hfull⟩ := h
  have hlength' : (batches ++ [b]).length = batches.length + 1 := List.length_append
  have hcount' : (rowsOf (batches ++ [b])).length = count + b.rows.length := by
    rw [rowsOf_append, rowsOf_singleton, List.length_append, hcount]
  have hsize' : settings.batchSize * (batches.length + 1) =
      settings.batchSize * batches.length + settings.batchSize := Nat.mul_succ _ _
  rw [Pass.behindBatch]
  split
  · next hlt => exact ⟨by omega, hcount', by rw [hlength']; omega, .inr (hshort hlt)⟩
  · exact check (by omega) hcount' (by rw [hlength']; omega) accepting

end PassCounted

/-- The accounts of a table that was `table` at first. -/
structure Sound (settings : Nat → CleanupSettings) (now : Nat) (table : Table) (r : Replicas) :
    Prop where
  /-- the batches have taken the expired rows from the front -/
  taken : table.expired now = rowsOf r.purged ++ r.table.expired now
  rows : r.table.rows = (table.remove (rowsOf r.purged)).rows
  counted : ∀ i s p x, r.services[i]? = some s → s.passes[p]? = some x →
    PassCounted (settings i) (r.table.expired now = []) (r.batches i p) x
  known : ∀ b ∈ r.purged, ∃ s, r.services[b.replica]? = some s ∧ b.pass < s.passes.length

section

variable {settings : Nat → CleanupSettings} {now : Nat} {table : Table} {r r' : Replicas}

theorem sound_start (settings : Nat → CleanupSettings) (now : Nat) (table : Table) (count : Nat) :
    Sound settings now table ⟨table, List.replicate count .new, []⟩ where
  taken := rfl
  rows := by simp [Table.remove, rowsOf]
  counted i s p x hs hx := by
    obtain rfl := List.eq_of_mem_replicate (List.mem_of_getElem? hs)
    cases hx
  known := nofun

/-- The batches of a pass that does not exist yet. -/
theorem Sound.batches_eq_nil (h : Sound settings now table r) {i p : Nat} {s : Service}
    (hs : r.services[i]? = some s) (hp : s.passes.length ≤ p) : r.batches i p = [] := by
  rw [Replicas.batches, List.filter_eq_nil_iff]
  intro b hb heq
  obtain ⟨rfl, rfl⟩ := of_decide_eq_true heq
  obtain ⟨s', hs', hlt⟩ := h.known b hb
  obtain rfl := Option.some.inj (hs.symm.trans hs')
  omega

/-- What a step of the service `i` is: one that leaves the table alone, or a batch. -/
theorem Replicas.next_cases {i : Nat} {e : Event} (h : r.next settings now (i, e) = some r') :
    ∃ s s', r.services[i]? = some s ∧ s.next (settings i) e = some s' ∧
      (((∀ p removed, e ≠ .batchReturned p removed) ∧
          r' = { r with services := r.services.set i s' }) ∨
        ∃ p gone, e = .batchReturned p gone.length ∧
          gone = (r.table.expired now).take (settings i).batchSize ∧
          r' = ⟨r.table.remove gone, r.services.set i s', r.purged ++ [⟨i, p, gone⟩]⟩) := by
  obtain ⟨s, hs, h⟩ := Option.bind_eq_some_iff.mp h
  obtain ⟨s', hs', h⟩ := Option.bind_eq_some_iff.mp h
  refine ⟨s, s', hs, hs', ?_⟩
  cases e with
  | batchReturned p removed =>
      right
      dsimp only at h
      split at h
      · next gone table hpurge =>
          obtain ⟨rfl, hr'⟩ := Option.ite_none_right_eq_some.mp h
          rw [Table.purgeExpiredBatch] at hpurge
          split at hpurge
          · cases hpurge
          · obtain ⟨rfl, rfl⟩ := Prod.mk.inj (Except.ok.inj hpurge)
            exact ⟨p, _, rfl, rfl, (Option.some.inj hr').symm⟩
      · cases h
  | _ => exact .inl ⟨nofun, (Option.some.inj h).symm⟩

theorem PassStep.length_le {settings : CleanupSettings} {s : Service} {e : Event}
    {passes : List Pass} (h : PassStep settings s e passes) : s.passes.length ≤ passes.length := by
  cases h with
  | kept => exact le_rfl
  | launched => simp
  | began => simp
  | returned => simp
  | failed => simp

/-- The service that takes a step, and the others. -/
theorem services_set {i j : Nat} {s s' t : Service} {services : List Service}
    (hs : services[i]? = some s) (ht : (services.set i s')[j]? = some t) :
    (j = i ∧ t = s') ∨ (j ≠ i ∧ services[j]? = some t) := by
  by_cases hij : i = j
  · subst hij
    rw [getElem?_set_of_some hs] at ht
    exact .inl ⟨rfl, (Option.some.inj ht).symm⟩
  · rw [List.getElem?_set_ne hij] at ht
    exact .inr ⟨Ne.symm hij, ht⟩

/-- A step that runs no batch keeps the accounts of the passes. -/
theorem PassStep.counted {settings : CleanupSettings} {s : Service} {e : Event}
    {passes : List Pass} (h : PassStep settings s e passes) {exhausted : Prop}
    {batches : Nat → List Batch}
    (hcounted : ∀ p x, s.passes[p]? = some x → PassCounted settings exhausted (batches p) x)
    (hnew : batches s.passes.length = []) (he : ∀ p removed, e ≠ .batchReturned p removed)
    {p : Nat} {x : Pass} (hx : passes[p]? = some x) :
    PassCounted settings exhausted (batches p) x := by
  have hset {q : Nat} {y z : Pass} (hq : s.passes[q]? = some y)
      (hx : (s.passes.set q z)[p]? = some x)
      (hz : PassCounted settings exhausted (batches q) z) :
      PassCounted settings exhausted (batches p) x := by
    by_cases hqp : q = p
    · subst hqp
      rw [getElem?_set_of_some hq] at hx
      obtain rfl := Option.some.inj hx
      exact hz
    · rw [List.getElem?_set_ne hqp] at hx
      exact hcounted p x hx
  cases h with
  | kept => exact hcounted p x hx
  | launched =>
      rw [List.getElem?_append] at hx
      split at hx
      · exact hcounted p x hx
      · next hlt =>
          obtain ⟨hzero, rfl⟩ := List.getElem?_eq_some_iff.mp hx
          rw [List.length_singleton] at hzero
          have hp : p = s.passes.length := by omega
          subst hp
          simp only [Nat.sub_self, List.getElem_cons_zero]
          exact hnew
  | began q hq =>
      have hcreated : batches q = [] := hcounted q _ hq
      refine hset hq hx (.check ?_ ?_ ?_ _)
      · rw [hcreated, List.length_nil, Nat.zero_add]
      · rw [hcreated]
        rfl
      · rw [hcreated]
        rfl
  | returned q removed => exact absurd rfl (he q removed)
  | failed q count left e hq =>
      refine hset hq hx ?_
      obtain ⟨hlength, -⟩ := hcounted q _ hq
      show (batches q).length ≤ settings.maxBatches
      omega

theorem Sound.quiet {i : Nat} {e : Event} {s s' : Service} (h : Sound settings now table r)
    (hs : r.services[i]? = some s) (hs' : s.next (settings i) e = some s')
    (he : ∀ p removed, e ≠ .batchReturned p removed) :
    Sound settings now table { r with services := r.services.set i s' } where
  taken := h.taken
  rows := h.rows
  counted j t p x ht hx := by
    obtain ⟨rfl, rfl⟩ | ⟨-, ht⟩ := services_set hs ht
    · exact (Service.passStep_of_next hs').counted (fun p x hx => h.counted j s p x hs hx)
        (h.batches_eq_nil hs le_rfl) he hx
    · exact h.counted j t p x ht hx
  known b hb := by
    obtain ⟨t, ht, hlt⟩ := h.known b hb
    by_cases hb : b.replica = i
    · subst hb
      obtain rfl := Option.some.inj (hs.symm.trans ht)
      refine ⟨s', getElem?_set_of_some hs, ?_⟩
      exact hlt.trans_le (Service.passStep_of_next hs').length_le
    · exact ⟨t, (List.getElem?_set_ne (Ne.symm hb)).trans ht, hlt⟩

theorem Replicas.batches_append (r : Replicas) (services : List Service) (table : Table)
    (b : Batch) (i p : Nat) :
    Replicas.batches ⟨table, services, r.purged ++ [b]⟩ i p =
      r.batches i p ++ if b.replica = i ∧ b.pass = p then [b] else [] := by
  rw [Replicas.batches, List.filter_append, List.filter_cons, List.filter_nil, Replicas.batches]
  simp only [decide_eq_true_eq]

theorem Sound.batch {i p : Nat} {s s' : Service} (h : Sound settings now table r)
    (hs : r.services[i]? = some s) {gone : List Mutation.IdempotencyORM}
    (hgone : gone = (r.table.expired now).take (settings i).batchSize)
    (hs' : s.next (settings i) (.batchReturned p gone.length) = some s') :
    Sound settings now table
      ⟨r.table.remove gone, r.services.set i s', r.purged ++ [⟨i, p, gone⟩]⟩ where
  taken := by
    rw [rowsOf_append, rowsOf_singleton, List.append_assoc, h.taken]
    dsimp only
    rw [hgone, Table.expired_remove, List.take_append_drop]
  rows := by
    rw [rowsOf_append, rowsOf_singleton, ← Table.rows_remove_append]
    simp only [Table.remove, h.rows]
  counted j t q x ht hx := by
    have hexpired : (r.table.remove gone).expired now =
        (r.table.expired now).drop (settings i).batchSize := by
      rw [hgone, Table.expired_remove]
    have hexhausted : r.table.expired now = [] → (r.table.remove gone).expired now = [] := by
      intro hnil
      rw [hexpired, hnil, List.drop_nil]
    rw [Replicas.batches_append]
    dsimp only at ht ⊢
    obtain ⟨rfl, rfl⟩ | ⟨hij, ht⟩ := services_set hs ht
    · have hstep := Service.passStep_of_next hs'
      generalize t.passes = passes at hstep hx
      cases hstep with
      | kept _ he => exact absurd rfl (he p _)
      | launched _ he => exact absurd rfl (he p _)
      | returned _ _ count left hp =>
          by_cases hpq : p = q
          · subst hpq
            rw [getElem?_set_of_some hp] at hx
            obtain rfl := Option.some.inj hx
            rw [if_pos ⟨rfl, rfl⟩]
            refine (h.counted j s p _ hs hp).behindBatch ⟨j, p, gone⟩ ?_ ?_ _
            · rw [hgone]
              exact List.length_take_le _ _
            · intro hlt
              -- a short batch has taken all there was
              rw [hgone, List.length_take] at hlt
              rw [hexpired, List.drop_eq_nil_iff]
              omega
          · rw [List.getElem?_set_ne hpq] at hx
            rw [if_neg fun heq => hpq heq.2, List.append_nil]
            exact (h.counted j s q x hs hx).mono hexhausted
    · rw [if_neg fun heq => hij heq.1.symm, List.append_nil]
      exact (h.counted j t q x ht hx).mono hexhausted
  known b hb := by
    have hlength := (Service.passStep_of_next hs').length_le
    have hself : (r.services.set i s')[i]? = some s' :=
      getElem?_set_of_some hs
    obtain hb | hb := List.mem_append.mp hb
    · obtain ⟨t, ht, hlt⟩ := h.known b hb
      by_cases hbi : b.replica = i
      · subst hbi
        obtain rfl := Option.some.inj (hs.symm.trans ht)
        exact ⟨s', hself, hlt.trans_le hlength⟩
      · exact ⟨t, (List.getElem?_set_ne (Ne.symm hbi)).trans ht, hlt⟩
    · rw [List.mem_singleton.mp hb]
      have hstep := Service.passStep_of_next hs'
      refine ⟨s', hself, lt_of_lt_of_le ?_ hlength⟩
      generalize s'.passes = passes at hstep
      cases hstep with
      | kept _ he => exact absurd rfl (he p _)
      | launched _ he => exact absurd rfl (he p _)
      | returned _ _ count left hp => exact (List.getElem?_eq_some_iff.mp hp).1

theorem sound_next {e : Nat × Event} (h : Sound settings now table r)
    (hnext : r.next settings now e = some r') : Sound settings now table r' := by
  obtain ⟨s, s', hs, hs', ⟨he, rfl⟩ | ⟨p, gone, he, hgone, rfl⟩⟩ := Replicas.next_cases hnext
  · exact h.quiet hs hs' he
  · exact h.batch hs hgone (he ▸ hs')

theorem sound_invariant (settings : Nat → CleanupSettings) (now : Nat) (table : Table)
    (count : Nat) :
    (replicaSystem settings now table count).Invariant (Sound settings now table) where
  init r hr := by
    rw [show r = _ from hr]
    exact sound_start settings now table count
  step _ _ _ := sound_next

end

end QuickApi.Cleanup
