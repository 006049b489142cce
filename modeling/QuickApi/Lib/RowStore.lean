/-
  QuickApi.Lib.RowStore

  A transactional row store with exclusive row locks that are held to the end
  of the transaction.  A locking read sees the latest committed row, or the
  reader's own write; a row lock is what a write needs; commit and rollback act
  on the rows the transaction has locked.
-/

import Mathlib.Logic.Function.Basic

set_option linter.unusedSectionVars false

namespace QuickApi.Lib

/-- Committed rows, the latest version of each row, and who has locked it. -/
structure RowStore (κ ν τ : Type*) where
  committed : κ → Option ν
  latest : κ → Option ν
  owner : κ → Option τ

namespace RowStore

variable {κ ν τ : Type*} [DecidableEq κ] [DecidableEq τ] {s : RowStore κ ν τ}

/-- A store without open transactions. -/
def ofRows (rows : κ → Option ν) : RowStore κ ν τ := ⟨rows, rows, fun _ => none⟩

/-- `t` can lock row `k` without waiting. -/
def Lockable (s : RowStore κ ν τ) (t : τ) (k : κ) : Prop := s.owner k = none ∨ s.owner k = some t

instance (s : RowStore κ ν τ) (t : τ) (k : κ) : Decidable (s.Lockable t k) :=
  inferInstanceAs (Decidable (_ ∨ _))

def lock (s : RowStore κ ν τ) (t : τ) (k : κ) : RowStore κ ν τ :=
  { s with owner := Function.update s.owner k (some t) }

/-- Writes (or deletes) row `k`; the writer must have locked it. -/
def write (s : RowStore κ ν τ) (k : κ) (row : Option ν) : RowStore κ ν τ :=
  { s with latest := Function.update s.latest k row }

/-- Makes the latest version of the rows of `t` the committed one, and unlocks them. -/
def commit (s : RowStore κ ν τ) (t : τ) : RowStore κ ν τ where
  committed k := if s.owner k = some t then s.latest k else s.committed k
  latest := s.latest
  owner k := if s.owner k = some t then none else s.owner k

/-- Restores the rows of `t`, and unlocks them. -/
def rollback (s : RowStore κ ν τ) (t : τ) : RowStore κ ν τ where
  committed := s.committed
  latest k := if s.owner k = some t then s.committed k else s.latest k
  owner k := if s.owner k = some t then none else s.owner k

-- ============================================================================
-- Fields after each operation
-- ============================================================================

@[simp] theorem lock_committed (t : τ) (k : κ) : (s.lock t k).committed = s.committed := rfl
@[simp] theorem lock_latest (t : τ) (k : κ) : (s.lock t k).latest = s.latest := rfl
@[simp] theorem write_committed (k : κ) (row : Option ν) :
    (s.write k row).committed = s.committed := rfl
@[simp] theorem write_owner (k : κ) (row : Option ν) : (s.write k row).owner = s.owner := rfl
@[simp] theorem commit_latest (t : τ) : (s.commit t).latest = s.latest := rfl
@[simp] theorem rollback_committed (t : τ) : (s.rollback t).committed = s.committed := rfl

theorem lock_owner (t : τ) (k j : κ) :
    (s.lock t k).owner j = if j = k then some t else s.owner j := Function.update_apply ..

theorem write_latest (k j : κ) (row : Option ν) :
    (s.write k row).latest j = if j = k then row else s.latest j := Function.update_apply ..

-- ============================================================================
-- The invariant
-- ============================================================================

/-- Only a locked row has an uncommitted version. -/
def Clean (s : RowStore κ ν τ) : Prop := ∀ k, s.owner k = none → s.latest k = s.committed k

theorem clean_ofRows (rows : κ → Option ν) : (ofRows rows : RowStore κ ν τ).Clean := fun _ _ => rfl

theorem Clean.lock (h : s.Clean) (t : τ) (k : κ) : (s.lock t k).Clean := by
  intro j hj
  rw [lock_owner] at hj
  split at hj
  · cases hj
  · exact h j hj

theorem Clean.write (h : s.Clean) {t : τ} {k : κ} (hk : s.owner k = some t) (row : Option ν) :
    (s.write k row).Clean := by
  intro j hj
  rw [write_owner] at hj
  rw [write_latest, write_committed]
  split
  · next hjk =>
    rw [hjk, hk] at hj
    cases hj
  · exact h j hj

theorem Clean.commit (h : s.Clean) (t : τ) : (s.commit t).Clean := by
  intro k hk
  by_cases ho : s.owner k = some t
  · simp [RowStore.commit, ho]
  · simp only [RowStore.commit, ho, if_false] at hk ⊢
    exact h k hk

theorem Clean.rollback (h : s.Clean) (t : τ) : (s.rollback t).Clean := by
  intro k hk
  by_cases ho : s.owner k = some t
  · simp [RowStore.rollback, ho]
  · simp only [RowStore.rollback, ho, if_false] at hk ⊢
    exact h k hk

-- ============================================================================
-- Ends of transactions, row by row
-- ============================================================================

theorem commit_committed_of_owner {t : τ} {k : κ} (h : s.owner k = some t) :
    (s.commit t).committed k = s.latest k := if_pos h

theorem commit_committed_of_ne {t : τ} {k : κ} (h : s.owner k ≠ some t) :
    (s.commit t).committed k = s.committed k := if_neg h

/-- A transaction that has ended has no locks. -/
theorem commit_owner_ne (t : τ) (k : κ) : (s.commit t).owner k ≠ some t := by
  show (if s.owner k = some t then none else s.owner k) ≠ some t
  split
  · exact nofun
  · assumption

theorem rollback_owner_ne (t : τ) (k : κ) : (s.rollback t).owner k ≠ some t := by
  show (if s.owner k = some t then none else s.owner k) ≠ some t
  split
  · exact nofun
  · assumption

theorem rollback_latest_of_ne {t : τ} {k : κ} (h : s.owner k ≠ some t) :
    (s.rollback t).latest k = s.latest k := if_neg h

-- ============================================================================
-- Isolation
-- ============================================================================

/-- The rows that `t` has locked are the same in both stores, and `t` has locked no others. -/
structure Untouched (t : τ) (s s' : RowStore κ ν τ) : Prop where
  owner_iff : ∀ k, s'.owner k = some t ↔ s.owner k = some t
  latest : ∀ k, s.owner k = some t → s'.latest k = s.latest k
  committed : ∀ k, s.owner k = some t → s'.committed k = s.committed k

theorem Untouched.refl (t : τ) (s : RowStore κ ν τ) : Untouched t s s :=
  ⟨fun _ => Iff.rfl, fun _ _ => rfl, fun _ _ => rfl⟩

variable {t u : τ} {k : κ}

theorem untouched_lock (hne : t ≠ u) (hk : s.Lockable u k) : Untouched t s (s.lock u k) := by
  refine ⟨fun j => ?_, fun _ _ => rfl, fun _ _ => rfl⟩
  rw [lock_owner]
  split
  · next hjk =>
    rw [hjk]
    constructor
    · exact fun h => absurd (Option.some.inj h).symm hne
    · intro h
      rcases hk with hk | hk
      · rw [hk] at h
        cases h
      · rw [hk] at h
        exact absurd (Option.some.inj h).symm hne
  · exact Iff.rfl

theorem untouched_write (hne : t ≠ u) (hk : s.owner k = some u) (row : Option ν) :
    Untouched t s (s.write k row) := by
  refine ⟨fun _ => Iff.rfl, fun j hj => ?_, fun _ _ => rfl⟩
  rw [write_latest, if_neg]
  rintro rfl
  rw [hk] at hj
  exact hne (Option.some.inj hj).symm

theorem owner_end_iff (hne : t ≠ u) (j : κ) :
    (if s.owner j = some u then none else s.owner j) = some t ↔ s.owner j = some t := by
  split
  · next hj =>
    rw [hj]
    constructor
    · intro h
      cases h
    · exact fun h => absurd (Option.some.inj h).symm hne
  · exact Iff.rfl

theorem ne_of_owner (hne : t ≠ u) {j : κ} (hj : s.owner j = some t) : s.owner j ≠ some u := by
  rw [hj]
  exact fun h => hne (Option.some.inj h)

theorem untouched_commit (hne : t ≠ u) : Untouched t s (s.commit u) where
  owner_iff := owner_end_iff hne
  latest _ _ := rfl
  committed _ hj := commit_committed_of_ne (ne_of_owner hne hj)

theorem untouched_rollback (hne : t ≠ u) : Untouched t s (s.rollback u) where
  owner_iff := owner_end_iff hne
  latest _ hj := rollback_latest_of_ne (ne_of_owner hne hj)
  committed _ _ := rfl

end RowStore

end QuickApi.Lib
