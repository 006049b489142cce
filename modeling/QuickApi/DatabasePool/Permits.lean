/-
  QuickApi.DatabasePool.Permits

  Who holds a permit, and the invariant that ties the holders to the counter,
  the queue and the log.
-/

import QuickApi.DatabasePool.Pool
import Mathlib.Data.Finset.Card

namespace QuickApi.DatabasePool

open QuickApi.Lib

-- ============================================================================
-- Permits held
-- ============================================================================

/-- The phases in which `acquired` is true or the record is leased. -/
def Phase.owning : Phase → Bool
  | .creating => true
  | .closing _ => true
  | .leased _ => true
  | .returning _ _ => true
  | _ => false

/-- The phases in which the acquisition and its lease are over. -/
def Phase.ended : Phase → Bool
  | .failed _ => true
  | .returned => true
  | _ => false

namespace Pool

/-- Task `i` holds a permit: it owns one, or was handed one and has not resumed. -/
def holds (p : Pool) (i : Nat) : Bool :=
  match p.phase? i with
  | some ph => ph.owning || (ph == .waiting && p.admission.future i == .result)
  | none => false

/-- The tasks that hold a permit. -/
def holders (p : Pool) : Finset Nat := (Finset.range p.tasks.length).filter (p.holds ·)

theorem phase?_eq_none {p : Pool} {i : Nat} (h : p.tasks.length ≤ i) : p.phase? i = none := by
  rw [phase?, List.getElem?_eq_none h]
  rfl

theorem phase?_length (p : Pool) : p.phase? p.tasks.length = none := phase?_eq_none le_rfl

theorem phase?_of_task {p : Pool} {i : Nat} {t : Task} (h : p.tasks[i]? = some t) :
    p.phase? i = some t.phase := by
  rw [phase?, h]
  rfl

theorem mem_holders {p : Pool} {i : Nat} : i ∈ p.holders ↔ p.holds i = true := by
  rw [holders, Finset.mem_filter, Finset.mem_range]
  constructor
  · exact fun h => h.2
  · intro h
    refine ⟨?_, h⟩
    by_contra hlen
    rw [holds, phase?_eq_none (Nat.le_of_not_lt hlen)] at h
    cases h

theorem holds_of_phase {p : Pool} {i : Nat} {ph : Phase} (h : p.phase? i = some ph) :
    p.holds i = (ph.owning || (ph == .waiting && p.admission.future i == .result)) := by
  rw [holds, h]

theorem holds_congr {p q : Pool} {i : Nat} (hphase : q.phase? i = p.phase? i)
    (hfuture : q.admission.future i = p.admission.future i) : q.holds i = p.holds i := by
  rw [holds, holds, hphase, hfuture]

theorem phase?_setTask {p : Pool} {i : Nat} {t t' : Task} (h : p.tasks[i]? = some t) (j : Nat) :
    (p.setTask i t').phase? j = if j = i then some t'.phase else p.phase? j := by
  have hlt : i < p.tasks.length := (List.getElem?_eq_some_iff.mp h).1
  unfold phase? setTask
  rw [List.getElem?_set]
  by_cases hij : i = j
  · subst hij
    simp [hlt]
  · rw [if_neg hij, if_neg (Ne.symm hij)]

theorem phase?_newcomer {p q : Pool} {t : Task} (h : q.tasks = p.tasks ++ [t]) (j : Nat) :
    q.phase? j = if j = p.tasks.length then some t.phase else p.phase? j := by
  unfold phase?
  rw [h, List.getElem?_append]
  by_cases hlt : j < p.tasks.length
  · rw [if_pos hlt, if_neg (Nat.ne_of_lt hlt)]
  · rw [if_neg hlt]
    by_cases heq : j = p.tasks.length
    · rw [if_pos heq, heq, Nat.sub_self]
      rfl
    · have hgt : 1 ≤ j - p.tasks.length := by omega
      rw [if_neg heq, List.getElem?_eq_none (by simpa using hgt),
        List.getElem?_eq_none (Nat.le_of_not_lt hlt)]

-- ============================================================================
-- The permit invariant
-- ============================================================================

/-- How often acquisition `i` was granted a permit. -/
def grants (p : Pool) (i : Nat) : Nat := p.admission.log.count (.granted i)

/-- How often acquisition `i` gave a permit back. -/
def releases (p : Pool) (i : Nat) : Nat := p.admission.log.count (.released i)

structure PermitInv (p : Pool) : Prop where
  active_eq : p.admission.active = p.holders.card
  bounded : p.admission.active ≤ p.admission.limit
  queued : ∀ w ∈ p.admission.waiters,
    p.phase? w = some .waiting ∧ p.admission.future w ≠ .result
  sorted : p.admission.waiters.Pairwise (· < ·)
  pending_queued : ∀ i, p.phase? i = some .waiting → p.admission.future i = .pending →
    i ∈ p.admission.waiters
  full : (∃ w, p.admission.PendingWaiter w) → p.admission.active = p.admission.limit
  drained : p.admission.closed = true → p.admission.waiters = []
  account : ∀ i, p.grants i = p.releases i + (p.holds i).toNat
  fresh : ∀ i, p.phase? i = none ∨ p.phase? i = some .waiting ∧ p.holds i = false → p.grants i = 0
  once : ∀ i, p.grants i ≤ 1

theorem PermitInv.new (size queueLimit : Nat) : PermitInv (.new size queueLimit) where
  active_eq := rfl
  bounded := Int.natCast_nonneg size
  queued := fun _ hw => absurd hw List.not_mem_nil
  sorted := List.Pairwise.nil
  pending_queued := fun _ h => by cases h
  full := fun ⟨_, hw⟩ => absurd hw.1 List.not_mem_nil
  drained := fun _ => rfl
  account := fun _ => rfl
  fresh := fun _ _ => rfl
  once := fun _ => Nat.zero_le 1

/-- The invariant reads the admission and the phases only. -/
theorem PermitInv.congr {p q : Pool} (h : PermitInv p) (hadm : q.admission = p.admission)
    (hphase : ∀ i, q.phase? i = p.phase? i) : PermitInv q := by
  have hholds : ∀ i, q.holds i = p.holds i := fun i => holds_congr (hphase i) (by rw [hadm])
  have hholders : q.holders = p.holders := by
    ext i
    rw [mem_holders, mem_holders, hholds]
  constructor
  · rw [hadm, hholders]
    exact h.active_eq
  · rw [hadm]
    exact h.bounded
  · intro w hw
    rw [hadm] at hw ⊢
    rw [hphase]
    exact h.queued w hw
  · rw [hadm]
    exact h.sorted
  · intro i hi hf
    rw [hphase] at hi
    rw [hadm] at hf ⊢
    exact h.pending_queued i hi hf
  · rw [hadm]
    exact h.full
  · rw [hadm]
    exact h.drained
  · intro i
    rw [hholds, grants, releases, hadm]
    exact h.account i
  · intro i hi
    rw [hphase, hholds] at hi
    rw [grants, hadm]
    exact h.fresh i hi
  · intro i
    rw [grants, hadm]
    exact h.once i

/-- Steps that move neither permits nor the counter: the queue may only lose members that are
    not pending, and no future becomes a result. -/
theorem PermitInv.same_holders {p q : Pool} (h : PermitInv p)
    (hactive : q.admission.active = p.admission.active)
    (hlimit : q.admission.limit = p.admission.limit) (hlog : q.admission.log = p.admission.log)
    (hholds : ∀ i, q.holds i = p.holds i)
    (hsub : q.admission.waiters.Sublist p.admission.waiters)
    (hqueued : ∀ w ∈ q.admission.waiters,
      q.phase? w = p.phase? w ∧ q.admission.future w ≠ .result)
    (hpending : ∀ i, q.phase? i = some .waiting → q.admission.future i = .pending →
      p.phase? i = some .waiting ∧ p.admission.future i = .pending ∧
        (i ∈ p.admission.waiters → i ∈ q.admission.waiters))
    (hclosed : q.admission.closed = true → q.admission.waiters = [])
    (hfresh : ∀ i, q.phase? i = none ∨ q.phase? i = some .waiting → q.phase? i = p.phase? i) :
    PermitInv q := by
  have hholders : q.holders = p.holders := by
    ext i
    rw [mem_holders, mem_holders, hholds]
  have hwaiting : ∀ w ∈ q.admission.waiters, q.phase? w = some .waiting := by
    intro w hw
    rw [(hqueued w hw).1]
    exact (h.queued w (hsub.subset hw)).1
  constructor
  · rw [hactive, hholders]
    exact h.active_eq
  · rw [hactive, hlimit]
    exact h.bounded
  · exact fun w hw => ⟨hwaiting w hw, (hqueued w hw).2⟩
  · exact h.sorted.sublist hsub
  · intro i hi hf
    obtain ⟨hi', hf', hmem⟩ := hpending i hi hf
    exact hmem (h.pending_queued i hi' hf')
  · rintro ⟨w, hw, hf⟩
    rw [hactive, hlimit]
    obtain ⟨-, hf', -⟩ := hpending w (hwaiting w hw) hf
    exact h.full ⟨w, hsub.subset hw, hf'⟩
  · exact hclosed
  · intro i
    rw [hholds, grants, releases, hlog]
    exact h.account i
  · intro i hi
    rw [grants, hlog]
    apply h.fresh i
    rcases hi with hi | ⟨hi, hh⟩
    · exact Or.inl (hfresh i (Or.inl hi) ▸ hi)
    · rw [hholds] at hh
      exact Or.inr ⟨hfresh i (Or.inr hi) ▸ hi, hh⟩
  · intro i
    rw [grants, hlog]
    exact h.once i

end Pool

end QuickApi.DatabasePool
