/-
  QuickApi.DatabasePool.Leases

  Every step keeps the lease invariant: `_leased` holds the records of the
  leases in progress, each with one holder.
-/

import QuickApi.DatabasePool.Effect

namespace QuickApi.DatabasePool

open QuickApi.Lib

namespace Pool

theorem recordAt_of_leasedAt {p : Pool} {i : Nat} {r : Record} (h : p.leasedAt i = some r) :
    p.recordAt i = some r := by
  obtain ⟨ph, hph, hr⟩ := Option.bind_eq_some_iff.mp h
  rw [recordAt, hph]
  cases ph <;> first | exact hr | cases hr

theorem outstanding_of_recordAt {p : Pool} {i : Nat} {r : Record} (h : p.recordAt i = some r) :
    p.outstanding r = true := by
  obtain ⟨ph, hph, hr⟩ := Option.bind_eq_some_iff.mp h
  obtain ⟨t, ht, rfl⟩ := Option.map_eq_some_iff.mp hph
  refine List.any_eq_true.mpr ⟨t, List.mem_of_getElem? ht, ?_⟩
  rw [decide_eq_true_eq]
  cases hphase : t.phase with
  | closing r' =>
      rw [hphase] at hr
      exact Or.inl (congrArg Phase.closing (Option.some.inj hr))
  | leased r' =>
      rw [hphase] at hr
      exact Or.inr (Or.inl (congrArg Phase.leased (Option.some.inj hr)))
  | returning r' c =>
      rw [hphase] at hr
      obtain rfl := Option.some.inj hr
      cases c
      · exact Or.inr (Or.inr (Or.inr rfl))
      · exact Or.inr (Or.inr (Or.inl rfl))
  | _ => rw [hphase] at hr; cases hr

/-- Steps that leave every record where it is. -/
theorem LeaseInv.congr {p q : Pool} (h : LeaseInv p) (hleased : q.leased = p.leased)
    (hrecord : ∀ j, q.recordAt j = p.recordAt j) (hat : ∀ j, q.leasedAt j = p.leasedAt j) :
    LeaseInv q := by
  constructor
  · intro r
    rw [hleased, h.leased_iff]
    exact exists_congr fun i => by rw [hat]
  · intro i j r hi hj
    rw [hrecord] at hi hj
    exact h.distinct i j r hi hj

section
variable {p q : Pool} {i : Nat} {ph : Phase}

theorem recordAt_of_phase (hphase : ∀ j, q.phase? j = if j = i then some ph else p.phase? j)
    (j : Nat) : q.recordAt j = if j = i then ph.record? else p.recordAt j := by
  rw [recordAt, hphase]
  split
  · rfl
  · rfl

theorem leasedAt_of_phase (hphase : ∀ j, q.phase? j = if j = i then some ph else p.phase? j)
    (j : Nat) : q.leasedAt j = if j = i then ph.leasedRecord? else p.leasedAt j := by
  rw [leasedAt, hphase]
  split
  · rfl
  · rfl

variable (ph) in
/-- A task moves between phases with the same record. -/
theorem LeaseInv.kept (h : LeaseInv p) (hleased : q.leased = p.leased)
    (hphase : ∀ j, q.phase? j = if j = i then some ph else p.phase? j)
    (hrecord : p.recordAt i = ph.record?) (hat : p.leasedAt i = ph.leasedRecord?) :
    LeaseInv q := by
  refine h.congr hleased (fun j => ?_) (fun j => ?_)
  · rw [recordAt_of_phase hphase]
    split
    · next hj => rw [hj, hrecord]
    · rfl
  · rw [leasedAt_of_phase hphase]
    split
    · next hj => rw [hj, hat]
    · rfl

variable (ph) in
/-- A task without a record is delivered one that nobody has. -/
theorem LeaseInv.delivered (h : LeaseInv p) {r : Record}
    (hphase : ∀ j, q.phase? j = if j = i then some ph else p.phase? j)
    (hfresh : ∀ j, p.recordAt j ≠ some r) (hnone : p.leasedAt i = none)
    (hrecord : ph.record? = some r)
    (hcase : (ph.leasedRecord? = some r ∧ q.leased = insert r p.leased) ∨
      (ph.leasedRecord? = none ∧ q.leased = p.leased)) : LeaseInv q := by
  have hat := leasedAt_of_phase hphase
  have hold : ∀ s, (∃ j, j ≠ i ∧ p.leasedAt j = some s) ↔ ∃ j, p.leasedAt j = some s := by
    intro s
    constructor
    · rintro ⟨j, -, hj⟩
      exact ⟨j, hj⟩
    · rintro ⟨j, hj⟩
      refine ⟨j, ?_, hj⟩
      rintro rfl
      rw [hnone] at hj
      cases hj
  have hnew : ∀ s, (∃ j, q.leasedAt j = some s) ↔
      ph.leasedRecord? = some s ∨ ∃ j, p.leasedAt j = some s := by
    intro s
    rw [← hold]
    constructor
    · rintro ⟨j, hj⟩
      rw [hat] at hj
      split at hj
      · exact Or.inl hj
      · next hji => exact Or.inr ⟨j, hji, hj⟩
    · rintro (hs | ⟨j, hji, hj⟩)
      · exact ⟨i, by rw [hat, if_pos rfl, hs]⟩
      · exact ⟨j, by rw [hat, if_neg hji, hj]⟩
  constructor
  · intro s
    rw [hnew, ← h.leased_iff]
    rcases hcase with ⟨hr, hleased⟩ | ⟨hr, hleased⟩
    · rw [hr, hleased, Finset.mem_insert, Option.some.injEq, @eq_comm Nat s r]
    · rw [hr, hleased]
      simp
  · intro j k s hj hk
    rw [recordAt_of_phase hphase, hrecord] at hj hk
    split at hj <;> split at hk
    · next hji hki => rw [hji, hki]
    · exact absurd (hj.symm ▸ hk) (hfresh k)
    · exact absurd (hk.symm ▸ hj) (hfresh j)
    · exact h.distinct j k s hj hk

variable (ph) in
/-- A task gives up its record; `_leased` loses it. -/
theorem LeaseInv.dropped (h : LeaseInv p)
    (hphase : ∀ j, q.phase? j = if j = i then some ph else p.phase? j)
    (hend : ph.record? = none) (hend' : ph.leasedRecord? = none)
    (hleased : ∀ s, s ∈ q.leased ↔ s ∈ p.leased ∧ p.leasedAt i ≠ some s) : LeaseInv q := by
  constructor
  · intro s
    rw [hleased, h.leased_iff]
    constructor
    · rintro ⟨⟨j, hj⟩, hne⟩
      have hji : j ≠ i := fun heq => hne (heq ▸ hj)
      exact ⟨j, by rw [leasedAt_of_phase hphase, if_neg hji, hj]⟩
    · rintro ⟨j, hj⟩
      rw [leasedAt_of_phase hphase, hend'] at hj
      split at hj
      · cases hj
      · next hji =>
        refine ⟨⟨j, hj⟩, fun hi => hji ?_⟩
        exact h.distinct j i s (recordAt_of_leasedAt hj) (recordAt_of_leasedAt hi)
  · intro j k s hj hk
    rw [recordAt_of_phase hphase, hend] at hj hk
    split at hj
    · cases hj
    · split at hk
      · cases hk
      · exact h.distinct j k s hj hk

end

theorem recordAt_of_task {p : Pool} {i : Nat} {t : Task} {ph : Phase} (ht : p.tasks[i]? = some t)
    (hph : t.phase = ph) : p.recordAt i = ph.record? ∧ p.leasedAt i = ph.leasedRecord? := by
  rw [recordAt, leasedAt, phase?_of_task ht, hph]
  exact ⟨rfl, rfl⟩

theorem LeaseInv.deliverCancel {p q : Pool} (h : LeaseInv p) {i : Nat} {t t' : Task}
    (ht : p.tasks[i]? = some t) (hphase : t'.phase = t.phase)
    (hq : p.deliverCancel i t' = some q) : LeaseInv q := by
  have hkept : ∀ (q : Pool) (t'' : Task), t''.phase = t.phase →
      q.leased = p.leased → (∀ j, q.phase? j = (p.setTask i t'').phase? j) → LeaseInv q := by
    intro q t'' ht'' hleased hph
    obtain ⟨hrecord, hat⟩ := recordAt_of_task ht ht''.symm
    exact h.kept _ hleased (fun j => (hph j).trans (phase?_setTask ht j)) hrecord hat
  unfold Pool.deliverCancel at hq
  split at hq
  · split at hq
    · obtain rfl := Option.some.inj hq
      exact hkept _ t' hphase rfl fun _ => rfl
    · obtain rfl := Option.some.inj hq
      exact hkept _ { t' with mustCancel := true } hphase rfl fun _ => rfl
  · obtain rfl := Option.some.inj hq
    exact hkept _ t' hphase rfl fun _ => rfl
  · obtain rfl := Option.some.inj hq
    exact hkept _ t' hphase rfl fun _ => rfl
  · cases hq

theorem LeaseInv.acquisitionFailed {p : Pool} (h : LeaseInv p) {i : Nat} {t : Task}
    (ht : p.tasks[i]? = some t) (hnone : t.phase.leasedRecord? = none) (a : Admission)
    (acquired : Bool) (e : Exc) :
    LeaseInv (({ p with admission := a } : Pool).acquisitionFailed i t acquired e) := by
  have hat : p.leasedAt i = none := by rw [(recordAt_of_task ht rfl).2, hnone]
  cases acquired
  all_goals
    refine h.dropped (.failed (reraised (leaveTimeout t e))) (phase?_setTask ht) rfl rfl ?_
    intro s
    rw [hat]
    simp [Pool.acquisitionFailed, setTask, Pool.release]

theorem LeaseInv.acquireRecord {p : Pool} (h : LeaseInv p) : LeaseInv p.acquireRecord := by
  have hkept : ∀ (a : Admission) (ph : Phase), ph.record? = none → ph.leasedRecord? = none →
      LeaseInv { p with admission := a, tasks := p.tasks ++ [.start ph] } := by
    intro a ph hrecord hat
    refine h.kept ph (i := p.tasks.length) rfl (phase?_newcomer (p := p) (t := .start ph) rfl) ?_ ?_
    · rw [recordAt, phase?_length, hrecord]
      rfl
    · rw [leasedAt, phase?_length, hat]
      rfl
  rcases p.admission.acquire_cases p.tasks.length with ⟨e, ha⟩ | ⟨-, -, ha⟩ | ⟨-, -, ha⟩
  · simp only [Pool.acquireRecord, ha]
    exact hkept _ _ rfl rfl
  · simp only [Pool.acquireRecord, ha]
    exact hkept _ _ rfl rfl
  · simp only [Pool.acquireRecord, ha]
    exact hkept _ _ rfl rfl

theorem LeaseInv.resume {p q : Pool} (h : LeaseInv p) {i : Nat} {t : Task}
    (ht : p.tasks[i]? = some t) (hw : t.phase = .waiting) (hq : p.resume i t = some q) :
    LeaseInv q := by
  obtain ⟨hrecord, hat⟩ := recordAt_of_task ht hw
  obtain ⟨outcome, -, rfl⟩ := Option.map_eq_some_iff.mp hq
  cases outcome with
  | ok u => exact h.kept .creating rfl (phase?_setTask ht) hrecord hat
  | error e => exact h.acquisitionFailed ht (by rw [hw]; rfl) _ false e

theorem LeaseInv.recordCreated {p : Pool} (h : LeaseInv p) {i : Nat} {t : Task} {r : Record}
    (ht : p.tasks[i]? = some t) (hc : t.phase = .creating) (hfresh : ¬ p.outstanding r) :
    LeaseInv (p.recordCreated i t r) := by
  obtain ⟨-, hat⟩ := recordAt_of_task ht hc
  have hnobody : ∀ j, p.recordAt j ≠ some r := fun j hj => hfresh (outstanding_of_recordAt hj)
  unfold Pool.recordCreated
  split
  · exact h.delivered (.closing r) (phase?_setTask ht) hnobody hat rfl (Or.inr ⟨rfl, rfl⟩)
  · exact h.delivered (.leased r) (phase?_setTask ht) hnobody hat rfl (Or.inl ⟨rfl, rfl⟩)

theorem LeaseInv.finallyReturn {p : Pool} (h : LeaseInv p) {i : Nat} {t : Task} {r : Record}
    {c : Bool} (ht : p.tasks[i]? = some t) (hc : t.phase = .returning r c) :
    LeaseInv ((p.finallyReturn i r).setTask i { t with phase := .returned }) := by
  obtain ⟨-, hat⟩ := recordAt_of_task ht hc
  have hleased : r ∈ p.leased := (h.leased_iff r).mpr ⟨i, hat⟩
  rw [Pool.finallyReturn, if_pos hleased]
  refine h.dropped .returned
    (phase?_setTask (p := { p with leased := p.leased.erase r }.release i) ht) rfl rfl ?_
  intro s
  rw [hat]
  show s ∈ p.leased.erase r ↔ _
  rw [Finset.mem_erase, Ne, Ne, Phase.leasedRecord?, Option.some.injEq, @eq_comm Nat s r, and_comm]

/-- Every step keeps the lease invariant. -/
theorem LeaseInv.next {p q : Pool} {e : Event} (h : LeaseInv p) (hq : p.next e = some q) :
    LeaseInv q := by
  cases e with
  | acquire =>
      obtain rfl := Option.some.inj hq
      exact h.acquireRecord
  | cancel i =>
      obtain ⟨t, ht, hq⟩ := Option.bind_eq_some_iff.mp hq
      exact h.deliverCancel ht (by rfl) hq
  | expire i =>
      obtain ⟨t, ht, hq⟩ := Option.bind_eq_some_iff.mp hq
      split at hq
      · cases hq
      · exact h.deliverCancel ht (by rfl) hq
  | resume i =>
      obtain ⟨t, ht, hq⟩ := Option.bind_eq_some_iff.mp hq
      split at hq
      · next hw => exact h.resume ht hw hq
      · cases hq
  | created i r =>
      obtain ⟨t, ht, hq⟩ := Option.bind_eq_some_iff.mp hq
      split at hq
      · next hc =>
        obtain rfl := Option.some.inj hq
        exact h.recordCreated ht hc.1 hc.2
      · cases hq
  | createFailed i e =>
      obtain ⟨t, ht, hq⟩ := Option.bind_eq_some_iff.mp hq
      split at hq
      · next hc =>
        obtain rfl := Option.some.inj hq
        exact h.acquisitionFailed ht (by rw [hc]; rfl) p.admission true e
      · cases hq
  | recordClosed i raised =>
      obtain ⟨t, ht, hq⟩ := Option.bind_eq_some_iff.mp hq
      split at hq
      · next hc =>
        obtain rfl := Option.some.inj hq
        exact h.acquisitionFailed ht (by rw [hc]; rfl) p.admission true _
      · cases hq
  | giveBack i =>
      obtain ⟨t, ht, hq⟩ := Option.bind_eq_some_iff.mp hq
      split at hq
      · next r hc =>
        obtain rfl := Option.some.inj hq
        obtain ⟨hrecord, hat⟩ := recordAt_of_task ht hc
        exact h.kept (.returning r p.admission.closed) rfl (phase?_setTask ht) hrecord hat
      · cases hq
  | givenBack i =>
      obtain ⟨t, ht, hq⟩ := Option.bind_eq_some_iff.mp hq
      split at hq
      · next hc =>
        obtain rfl := Option.some.inj hq
        exact h.finallyReturn ht hc
      · cases hq
  | dispose =>
      obtain rfl := Option.some.inj hq
      exact h.congr rfl (fun _ => rfl) (fun _ => rfl)

end Pool

end QuickApi.DatabasePool
