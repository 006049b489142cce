/-
  QuickApi.DatabasePool.Effect

  What one step of the pool can do to permits, said once (`next_effect`).  The
  invariants are derived from the effects and from the record bookkeeping.
-/

import QuickApi.DatabasePool.Permits

namespace QuickApi.DatabasePool

open QuickApi.Lib

/-- The record of a phase that has one. -/
def Phase.record? : Phase → Option Record
  | .closing r => some r
  | .leased r => some r
  | .returning r _ => some r
  | _ => none

/-- The record of a phase if it is in `_leased`. -/
def Phase.leasedRecord? : Phase → Option Record
  | .leased r => some r
  | .returning r _ => some r
  | _ => none

namespace Pool

-- ============================================================================
-- What a step does
-- ============================================================================

/-- What one step does to permits, up to the flags of a task and the records. -/
inductive Effect (p q : Pool) : Prop
  | granted (hopen : p.admission.closed = false) (hfree : p.admission.active < p.admission.limit)
      (hadm : q.admission =
        { p.admission with
          active := p.admission.active + 1
          log := p.admission.log ++ [.granted p.tasks.length] })
      (hphase : ∀ j, q.phase? j = if j = p.tasks.length then some .creating else p.phase? j)
  | queued (hopen : p.admission.closed = false)
      (hfull : ¬ p.admission.active < p.admission.limit)
      (hadm : q.admission =
        { p.admission.setFuture p.tasks.length .pending with
          waiters := p.admission.waiters ++ [p.tasks.length] })
      (hphase : ∀ j, q.phase? j = if j = p.tasks.length then some .waiting else p.phase? j)
  | refused (e : Exc) (hadm : q.admission = p.admission)
      (hphase : ∀ j, q.phase? j = if j = p.tasks.length then some (.failed e) else p.phase? j)
  | noted (hadm : q.admission = p.admission) (hphase : ∀ j, q.phase? j = p.phase? j)
  | cancelled (i : Nat) (hi : p.phase? i = some .waiting) (hf : p.admission.future i = .pending)
      (hadm : q.admission = p.admission.setFuture i .cancelled)
      (hphase : ∀ j, q.phase? j = p.phase? j)
  | moved (i : Nat) (ph : Phase) (hi : p.holds i = true) (hown : ph.owning = true)
      (hadm : q.admission = p.admission)
      (hphase : ∀ j, q.phase? j = if j = i then some ph else p.phase? j)
  | ended (i : Nat) (ph : Phase) (hi : p.holds i = true) (hend : ph.ended = true)
      (hadm : q.admission = p.admission.release i)
      (hphase : ∀ j, q.phase? j = if j = i then some ph else p.phase? j)
  | unserved (i : Nat) (ph : Phase) (hi : p.phase? i = some .waiting)
      (hresult : p.admission.future i ≠ .result) (hpending : p.admission.future i ≠ .pending)
      (hend : ph.ended = true)
      (hadm : q.admission = { p.admission with waiters := p.admission.waiters.erase i })
      (hphase : ∀ j, q.phase? j = if j = i then some ph else p.phase? j)
  | disposed (hadm : q.admission = p.admission.close) (hphase : ∀ j, q.phase? j = p.phase? j)

/-- The record that task `i` has. -/
def recordAt (p : Pool) (i : Nat) : Option Record := (p.phase? i).bind Phase.record?

/-- The record that task `i` has in `_leased`. -/
def leasedAt (p : Pool) (i : Nat) : Option Record := (p.phase? i).bind Phase.leasedRecord?

/-- The records in `_leased` are those of the leases in progress, and no record has two
    holders. -/
structure LeaseInv (p : Pool) : Prop where
  leased_iff : ∀ r, r ∈ p.leased ↔ ∃ i, p.leasedAt i = some r
  distinct : ∀ i j r, p.recordAt i = some r → p.recordAt j = some r → i = j

theorem holds_of_owning {p : Pool} {i : Nat} {t : Task} (ht : p.tasks[i]? = some t)
    (h : t.phase.owning = true) : p.holds i = true := by
  rw [holds_of_phase (phase?_of_task ht), h]
  rfl

theorem holds_of_result {p : Pool} {i : Nat} (hi : p.phase? i = some .waiting)
    (hf : p.admission.future i = .result) : p.holds i = true := by
  rw [holds_of_phase hi, hf]
  rfl

theorem acquireRecord_effect (p : Pool) : Effect p p.acquireRecord := by
  rcases p.admission.acquire_cases p.tasks.length with
    ⟨e, h⟩ | ⟨hopen, hfree, h⟩ | ⟨hopen, hfull, h⟩
  · simp only [acquireRecord, h]
    exact .refused _ rfl (phase?_newcomer (t := .start _) rfl)
  · simp only [acquireRecord, h]
    exact .granted hopen hfree rfl (phase?_newcomer (t := .start _) rfl)
  · simp only [acquireRecord, h]
    exact .queued hopen hfull rfl (phase?_newcomer (t := .start _) rfl)

theorem deliverCancel_effect {p q : Pool} {i : Nat} {t t' : Task} (ht : p.tasks[i]? = some t)
    (hphase : t'.phase = t.phase) (h : p.deliverCancel i t' = some q) : Effect p q := by
  have hsame : ∀ (t'' : Task), t''.phase = t.phase → ∀ j,
      (p.setTask i t'').phase? j = p.phase? j := by
    intro t'' ht'' j
    rw [phase?_setTask ht, ht'']
    split
    · next hj => rw [hj, phase?_of_task ht]
    · rfl
  unfold deliverCancel at h
  split at h
  · next hw =>
    split at h
    · next hf =>
      obtain rfl := Option.some.inj h
      exact .cancelled i (by rw [phase?_of_task ht, ← hphase, hw]) hf rfl (hsame t' hphase)
    · obtain rfl := Option.some.inj h
      exact .noted rfl (hsame _ hphase)
  · obtain rfl := Option.some.inj h
    exact .noted rfl (hsame t' hphase)
  · obtain rfl := Option.some.inj h
    exact .noted rfl (hsame t' hphase)
  · cases h

theorem acquisitionFailed_effect {p : Pool} {i : Nat} {t : Task} (ht : p.tasks[i]? = some t)
    (hown : t.phase.owning = true) (e : Exc) : Effect p (p.acquisitionFailed i t true e) :=
  .ended i _ (holds_of_owning ht hown) rfl rfl (phase?_setTask (p := p.release i) ht)

theorem resume_effect {p q : Pool} {i : Nat} {t : Task} (hp : PermitInv p)
    (ht : p.tasks[i]? = some t) (hw : t.phase = .waiting) (h : p.resume i t = some q) :
    Effect p q := by
  have hphase : p.phase? i = some .waiting := by rw [phase?_of_task ht, hw]
  obtain ⟨outcome, houtcome, hq⟩ := Option.map_eq_some_iff.mp h
  have hpending : p.admission.future i ≠ .pending := by
    intro hf
    rw [hf] at houtcome
    cases houtcome
  cases outcome with
  | ok u =>
      subst hq
      have hf : p.admission.future i = .result := by
        revert houtcome
        unfold Admission.awaited
        split <;> simp_all
      exact .moved i _ (holds_of_result hphase hf) rfl rfl (phase?_setTask ht)
  | error e =>
      subst hq
      by_cases hf : p.admission.future i = .result
      · -- handed over and then cancelled: not queued any more, so the permit goes back
        have hmem : i ∉ p.admission.waiters := fun hmem => (hp.queued i hmem).2 hf
        refine .ended i _ (holds_of_result hphase hf) rfl ?_ (phase?_setTask (p := { p with
          admission := p.admission.acquireFailed i }) ht)
        show p.admission.acquireFailed i = p.admission.release i
        rw [Admission.acquireFailed, if_neg hmem, if_pos hf]
      · refine .unserved i _ hphase hf hpending rfl ?_ (phase?_setTask (p := { p with
          admission := p.admission.acquireFailed i }) ht)
        show p.admission.acquireFailed i = _
        rw [Admission.acquireFailed, if_neg hf]
        split
        · rfl
        · next hmem => rw [List.erase_of_not_mem hmem]

theorem recordCreated_effect {p : Pool} {i : Nat} {t : Task} (ht : p.tasks[i]? = some t)
    (hown : t.phase.owning = true) (r : Record) : Effect p (p.recordCreated i t r) := by
  unfold recordCreated
  split
  · exact .moved i _ (holds_of_owning ht hown) rfl rfl (phase?_setTask ht)
  · exact .moved i _ (holds_of_owning ht hown) rfl rfl (phase?_setTask ht)

/-- Every step of the pool has one of the effects. -/
theorem next_effect {p q : Pool} {e : Event} (hp : PermitInv p) (hl : LeaseInv p)
    (h : p.next e = some q) : Effect p q := by
  cases e with
  | acquire =>
      obtain rfl := Option.some.inj h
      exact acquireRecord_effect p
  | cancel i =>
      obtain ⟨t, ht, h⟩ := Option.bind_eq_some_iff.mp h
      exact deliverCancel_effect ht (by rfl) h
  | expire i =>
      obtain ⟨t, ht, h⟩ := Option.bind_eq_some_iff.mp h
      split at h
      · cases h
      · exact deliverCancel_effect ht (by rfl) h
  | resume i =>
      obtain ⟨t, ht, h⟩ := Option.bind_eq_some_iff.mp h
      split at h
      · next hw => exact resume_effect hp ht hw h
      · cases h
  | created i r =>
      obtain ⟨t, ht, h⟩ := Option.bind_eq_some_iff.mp h
      split at h
      · next hc =>
        obtain rfl := Option.some.inj h
        exact recordCreated_effect ht (by rw [hc.1]; rfl) r
      · cases h
  | createFailed i e =>
      obtain ⟨t, ht, h⟩ := Option.bind_eq_some_iff.mp h
      split at h
      · next hc =>
        obtain rfl := Option.some.inj h
        exact acquisitionFailed_effect ht (by rw [hc]; rfl) e
      · cases h
  | recordClosed i raised =>
      obtain ⟨t, ht, h⟩ := Option.bind_eq_some_iff.mp h
      split at h
      · next hc =>
        obtain rfl := Option.some.inj h
        exact acquisitionFailed_effect ht (by rw [hc]; rfl) _
      · cases h
  | giveBack i =>
      obtain ⟨t, ht, h⟩ := Option.bind_eq_some_iff.mp h
      split at h
      · next hc =>
        obtain rfl := Option.some.inj h
        exact .moved i _ (holds_of_owning ht (by rw [hc]; rfl)) rfl rfl (phase?_setTask ht)
      · cases h
  | givenBack i =>
      obtain ⟨t, ht, h⟩ := Option.bind_eq_some_iff.mp h
      split at h
      · next r c hc =>
        obtain rfl := Option.some.inj h
        -- the record is in `_leased`, so the `finally` block does release
        have hleased : r ∈ p.leased :=
          (hl.leased_iff r).mpr ⟨i, by rw [leasedAt, phase?_of_task ht, hc]; rfl⟩
        rw [finallyReturn, if_pos hleased]
        exact .ended i _ (holds_of_owning ht (by rw [hc]; rfl)) rfl rfl
          (phase?_setTask (p := { p with leased := p.leased.erase r }.release i) ht)
      · cases h
  | dispose =>
      obtain rfl := Option.some.inj h
      exact .disposed rfl fun _ => rfl

end Pool

end QuickApi.DatabasePool
