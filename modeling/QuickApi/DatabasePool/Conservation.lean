/-
  QuickApi.DatabasePool.Conservation

  Permits are conserved: every reachable pool counts exactly the permits held,
  every step serves waiters in order of arrival, and a pool that was disposed
  grants nothing more and can drain.
-/

import QuickApi.DatabasePool.Preservation
import QuickApi.DatabasePool.Leases

namespace QuickApi.DatabasePool

open QuickApi.Lib

namespace Pool

/-- The task is suspended at `await waiter` and its future is not done. -/
def Pending (p : Pool) (i : Nat) : Prop :=
  p.phase? i = some .waiting ∧ p.admission.future i = .pending

structure Inv (p : Pool) : Prop where
  permits : PermitInv p
  leases : LeaseInv p

theorem inv_invariant : poolSystem.Invariant Inv where
  init := by
    rintro p ⟨size, queueLimit, rfl⟩
    refine ⟨.new size queueLimit, ?_, ?_⟩
    · intro r
      constructor
      · intro hr
        cases hr
      · rintro ⟨i, hi⟩
        cases hi
    · intro i j r hi
      cases hi
  step := by
    intro p e q h hq
    exact ⟨h.permits.effect (next_effect h.permits h.leases hq), h.leases.next hq⟩

-- ============================================================================
-- Order of arrival and closing
-- ============================================================================

/-- Whoever is granted a permit arrived no later than anyone still waiting. -/
theorem Effect.order {p q : Pool} (h : PermitInv p) (he : Effect p q) {i w : Nat}
    (hi : p.grants i < q.grants i) (hw : p.Pending w) : i ≤ w := by
  have hmem := h.pending_queued w hw.1 hw.2
  have hsame : q.admission.log = p.admission.log → False := by
    intro hlog
    rw [grants, grants, hlog] at hi
    exact lt_irrefl _ hi
  cases he with
  | granted hopen hfree hadm hphase => exact absurd (h.full ⟨w, hmem, hw.2⟩) (ne_of_lt hfree)
  | ended j ph hj hend hadm hphase =>
      rcases p.admission.release_cases j with
        ⟨hnone, -⟩ | ⟨v, skipped, rest, hwaiters, -, hskipped, hrelease⟩
      · exact absurd ⟨hmem, hw.2⟩ (hnone w)
      · have hiv : i = v := by
          rw [grants, grants, hadm, hrelease] at hi
          by_contra hne
          simp [List.count_append, Ne.symm hne] at hi
        have hsorted := h.sorted
        rw [hwaiters] at hmem hsorted
        have hafter := (List.pairwise_cons.mp (List.pairwise_append.mp hsorted).2.1).1
        rcases List.mem_append.mp hmem with hskip | hrest
        · exact absurd hw.2 (hskipped w hskip)
        · rcases List.mem_cons.mp hrest with hwv | hrest
          · exact le_of_eq (hiv.trans hwv.symm)
          · exact hiv ▸ Nat.le_of_lt (hafter w hrest)
  | queued hopen hfull hadm hphase => exact absurd (by rw [hadm]; rfl) hsame
  | refused e hadm hphase => exact absurd (by rw [hadm]) hsame
  | noted hadm hphase => exact absurd (by rw [hadm]) hsame
  | cancelled j hj hf hadm hphase => exact absurd (by rw [hadm]; rfl) hsame
  | moved j ph hj hown hadm hphase => exact absurd (by rw [hadm]) hsame
  | unserved j ph hj hresult hpending hend hadm hphase => exact absurd (by rw [hadm]) hsame
  | disposed hadm hphase => exact absurd (by rw [hadm]; rfl) hsame

/-- A release of a closed pool lowers the counter. -/
theorem release_of_closed {p : Pool} (h : PermitInv p) (hclosed : p.admission.closed = true)
    (i : Nat) :
    p.admission.release i =
      { p.admission with
        waiters := []
        active := p.admission.active - 1
        log := p.admission.log ++ [.released i] } := by
  rcases p.admission.release_cases i with ⟨-, hrelease⟩ | ⟨w, skipped, rest, hwaiters, -⟩
  · exact hrelease
  · rw [h.drained hclosed] at hwaiters
    exact absurd hwaiters (by simp)

/-- A step keeps a closed pool closed and grants nothing. -/
theorem Effect.of_closed {p q : Pool} (h : PermitInv p) (he : Effect p q)
    (hclosed : p.admission.closed = true) :
    q.admission.closed = true ∧ ∀ i, q.grants i = p.grants i := by
  cases he with
  | granted hopen => exact absurd (hopen.symm.trans hclosed) Bool.false_ne_true
  | queued hopen => exact absurd (hopen.symm.trans hclosed) Bool.false_ne_true
  | ended j ph hj hend hadm hphase =>
      rw [release_of_closed h hclosed] at hadm
      rw [hadm]
      refine ⟨hclosed, fun i => ?_⟩
      simp [grants, hadm, List.count_append]
  | refused e hadm hphase => exact ⟨by rw [hadm, hclosed], fun i => by rw [grants, grants, hadm]⟩
  | noted hadm hphase => exact ⟨by rw [hadm, hclosed], fun i => by rw [grants, grants, hadm]⟩
  | cancelled j hj hf hadm hphase =>
      exact ⟨by rw [hadm]; exact hclosed, fun i => by rw [grants, grants, hadm]; rfl⟩
  | moved j ph hj hown hadm hphase =>
      exact ⟨by rw [hadm, hclosed], fun i => by rw [grants, grants, hadm]⟩
  | unserved j ph hj hresult hpending hend hadm hphase =>
      exact ⟨by rw [hadm, hclosed], fun i => by rw [grants, grants, hadm]⟩
  | disposed hadm hphase => exact ⟨by rw [hadm]; rfl, fun i => by rw [grants, grants, hadm]; rfl⟩

/-- What stays of a pool that was closed in the state `p`. -/
structure QuietSince (p q : Pool) : Prop where
  inv : Inv q
  closed : q.admission.closed = true
  grants : ∀ i, q.grants i = p.grants i
  active : q.admission.active ≤ p.admission.active

/-- The counter of a closed pool does not rise. -/
theorem Effect.active_of_closed {p q : Pool} (h : PermitInv p) (he : Effect p q)
    (hclosed : p.admission.closed = true) : q.admission.active ≤ p.admission.active := by
  cases he with
  | granted hopen => exact absurd (hopen.symm.trans hclosed) Bool.false_ne_true
  | queued hopen => exact absurd (hopen.symm.trans hclosed) Bool.false_ne_true
  | ended j ph hj hend hadm hphase =>
      rw [hadm, release_of_closed h hclosed]
      show p.admission.active - 1 ≤ p.admission.active
      omega
  | refused e hadm hphase => rw [hadm]
  | noted hadm hphase => rw [hadm]
  | cancelled j hj hf hadm hphase => rw [hadm]; exact le_refl _
  | moved j ph hj hown hadm hphase => rw [hadm]
  | unserved j ph hj hresult hpending hend hadm hphase => rw [hadm]
  | disposed hadm hphase => rw [hadm]; exact le_refl _

/-- From then on nothing is granted in any run. -/
theorem run_closed {p q : Pool} (h : Inv p) (hclosed : p.admission.closed = true)
    {es : List Event} (hrun : poolSystem.run p es = some q) : QuietSince p q := by
  refine System.run_preserves (P := QuietSince p) ?_ ⟨h, hclosed, fun _ => rfl, le_refl _⟩ hrun
  intro m e m' hm hnext
  have heffect := next_effect hm.inv.permits hm.inv.leases hnext
  obtain ⟨hclosed', hgrants⟩ := heffect.of_closed hm.inv.permits hm.closed
  exact ⟨inv_invariant.step m e m' hm.inv hnext, hclosed',
    fun i => (hgrants i).trans (hm.grants i),
    le_trans (heffect.active_of_closed hm.inv.permits hm.closed) hm.active⟩

-- ============================================================================
-- Draining
-- ============================================================================

theorem closed_acquisitionFailed {p : Pool} (h : PermitInv p)
    (hclosed : p.admission.closed = true) (i : Nat) (t : Task) (e : Exc) :
    (p.acquisitionFailed i t true e).admission.closed = true ∧
      (p.acquisitionFailed i t true e).admission.active = p.admission.active - 1 := by
  have hadm : (p.acquisitionFailed i t true e).admission = p.admission.release i := rfl
  rw [hadm, release_of_closed h hclosed]
  exact ⟨hclosed, rfl⟩

/-- In a closed pool every hold can come to its end, and the counter goes down by one. -/
theorem finish {p : Pool} (h : Inv p) (hclosed : p.admission.closed = true) {i : Nat}
    (hi : p.holds i = true) :
    ∃ es q, poolSystem.run p es = some q ∧ q.admission.closed = true ∧
      q.admission.active = p.admission.active - 1 := by
  have hone : ∀ {e q}, p.next e = some q → poolSystem.run p [e] = some q := by
    intro e q hq
    exact System.run_cons_eq_some_iff.mpr ⟨q, hq, rfl⟩
  have htwo : ∀ {e m f q}, p.next e = some m → m.next f = some q →
      poolSystem.run p [e, f] = some q := by
    intro e m f q hm hq
    exact System.run_cons_eq_some_iff.mpr ⟨m, hm, System.run_cons_eq_some_iff.mpr ⟨q, hq, rfl⟩⟩
  cases ht : p.tasks[i]? with
  | none =>
      rw [holds, phase?, ht] at hi
      cases hi
  | some t =>
      have hlt : i < p.tasks.length := (List.getElem?_eq_some_iff.mp ht).1
      have hset : ∀ t' : Task, (p.tasks.set i t')[i]? = some t' := fun t' => by simp [hlt]
      rw [holds_of_phase (phase?_of_task ht)] at hi
      cases hphase : t.phase with
      | waiting =>
          have hf : p.admission.future i = .result := by
            rw [hphase] at hi
            simpa [Phase.owning] using hi
          have hmem : i ∉ p.admission.waiters := by
            rw [h.permits.drained hclosed]
            exact List.not_mem_nil
          cases hcancel : t.mustCancel with
          | true =>
              refine ⟨_, ?_, hone (e := .resume i) ?_, ?_⟩
              · exact Pool.acquisitionFailed ⟨p.admission.acquireFailed i, p.leased, p.tasks⟩ i t
                  false .cancelled
              · simp [next, ht, hphase, resume, Admission.awaited, hf, hcancel]
              · show (p.admission.acquireFailed i).closed = true ∧
                  (p.admission.acquireFailed i).active = _
                rw [Admission.acquireFailed, if_neg hmem, if_pos hf,
                  release_of_closed h.permits hclosed]
                exact ⟨hclosed, rfl⟩
          | false =>
              have hm : p.next (.resume i) = some (p.setTask i { t with phase := .creating }) := by
                simp [next, ht, hphase, resume, Admission.awaited, hf, hcancel]
              refine ⟨_, ?_, htwo hm (f := .createFailed i .other) ?_, ?_⟩
              · exact (p.setTask i { t with phase := .creating }).acquisitionFailed i
                  { t with phase := .creating } true .other
              · simp [next, setTask, hset]
              · have hinv := inv_invariant.step p (.resume i) _ h hm
                exact closed_acquisitionFailed hinv.permits hclosed i _ _
      | creating =>
          refine ⟨_, ?_, hone (e := .createFailed i .other) ?_, ?_⟩
          · exact p.acquisitionFailed i t true .other
          · simp [next, ht, hphase]
          · exact closed_acquisitionFailed h.permits hclosed i t _
      | closing r =>
          refine ⟨_, ?_, hone (e := .recordClosed i none) ?_, ?_⟩
          · exact p.acquisitionFailed i t true (closedError none)
          · simp [next, ht, hphase]
          · exact closed_acquisitionFailed h.permits hclosed i t _
      | returning r c =>
          have hleased : r ∈ p.leased := (h.leases.leased_iff r).mpr
            ⟨i, (recordAt_of_task ht hphase).2⟩
          refine ⟨_, ?_, hone (e := .givenBack i) ?_, ?_⟩
          · exact (p.finallyReturn i r).setTask i { t with phase := .returned }
          · simp [next, ht, hphase]
          · rw [finallyReturn, if_pos hleased]
            show (p.admission.release i).closed = true ∧ (p.admission.release i).active = _
            rw [release_of_closed h.permits hclosed]
            exact ⟨hclosed, rfl⟩
      | leased r =>
          have hleased : r ∈ p.leased := (h.leases.leased_iff r).mpr
            ⟨i, (recordAt_of_task ht hphase).2⟩
          have hm : p.next (.giveBack i) =
              some (p.setTask i { t with phase := .returning r p.admission.closed }) := by
            simp [next, ht, hphase]
          refine ⟨_, ?_, htwo hm (f := .givenBack i) ?_, ?_⟩
          · exact ((p.setTask i { t with phase := .returning r p.admission.closed }).finallyReturn
              i r).setTask i { t with phase := .returned }
          · simp [next, setTask, hset]
          · rw [finallyReturn, if_pos (show r ∈ (p.setTask i _).leased from hleased)]
            show (p.admission.release i).closed = true ∧ (p.admission.release i).active = _
            rw [release_of_closed h.permits hclosed]
            exact ⟨hclosed, rfl⟩
      | failed e => rw [hphase] at hi; cases hi
      | returned => rw [hphase] at hi; cases hi

/-- A closed pool can drain. -/
theorem drains {p : Pool} (h : Inv p) (hclosed : p.admission.closed = true) :
    ∃ es q, poolSystem.run p es = some q ∧ q.admission.active = 0 := by
  generalize hn : p.holders.card = n
  induction n generalizing p with
  | zero => exact ⟨[], p, rfl, by rw [h.permits.active_eq, hn]; rfl⟩
  | succ n ih =>
      obtain ⟨i, hi⟩ := Finset.card_pos.mp (by omega : 0 < p.holders.card)
      obtain ⟨es, q, hrun, hq, hactive⟩ := finish h hclosed (mem_holders.mp hi)
      have hinv := System.run_preserves inv_invariant.step h hrun
      have hcard : q.holders.card = n := by
        have := hinv.permits.active_eq
        have := h.permits.active_eq
        omega
      obtain ⟨fs, q', hrun', hzero⟩ := ih hinv hq hcard
      exact ⟨es ++ fs, q', System.run_append.mpr ⟨q, hrun, hrun'⟩, hzero⟩

-- ============================================================================
-- Conservation
-- ============================================================================

/-- What a pool state says about permits. -/
structure Conserved (p : Pool) : Prop where
  active_eq : p.admission.active = p.holders.card
  nonneg : 0 ≤ p.admission.active
  bounded : p.admission.active ≤ p.admission.limit
  pending_full : ∀ i, p.Pending i → p.admission.active = p.admission.limit
  granted_once : ∀ i, p.grants i ≤ 1
  released_iff : ∀ i, p.grants i = p.releases i + (p.holds i).toNat
  released_at_end : ∀ i ph, p.phase? i = some ph → ph.ended = true → p.releases i = p.grants i
  leased_iff : ∀ r, r ∈ p.leased ↔ ∃ i, p.leasedAt i = some r

/-- What a step does with permits. -/
structure ConservedStep (p q : Pool) : Prop where
  order : ∀ i, p.grants i < q.grants i → ∀ w, p.Pending w → i ≤ w
  closed : p.admission.closed = true →
    q.admission.closed = true ∧ ∀ i, q.grants i = p.grants i

theorem Inv.conserved {p : Pool} (h : Inv p) : Conserved p where
  active_eq := h.permits.active_eq
  nonneg := by
    rw [h.permits.active_eq]
    exact Int.natCast_nonneg _
  bounded := h.permits.bounded
  pending_full i hi :=
    h.permits.full ⟨i, h.permits.pending_queued i hi.1 hi.2, hi.2⟩
  granted_once := h.permits.once
  released_iff := h.permits.account
  released_at_end i ph hph hend := by
    rw [h.permits.account i, holds_of_phase hph]
    cases ph <;> first | rfl | cases hend
  leased_iff := h.leases.leased_iff

end Pool

/-- Permits are conserved in every run of the pool: the counter is the number of permits held
    and stays within the limit, nobody waits while a permit is free, every granted permit is
    released exactly once by the end of its acquisition or lease, and waiters are served in order
    of arrival.  From its disposal on the pool is closed and grants nothing, whatever happens, and
    the permits still held can always come to their end. -/
theorem permits_conserved {p : Pool} (hp : poolSystem.Reachable p) :
    p.Conserved ∧
    (∀ e q, p.next e = some q → p.ConservedStep q) ∧
    (p.admission.closed = true →
      ∃ es q, poolSystem.run p es = some q ∧ q.admission.active = 0) ∧
    ∀ es q, poolSystem.run p (.dispose :: es) = some q →
      q.admission.closed = true ∧ (∀ i, q.grants i = p.grants i) ∧
      q.admission.active ≤ p.admission.active ∧
      ∃ fs t, poolSystem.run q fs = some t ∧ t.admission.active = 0 := by
  have hinv := Pool.inv_invariant.of_reachable hp
  refine ⟨hinv.conserved, ?_, Pool.drains hinv, ?_⟩
  · intro e q hq
    have heffect := Pool.next_effect hinv.permits hinv.leases hq
    exact ⟨fun i hi w hw => heffect.order hinv.permits hi hw, heffect.of_closed hinv.permits⟩
  · intro es q hrun
    obtain ⟨m, hdispose, hrest⟩ := System.run_cons_eq_some_iff.mp hrun
    obtain rfl := Option.some.inj hdispose
    have hdisposed := Pool.inv_invariant.step p .dispose _ hinv hdispose
    have hquiet := Pool.run_closed hdisposed rfl hrest
    exact ⟨hquiet.closed, hquiet.grants, hquiet.active, Pool.drains hquiet.inv hquiet.closed⟩

/-- A permit is handed to a waiter that is cancelled before it resumes, and goes back.  Then one
    task gets a permit and another waits for it when the pool is disposed: neither the waiter nor
    a newcomer gets one. -/
theorem permits_conserved_disposed :
    ∃ p q, poolSystem.run (.new 1 5) [.acquire, .acquire, .created 0 7, .giveBack 0, .givenBack 0,
        .cancel 1, .resume 1, .acquire, .acquire] = some p ∧
      p.admission.active = 1 ∧ p.Pending 3 ∧ p.Conserved ∧
      poolSystem.run p [.dispose, .acquire, .resume 3, .createFailed 2 .other] = some q ∧
      q.admission.closed = true ∧ (∀ i, q.grants i = p.grants i) ∧ q.grants 3 = 0 ∧
      q.admission.active = 0 := by
  obtain ⟨p, hp, q, hq, hbefore, hafter⟩ : ∃ p, poolSystem.run (.new 1 5) [.acquire, .acquire,
      .created 0 7, .giveBack 0, .givenBack 0, .cancel 1, .resume 1, .acquire, .acquire] =
        some p ∧ ∃ q, poolSystem.run p [.dispose, .acquire, .resume 3, .createFailed 2 .other] =
          some q ∧ (p.admission.active = 1 ∧ p.Pending 3) ∧
        q.grants 3 = 0 ∧ q.admission.active = 0 :=
    ⟨_, rfl, _, rfl, ⟨rfl, rfl, rfl⟩, rfl, rfl⟩
  obtain ⟨hconserved, -, -, hdisposed⟩ := permits_conserved ⟨.new 1 5, _, ⟨1, 5, rfl⟩, hp⟩
  obtain ⟨hclosed, hgrants, -⟩ := hdisposed _ q hq
  exact ⟨p, q, hp, hbefore.1, hbefore.2, hconserved, hq, hclosed, hgrants, hafter⟩

end QuickApi.DatabasePool
