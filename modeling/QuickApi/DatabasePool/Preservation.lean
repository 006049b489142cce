/-
  QuickApi.DatabasePool.Preservation

  Every step keeps the permit invariant, one lemma for each effect.
-/

import QuickApi.DatabasePool.Effect

namespace QuickApi.DatabasePool

open QuickApi.Lib

namespace Pool

theorem not_holds_of_none {p : Pool} {i : Nat} (h : p.phase? i = none) : p.holds i = false := by
  rw [holds, h]

/-- A pending waiter holds nothing yet and was never granted a permit. -/
theorem PermitInv.pending {p : Pool} (h : PermitInv p) {w : Nat}
    (hw : w ∈ p.admission.waiters) (hf : p.admission.future w = .pending) :
    p.phase? w = some .waiting ∧ p.holds w = false ∧ p.grants w = 0 := by
  have hphase := (h.queued w hw).1
  have hholds : p.holds w = false := by
    rw [holds_of_phase hphase, hf]
    rfl
  exact ⟨hphase, hholds, h.fresh w (Or.inr ⟨hphase, hholds⟩)⟩

/-- A new acquisition finds a free permit; nobody is waiting then. -/
theorem PermitInv.granted {p q : Pool} (h : PermitInv p)
    (hfree : p.admission.active < p.admission.limit)
    (hadm : q.admission =
      { p.admission with
        active := p.admission.active + 1
        log := p.admission.log ++ [.granted p.tasks.length] })
    (hphase : ∀ j, q.phase? j = if j = p.tasks.length then some .creating else p.phase? j) :
    PermitInv q := by
  have hnew : p.holds p.tasks.length = false := not_holds_of_none (phase?_length p)
  have hself : q.holds p.tasks.length = true := by
    rw [holds_of_phase ((hphase _).trans (if_pos rfl))]
    rfl
  have hother : ∀ j, j ≠ p.tasks.length → q.phase? j = p.phase? j ∧ q.holds j = p.holds j := by
    intro j hj
    have hph : q.phase? j = p.phase? j := by rw [hphase, if_neg hj]
    exact ⟨hph, holds_congr hph (by rw [hadm])⟩
  have hholders : q.holders = insert p.tasks.length p.holders := by
    ext j
    rw [Finset.mem_insert, mem_holders, mem_holders]
    by_cases hj : j = p.tasks.length
    · simp [hj, hself]
    · simp [hj, (hother j hj).2]
  have hnotmem : p.tasks.length ∉ p.holders := by
    rw [mem_holders, hnew]
    exact Bool.false_ne_true
  have hqueue : ∀ w ∈ p.admission.waiters, w ≠ p.tasks.length := by
    rintro w hw rfl
    have := (h.queued _ hw).1
    rw [phase?_length] at this
    cases this
  have hgrants : ∀ j, q.grants j = p.grants j + if j = p.tasks.length then 1 else 0 := by
    intro j
    rw [grants, hadm]
    simp [grants, List.count_append, List.count_cons, @eq_comm Nat j]
  have hreleases : ∀ j, q.releases j = p.releases j := by
    intro j
    simp [releases, hadm, List.count_append]
  constructor
  · rw [hholders, Finset.card_insert_of_notMem hnotmem, hadm]
    push_cast
    rw [← h.active_eq]
  · rw [hadm]
    exact Int.add_one_le_of_lt hfree
  · intro w hw
    rw [hadm] at hw ⊢
    rw [(hother w (hqueue w hw)).1]
    exact h.queued w hw
  · rw [hadm]
    exact h.sorted
  · intro i hi hf
    by_cases hin : i = p.tasks.length
    · rw [hphase, if_pos hin] at hi
      cases hi
    · rw [(hother i hin).1] at hi
      rw [hadm] at hf ⊢
      exact h.pending_queued i hi hf
  · rintro ⟨w, hw, hf⟩
    rw [hadm] at hw hf
    exact absurd (h.full ⟨w, hw, hf⟩) (ne_of_lt hfree)
  · rw [hadm]
    exact h.drained
  · intro i
    rw [hgrants, hreleases, h.account]
    by_cases hin : i = p.tasks.length
    · rw [if_pos hin, hin, hnew, hself]
      rfl
    · rw [if_neg hin, (hother i hin).2]
      rfl
  · intro i hi
    by_cases hin : i = p.tasks.length
    · rw [hin, hself, hphase, if_pos rfl] at hi
      simp at hi
    · rw [(hother i hin).1, (hother i hin).2] at hi
      rw [hgrants, if_neg hin, h.fresh i hi]
  · intro i
    rw [hgrants]
    by_cases hin : i = p.tasks.length
    · rw [if_pos hin, hin, h.fresh _ (Or.inl (phase?_length p))]
    · rw [if_neg hin]
      exact h.once i

/-- A new acquisition queues up behind the others. -/
theorem PermitInv.enqueued {p q : Pool} (h : PermitInv p)
    (hopen : p.admission.closed = false) (hfull : ¬ p.admission.active < p.admission.limit)
    (hadm : q.admission =
      { p.admission.setFuture p.tasks.length .pending with
        waiters := p.admission.waiters ++ [p.tasks.length] })
    (hphase : ∀ j, q.phase? j = if j = p.tasks.length then some .waiting else p.phase? j) :
    PermitInv q := by
  have hfuture : ∀ j, q.admission.future j =
      if j = p.tasks.length then .pending else p.admission.future j := by
    intro j
    rw [hadm]
    exact Function.update_apply ..
  have hother : ∀ j, j ≠ p.tasks.length → q.phase? j = p.phase? j ∧ q.holds j = p.holds j := by
    intro j hj
    have hph : q.phase? j = p.phase? j := by rw [hphase, if_neg hj]
    exact ⟨hph, holds_congr hph (by rw [hfuture, if_neg hj])⟩
  have hself : q.holds p.tasks.length = false := by
    rw [holds_of_phase ((hphase _).trans (if_pos rfl)), hfuture, if_pos rfl]
    rfl
  have hholds : ∀ j, q.holds j = p.holds j := by
    intro j
    by_cases hj : j = p.tasks.length
    · rw [hj, hself, not_holds_of_none (phase?_length p)]
    · exact (hother j hj).2
  have hholders : q.holders = p.holders := by
    ext j
    rw [mem_holders, mem_holders, hholds]
  have hlt : ∀ w ∈ p.admission.waiters, w < p.tasks.length := by
    intro w hw
    by_contra hge
    have := (h.queued w hw).1
    rw [phase?_eq_none (Nat.le_of_not_lt hge)] at this
    cases this
  constructor
  · rw [hholders, hadm]
    exact h.active_eq
  · rw [hadm]
    exact h.bounded
  · intro w hw
    have hw : w ∈ p.admission.waiters ++ [p.tasks.length] := by rwa [hadm] at hw
    rcases List.mem_append.mp hw with hw | hw
    · have hne := Nat.ne_of_lt (hlt w hw)
      rw [(hother w hne).1, hfuture, if_neg hne]
      exact h.queued w hw
    · rw [List.mem_singleton.mp hw, hphase, hfuture, if_pos rfl, if_pos rfl]
      exact ⟨rfl, FutureState.noConfusion⟩
  · rw [hadm]
    refine List.pairwise_append.mpr ⟨h.sorted, List.pairwise_singleton _ _, ?_⟩
    intro w hw v hv
    rw [List.mem_singleton.mp hv]
    exact hlt w hw
  · intro i hi hf
    rw [hadm]
    by_cases hin : i = p.tasks.length
    · exact List.mem_append_right _ (List.mem_singleton.mpr hin)
    · rw [(hother i hin).1] at hi
      rw [hfuture, if_neg hin] at hf
      exact List.mem_append_left _ (h.pending_queued i hi hf)
  · intro _
    rw [hadm]
    exact le_antisymm h.bounded (not_lt.mp hfull)
  · intro hclosed
    rw [hadm] at hclosed
    exact absurd (hopen.symm.trans hclosed) Bool.false_ne_true
  · intro i
    rw [hholds, grants, releases, hadm]
    exact h.account i
  · intro i hi
    rw [grants, hadm]
    by_cases hin : i = p.tasks.length
    · rw [hin]
      exact h.fresh _ (Or.inl (phase?_length p))
    · rw [(hother i hin).1, hholds] at hi
      exact h.fresh i hi
  · intro i
    rw [grants, hadm]
    exact h.once i

/-- A permit ends while nobody is waiting: the counter goes down. -/
theorem PermitInv.released {p q : Pool} (h : PermitInv p) {i : Nat} {ph : Phase}
    (hi : p.holds i = true) (hend : ph.ended = true)
    (hnone : ∀ w, ¬ p.admission.PendingWaiter w)
    (hadm : q.admission =
      { p.admission with
        waiters := []
        active := p.admission.active - 1
        log := p.admission.log ++ [.released i] })
    (hphase : ∀ j, q.phase? j = if j = i then some ph else p.phase? j) : PermitInv q := by
  have hself : q.holds i = false := by
    rw [holds_of_phase ((hphase i).trans (if_pos rfl))]
    cases ph <;> first | rfl | cases hend
  have hother : ∀ j, j ≠ i → q.phase? j = p.phase? j ∧ q.holds j = p.holds j := by
    intro j hj
    have hph : q.phase? j = p.phase? j := by rw [hphase, if_neg hj]
    exact ⟨hph, holds_congr hph (by rw [hadm])⟩
  have hholders : q.holders = p.holders.erase i := by
    ext j
    rw [Finset.mem_erase, mem_holders, mem_holders]
    by_cases hj : j = i
    · simp [hj, hself]
    · simp [hj, (hother j hj).2]
  have hgrants : ∀ j, q.grants j = p.grants j := by
    intro j
    simp [grants, hadm, List.count_append]
  have hreleases : ∀ j, q.releases j = p.releases j + if j = i then 1 else 0 := by
    intro j
    rw [releases, hadm]
    simp [releases, List.count_append, List.count_cons, @eq_comm Nat j]
  have hmem : i ∈ p.holders := mem_holders.mpr hi
  constructor
  · have hcard : p.holders.card = q.holders.card + 1 := by
      rw [hholders, Finset.card_erase_add_one hmem]
    have hactive := h.active_eq
    rw [hadm]
    show p.admission.active - 1 = _
    omega
  · rw [hadm]
    exact (Int.sub_le_self _ (by decide)).trans h.bounded
  · intro w hw
    rw [hadm] at hw
    exact absurd hw List.not_mem_nil
  · rw [hadm]
    exact List.Pairwise.nil
  · intro j hj hf
    rw [hadm] at hf
    by_cases hji : j = i
    · rw [hphase, if_pos hji] at hj
      obtain rfl := Option.some.inj hj
      cases hend
    · rw [(hother j hji).1] at hj
      exact absurd ⟨h.pending_queued j hj hf, hf⟩ (hnone j)
  · rintro ⟨w, hw, -⟩
    rw [hadm] at hw
    exact absurd hw List.not_mem_nil
  · intro _
    rw [hadm]
  · intro j
    rw [hgrants, hreleases, h.account]
    by_cases hji : j = i
    · rw [if_pos hji, hji, hi, hself]
      rfl
    · rw [if_neg hji, (hother j hji).2]
      rfl
  · intro j hj
    rw [hgrants]
    by_cases hji : j = i
    · rw [hphase, if_pos hji] at hj
      rcases hj with hj | ⟨hj, -⟩
      · cases hj
      · obtain rfl := Option.some.inj hj
        cases hend
    · rw [(hother j hji).1, (hother j hji).2] at hj
      exact h.fresh j hj
  · intro j
    rw [hgrants]
    exact h.once j

/-- A permit ends while somebody is waiting: it passes to the first pending waiter. -/
theorem PermitInv.handed {p q : Pool} (h : PermitInv p) {i w : Nat} {ph : Phase}
    {skipped rest : List Nat} (hi : p.holds i = true) (hend : ph.ended = true)
    (hwaiters : p.admission.waiters = skipped ++ w :: rest)
    (hf : p.admission.future w = .pending) (hskipped : ∀ v ∈ skipped, p.admission.future v ≠ .pending)
    (hadm : q.admission =
      { p.admission.setFuture w .result with
        waiters := rest
        log := p.admission.log ++ [.released i, .granted w] })
    (hphase : ∀ j, q.phase? j = if j = i then some ph else p.phase? j) : PermitInv q := by
  have hwmem : w ∈ p.admission.waiters := by
    rw [hwaiters]
    exact List.mem_append_right _ List.mem_cons_self
  have hsub : rest.Sublist p.admission.waiters := by
    rw [hwaiters]
    exact (List.sublist_cons_self w rest).trans (List.sublist_append_right _ _)
  obtain ⟨hwphase, hwholds, hwgrants⟩ := h.pending hwmem hf
  have hwi : w ≠ i := by
    rintro rfl
    rw [hwholds] at hi
    cases hi
  have hfuture : ∀ j, q.admission.future j =
      if j = w then .result else p.admission.future j := by
    intro j
    rw [hadm]
    exact Function.update_apply ..
  have hself : q.holds i = false := by
    rw [holds_of_phase ((hphase i).trans (if_pos rfl))]
    cases ph <;> first | rfl | cases hend
  have hwnow : q.phase? w = some .waiting ∧ q.holds w = true := by
    have hph : q.phase? w = some .waiting := by rw [hphase, if_neg hwi, hwphase]
    exact ⟨hph, holds_of_result hph (by rw [hfuture, if_pos rfl])⟩
  have hother : ∀ j, j ≠ i → j ≠ w → q.phase? j = p.phase? j ∧ q.holds j = p.holds j := by
    intro j hj hjw
    have hph : q.phase? j = p.phase? j := by rw [hphase, if_neg hj]
    exact ⟨hph, holds_congr hph (by rw [hfuture, if_neg hjw])⟩
  have hholders : q.holders = insert w (p.holders.erase i) := by
    ext j
    rw [Finset.mem_insert, Finset.mem_erase, mem_holders, mem_holders]
    by_cases hj : j = i
    · simp [hj, hself, Ne.symm hwi]
    · by_cases hjw : j = w
      · simp [hjw, hwnow.2]
      · simp [hj, hjw, (hother j hj hjw).2]
  have hgrants : ∀ j, q.grants j = p.grants j + if j = w then 1 else 0 := by
    intro j
    rw [grants, hadm]
    simp [grants, List.count_append, List.count_cons, @eq_comm Nat j]
  have hreleases : ∀ j, q.releases j = p.releases j + if j = i then 1 else 0 := by
    intro j
    rw [releases, hadm]
    simp [releases, List.count_append, List.count_cons, @eq_comm Nat j]
  have hmem : i ∈ p.holders := mem_holders.mpr hi
  have hwnot : w ∉ p.holders.erase i := by
    rw [Finset.mem_erase, mem_holders, hwholds]
    exact fun hw => Bool.false_ne_true hw.2
  have hnodup : w ∉ rest := by
    have hpair := h.sorted
    rw [hwaiters] at hpair
    have := (List.pairwise_cons.mp (List.pairwise_append.mp hpair).2.1).1
    exact fun hw => absurd (this w hw) (lt_irrefl w)
  constructor
  · rw [hholders, Finset.card_insert_of_notMem hwnot, Finset.card_erase_add_one hmem, hadm]
    exact h.active_eq
  · rw [hadm]
    exact h.bounded
  · intro v hv
    have hv : v ∈ rest := by rwa [hadm] at hv
    have hvw : v ≠ w := fun heq => hnodup (heq ▸ hv)
    have hold := h.queued v (hsub.subset hv)
    have hvi : v ≠ i := by
      rintro rfl
      rw [holds_of_phase hold.1] at hi
      simp [Phase.owning, hold.2] at hi
    rw [(hother v hvi hvw).1, hfuture, if_neg hvw]
    exact hold
  · rw [hadm]
    exact h.sorted.sublist hsub
  · intro j hj hjf
    rw [hfuture] at hjf
    by_cases hjw : j = w
    · rw [if_pos hjw] at hjf
      cases hjf
    · rw [if_neg hjw] at hjf
      by_cases hji : j = i
      · rw [hphase, if_pos hji] at hj
        obtain rfl := Option.some.inj hj
        cases hend
      · rw [(hother j hji hjw).1] at hj
        have hjq := h.pending_queued j hj hjf
        rw [hwaiters] at hjq
        rw [hadm]
        rcases List.mem_append.mp hjq with hjs | hjr
        · exact absurd hjf (hskipped j hjs)
        · exact (List.mem_cons.mp hjr).resolve_left hjw
  · intro _
    rw [hadm]
    exact h.full ⟨w, hwmem, hf⟩
  · intro hclosed
    rw [hadm] at hclosed
    have hnil := h.drained hclosed
    rw [hnil] at hwmem
    exact absurd hwmem List.not_mem_nil
  · intro j
    rw [hgrants, hreleases, h.account]
    by_cases hji : j = i
    · rw [hji, if_neg (Ne.symm hwi), if_pos rfl, hi, hself]
      rfl
    · by_cases hjw : j = w
      · rw [hjw, if_pos rfl, if_neg hwi, hwholds, hwnow.2]
        rfl
      · rw [if_neg hjw, if_neg hji, (hother j hji hjw).2]
        rfl
  · intro j hj
    by_cases hji : j = i
    · rw [hphase, if_pos hji] at hj
      rcases hj with hj | ⟨hj, -⟩
      · cases hj
      · obtain rfl := Option.some.inj hj
        cases hend
    · by_cases hjw : j = w
      · rw [hjw, hwnow.1, hwnow.2] at hj
        simp at hj
      · rw [(hother j hji hjw).1, (hother j hji hjw).2] at hj
        rw [hgrants, if_neg hjw, h.fresh j hj]
  · intro j
    rw [hgrants]
    by_cases hjw : j = w
    · rw [if_pos hjw, hjw, hwgrants]
    · rw [if_neg hjw]
      exact h.once j

/-- A task moves between phases that count alike, and the admission stays as it is. -/
theorem PermitInv.rephased {p q : Pool} (h : PermitInv p) {i : Nat} {ph : Phase}
    (hnot : ph ≠ .waiting) (hi : i ∉ p.admission.waiters) (hholds : q.holds i = p.holds i)
    (hadm : q.admission = p.admission)
    (hphase : ∀ j, q.phase? j = if j = i then some ph else p.phase? j) : PermitInv q := by
  have hother : ∀ j, j ≠ i → q.phase? j = p.phase? j := by
    intro j hj
    rw [hphase, if_neg hj]
  have hwaiting : ∀ j, q.phase? j = none ∨ q.phase? j = some .waiting → j ≠ i := by
    rintro j hj rfl
    rw [hphase, if_pos rfl] at hj
    rcases hj with hj | hj
    · cases hj
    · exact hnot (Option.some.inj hj)
  refine h.same_holders (by rw [hadm]) (by rw [hadm]) (by rw [hadm]) ?_ (by rw [hadm]) ?_ ?_ ?_ ?_
  · intro j
    by_cases hj : j = i
    · rw [hj, hholds]
    · exact holds_congr (hother j hj) (by rw [hadm])
  · intro w hw
    rw [hadm] at hw ⊢
    have hwi : w ≠ i := fun heq => hi (heq ▸ hw)
    exact ⟨hother w hwi, (h.queued w hw).2⟩
  · intro j hj hf
    rw [hadm] at hf
    rw [hother j (hwaiting j (Or.inr hj))] at hj
    exact ⟨hj, hf, fun hmem => by rwa [hadm]⟩
  · rw [hadm]
    exact h.drained
  · exact fun j hj => hother j (hwaiting j hj)

/-- A waiter that is not done is cancelled. -/
theorem PermitInv.cancelled {p q : Pool} (h : PermitInv p) {i : Nat}
    (hi : p.phase? i = some .waiting) (hf : p.admission.future i = .pending)
    (hadm : q.admission = p.admission.setFuture i .cancelled)
    (hphase : ∀ j, q.phase? j = p.phase? j) : PermitInv q := by
  have hfuture : ∀ j, q.admission.future j =
      if j = i then .cancelled else p.admission.future j := by
    intro j
    rw [hadm]
    exact Function.update_apply ..
  refine h.same_holders (by rw [hadm]; rfl) (by rw [hadm]; rfl) (by rw [hadm]; rfl) ?_
    (by rw [hadm]; exact List.Sublist.refl _) ?_ ?_ ?_ (fun j _ => hphase j)
  · intro j
    by_cases hj : j = i
    · rw [hj, holds_of_phase hi, holds_of_phase ((hphase i).trans hi), hfuture, if_pos rfl, hf]
      rfl
    · exact holds_congr (hphase j) (by rw [hfuture, if_neg hj])
  · intro w hw
    have hw : w ∈ p.admission.waiters := by rwa [hadm] at hw
    refine ⟨hphase w, ?_⟩
    rw [hfuture]
    split
    · exact FutureState.noConfusion
    · exact (h.queued w hw).2
  · intro j hj hjf
    rw [hfuture] at hjf
    split at hjf
    · cases hjf
    · rw [hphase] at hj
      refine ⟨hj, hjf, fun hmem => ?_⟩
      rw [hadm]
      exact hmem
  · intro hclosed
    rw [hadm] at hclosed ⊢
    exact h.drained hclosed

/-- A waiter whose future failed or was cancelled leaves the queue. -/
theorem PermitInv.unserved {p q : Pool} (h : PermitInv p) {i : Nat} {ph : Phase}
    (hi : p.phase? i = some .waiting) (hresult : p.admission.future i ≠ .result)
    (hpending : p.admission.future i ≠ .pending) (hend : ph.ended = true)
    (hadm : q.admission = { p.admission with waiters := p.admission.waiters.erase i })
    (hphase : ∀ j, q.phase? j = if j = i then some ph else p.phase? j) : PermitInv q := by
  have hother : ∀ j, j ≠ i → q.phase? j = p.phase? j := by
    intro j hj
    rw [hphase, if_neg hj]
  have hwaiting : ∀ j, q.phase? j = none ∨ q.phase? j = some .waiting → j ≠ i := by
    rintro j hj rfl
    rw [hphase, if_pos rfl] at hj
    rcases hj with hj | hj
    · cases hj
    · obtain rfl := Option.some.inj hj
      cases hend
  have hnodup : p.admission.waiters.Nodup := h.sorted.imp Nat.ne_of_lt
  refine h.same_holders (by rw [hadm]) (by rw [hadm]) (by rw [hadm]) ?_
    (by rw [hadm]; exact List.erase_sublist) ?_ ?_ ?_ (fun j hj => hother j (hwaiting j hj))
  · intro j
    by_cases hj : j = i
    · rw [hj, holds_of_phase hi, holds_of_phase ((hphase i).trans (if_pos rfl))]
      have hno : (p.admission.future i == .result) = false := beq_false_of_ne hresult
      rw [hno]
      cases ph <;> first | rfl | cases hend
    · exact holds_congr (hother j hj) (by rw [hadm])
  · intro w hw
    have hw : w ∈ p.admission.waiters.erase i := by rwa [hadm] at hw
    rw [hadm]
    exact ⟨hother w (hnodup.mem_erase_iff.mp hw).1, (h.queued w (List.mem_of_mem_erase hw)).2⟩
  · intro j hj hf
    have hji := hwaiting j (Or.inr hj)
    rw [hadm] at hf
    rw [hother j hji] at hj
    refine ⟨hj, hf, fun hmem => ?_⟩
    rw [hadm]
    exact (List.mem_erase_of_ne hji).mpr hmem
  · intro hclosed
    rw [hadm] at hclosed ⊢
    show p.admission.waiters.erase i = []
    rw [h.drained hclosed]
    rfl

/-- `close` fails every pending waiter and empties the queue. -/
theorem PermitInv.disposed {p q : Pool} (h : PermitInv p)
    (hadm : q.admission = p.admission.close) (hphase : ∀ j, q.phase? j = p.phase? j) :
    PermitInv q := by
  have hfuture : ∀ j, q.admission.future j ≠ p.admission.future j →
      p.admission.future j = .pending ∧ q.admission.future j ≠ .result := by
    intro j
    rw [hadm]
    rw [Admission.close_future]
    split
    · next hj => exact fun _ => ⟨hj.2, FutureState.noConfusion⟩
    · exact fun hne => absurd rfl hne
  have hempty : q.admission.waiters = [] := by
    rw [hadm]
    rfl
  refine h.same_holders (by rw [hadm]; rfl) (by rw [hadm]; rfl) (by rw [hadm]; rfl) ?_
    (by rw [hempty]; exact List.nil_sublist _) ?_ ?_ (fun _ => hempty) (fun j _ => hphase j)
  · intro j
    by_cases hj : q.admission.future j = p.admission.future j
    · exact holds_congr (hphase j) hj
    · obtain ⟨hp, hq⟩ := hfuture j hj
      rw [holds, holds, hphase, hp, beq_false_of_ne hq]
      rfl
  · intro w hw
    rw [hempty] at hw
    exact absurd hw List.not_mem_nil
  · intro j hj hf
    rw [hphase] at hj
    -- a waiter that is still pending was not queued, but every pending waiter is
    have hf' : p.admission.future j = .pending := by
      by_contra hne
      exact hne (hfuture j (by rw [hf]; exact Ne.symm hne)).1
    have hmem := h.pending_queued j hj hf'
    have hfailed : q.admission.future j ≠ .pending := by
      rw [hadm, Admission.close_future, if_pos ⟨hmem, hf'⟩]
      exact FutureState.noConfusion
    exact absurd hf hfailed

/-- Every effect keeps the permit invariant. -/
theorem PermitInv.effect {p q : Pool} (h : PermitInv p) (he : Effect p q) : PermitInv q := by
  cases he with
  | granted hopen hfree hadm hphase => exact h.granted hfree hadm hphase
  | queued hopen hfull hadm hphase => exact h.enqueued hopen hfull hadm hphase
  | refused e hadm hphase =>
      refine h.rephased Phase.noConfusion ?_ ?_ hadm hphase
      · intro hw
        have := (h.queued _ hw).1
        rw [phase?_length] at this
        cases this
      · rw [not_holds_of_none (phase?_length p), holds_of_phase ((hphase _).trans (if_pos rfl))]
        rfl
  | noted hadm hphase => exact h.congr hadm hphase
  | cancelled i hi hf hadm hphase => exact h.cancelled hi hf hadm hphase
  | moved i ph hi hown hadm hphase =>
      refine h.rephased ?_ ?_ ?_ hadm hphase
      · rintro rfl
        cases hown
      · intro hw
        obtain ⟨hphase, hf⟩ := h.queued i hw
        rw [holds_of_phase hphase, beq_false_of_ne hf] at hi
        cases hi
      · rw [hi, holds_of_phase ((hphase _).trans (if_pos rfl)), hown]
        rfl
  | ended i ph hi hend hadm hphase =>
      rcases p.admission.release_cases i with
        ⟨hnone, hrelease⟩ | ⟨w, skipped, rest, hwaiters, hf, hskipped, hrelease⟩
      · exact h.released hi hend hnone (hadm.trans hrelease) hphase
      · exact h.handed hi hend hwaiters hf hskipped (hadm.trans hrelease) hphase
  | unserved i ph hi hresult hpending hend hadm hphase =>
      exact h.unserved hi hresult hpending hend hadm hphase
  | disposed hadm hphase => exact h.disposed hadm hphase

end Pool

end QuickApi.DatabasePool
