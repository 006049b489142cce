/-
  QuickApi.RequestTimeout.Forwarding

  One well-formed response per request (`one_well_formed_response`): whatever
  the order of sends, timers, disconnects and cancellations, the server gets
  the application's own messages or those of one 408, never both.
-/

import QuickApi.RequestTimeout.Effect

namespace QuickApi.RequestTimeout

open QuickApi.Lib

namespace RequestDeadline

/-- The messages of one origin that were passed to the server. -/
def sentBy (d : RequestDeadline) (o : Origin) : List Message :=
  (d.sent.filter fun p => p.1 = o).map Prod.snd

theorem sentBy_of_sent {d d' : RequestDeadline} (h : d'.sent = d.sent) (o : Origin) :
    d'.sentBy o = d.sentBy o := by
  unfold sentBy
  rw [h]

theorem sentBy_snoc_self {d d' : RequestDeadline} {o : Origin} {m : Message}
    (h : d'.sent = d.sent ++ [(o, m)]) : d'.sentBy o = d.sentBy o ++ [m] := by
  unfold sentBy
  rw [h]
  simp

theorem sentBy_snoc_other {d d' : RequestDeadline} {o o' : Origin} {m : Message}
    (h : d'.sent = d.sent ++ [(o, m)]) (hne : o ≠ o') : d'.sentBy o' = d.sentBy o' := by
  unfold sentBy
  rw [h]
  simp [hne]

/-- A list of messages of one origin only. -/
theorem sent_eq_map {d : RequestDeadline} (o : Origin) (h : ∀ o', o' ≠ o → d.sentBy o' = []) :
    d.sent = (d.sentBy o).map (o, ·) := by
  have honly : ∀ p ∈ d.sent, p.1 = o := by
    intro p hp
    by_contra hne
    have hmem : p.2 ∈ d.sentBy p.1 := by
      refine List.mem_map.mpr ⟨p, ?_, rfl⟩
      rw [List.mem_filter]
      exact ⟨hp, by simp⟩
    rw [h p.1 hne] at hmem
    cases hmem
  unfold sentBy
  rw [List.filter_eq_self.mpr fun p hp => by simpa using honly p hp, List.map_map]
  conv_lhs => rw [← List.map_id d.sent]
  refine List.map_congr_left fun p hp => ?_
  rw [← honly p hp]
  rfl

-- ============================================================================
-- The invariant
-- ============================================================================

/-- The flags and the owner's place account for what was sent. -/
structure Accounted (d : RequestDeadline) : Prop where
  shape : d.stage.Shape d.attempted
  forwarded : d.sentBy .application <+: d.attempted
  forwarded_all : d.Open → d.sentBy .application = d.attempted
  not_started : d.started = false → d.sentBy .application = []
  refused : d.sentBy .timeout ≠ [] → d.closed = true ∧ d.started = false
  waiting : ∀ due, d.owner = .waiting due → d.sentBy .timeout = []
  response : ∃ detail rest, d.sentBy .timeout ++ rest = errorResponse 408 detail
  responding : ∀ rest, d.owner = .responding rest →
    d.closed = true ∧ d.started = false ∧
      ∃ detail, d.sentBy .timeout ++ rest = errorResponse 408 detail

theorem accounted_start (a : Arrival) : Accounted a.start where
  shape := rfl
  forwarded := List.prefix_rfl
  forwarded_all _ := rfl
  not_started _ := rfl
  refused h := absurd rfl h
  waiting _ _ := rfl
  response := ⟨"", _, rfl⟩
  responding rest h := nomatch (h : (Owner.waiting _) = .responding rest)

theorem Accounted.quiet {d d' : RequestDeadline} (h : Accounted d) (hq : Quiet d d') :
    Accounted d' := by
  have hsent (o : Origin) : d'.sentBy o = d.sentBy o := sentBy_of_sent hq.sent o
  refine ⟨?_, ?_, ?_, ?_, ?_, ?_, ?_, ?_⟩
  · rw [hq.stage, hq.attempted]
    exact h.shape
  · rw [hsent, hq.attempted]
    exact h.forwarded
  · rintro ⟨hclosed, hdisconnected, hcompleted⟩
    rw [hsent, hq.attempted]
    refine h.forwarded_all ⟨?_, ?_, ?_⟩
    · exact Bool.eq_false_iff.mpr fun hc => by simp [hq.closed hc] at hclosed
    · exact Bool.eq_false_iff.mpr fun hc => by simp [hq.disconnected hc] at hdisconnected
    · exact Bool.eq_false_iff.mpr fun hc => by simp [hq.completed hc] at hcompleted
  · rw [hq.started, hsent]
    exact h.not_started
  · intro hne
    rw [hsent] at hne
    obtain ⟨hclosed, hstarted⟩ := h.refused hne
    exact ⟨hq.closed hclosed, hq.started.trans hstarted⟩
  · intro due howner
    rw [hsent]
    obtain ho | ho := hq.owner
    · exact h.waiting due (ho.symm.trans howner)
    · rw [howner] at ho
      cases ho
  · rw [hsent]
    exact h.response
  · intro rest howner
    rw [hsent]
    obtain ho | ho := hq.owner
    · obtain ⟨hclosed, hstarted, hresponse⟩ := h.responding rest (ho.symm.trans howner)
      exact ⟨hq.closed hclosed, hq.started.trans hstarted, hresponse⟩
    · rw [howner] at ho
      cases ho

/-- The application's message goes nowhere once the request is closed. -/
theorem Accounted.dropped {d : RequestDeadline} (h : Accounted d) {m : Message} {s : Stage}
    (hs : d.stage.next m = some s) (hopen : ¬ d.Open) :
    Accounted { d with stage := s, attempted := d.attempted ++ [m] } where
  shape := h.shape.next hs
  forwarded := h.forwarded.trans (List.prefix_append _ _)
  forwarded_all ho := absurd ho hopen
  not_started := h.not_started
  refused := h.refused
  waiting := h.waiting
  response := h.response
  responding := h.responding

/-- Only a response that has started goes on. -/
theorem Accounted.started_of_next {d : RequestDeadline} (h : Accounted d) {m : Message}
    {s : Stage} (hs : d.stage.next m = some s) (hopen : d.Open) (hm : m.isStart = false) :
    d.started = true := by
  rw [← Bool.not_eq_false]
  intro hstarted
  have hnil : d.attempted = [] := by
    rw [← h.forwarded_all hopen]
    exact h.not_started hstarted
  have hshape := h.shape
  cases hstage : d.stage with
  | fresh =>
      rw [hstage] at hs
      cases m with
      | start status => cases hm
      | body data more => cases hs
  | streaming =>
      rw [hstage, hnil] at hshape
      obtain ⟨status, chunks, hne⟩ := hshape
      cases hne
  | finished =>
      rw [hstage] at hs
      cases m <;> cases hs

theorem Accounted.forward {d d' : RequestDeadline} (h : Accounted d) {m : Message} {s : Stage}
    (hs : d.stage.next m = some s) (hopen : d.Open)
    (hd : d' =
      { d with
        stage := s
        attempted := d.attempted ++ [m]
        started := if m.isStart then true else d.started
        sending := d.sending ++ [m]
        sent := d.sent ++ [(.application, m)] }) : Accounted d' := by
  have hsent : d'.sentBy .application = d.sentBy .application ++ [m] :=
    sentBy_snoc_self (by rw [hd])
  have hother : d'.sentBy .timeout = [] := by
    rw [sentBy_snoc_other (d := d) (o := .application) (m := m) (by rw [hd]) (by decide)]
    by_contra hne
    have hclosed := (h.refused hne).1
    rw [hopen.1] at hclosed
    cases hclosed
  have hattempted : d'.attempted = d.attempted ++ [m] := by rw [hd]
  have hall : d'.sentBy .application = d'.attempted := by
    rw [hsent, hattempted, h.forwarded_all hopen]
  refine ⟨?_, ?_, fun _ => hall, ?_, ?_, fun _ _ => hother, ⟨"", errorResponse 408 "", ?_⟩, ?_⟩
  · rw [hd]
    exact h.shape.next hs
  · exact hall ▸ List.prefix_rfl
  · intro hstarted
    cases hm : m.isStart with
    | true => simp [hd, hm] at hstarted
    | false =>
        have hstarted' := h.started_of_next hs hopen hm
        simp [hd, hm, hstarted'] at hstarted
  · intro hne
    exact absurd hother hne
  · rw [hother]
    rfl
  · intro rest howner
    rw [hd] at howner
    have hclosed := (h.responding rest howner).1
    rw [hopen.1] at hclosed
    cases hclosed

/-- The messages of the 408 are sent after the gate has closed on an unstarted response. -/
theorem Accounted.respond {b d' : RequestDeadline} (h : Accounted b) {detail : String}
    {m : Message} {rest : List Message} (hclosed : b.closed = true) (hstarted : b.started = false)
    (hm : b.sentBy .timeout ++ m :: rest = errorResponse 408 detail)
    (hd : d' = { b with owner := .responding rest, sent := b.sent ++ [(.timeout, m)] }) :
    Accounted d' := by
  have hsent : d'.sentBy .timeout = b.sentBy .timeout ++ [m] := sentBy_snoc_self (by rw [hd])
  have hother : d'.sentBy .application = b.sentBy .application :=
    sentBy_snoc_other (o := .timeout) (m := m) (by rw [hd]) (by decide)
  have hresponse : d'.sentBy .timeout ++ rest = errorResponse 408 detail := by
    rw [hsent, List.append_assoc]
    exact hm
  have hclosed' : d'.closed = true := by rw [hd]; exact hclosed
  have hstarted' : d'.started = false := by rw [hd]; exact hstarted
  refine ⟨?_, ?_, ?_, ?_, fun _ => ⟨hclosed', hstarted'⟩, ?_, ⟨detail, rest, hresponse⟩, ?_⟩
  · rw [hd]
    exact h.shape
  · rw [hother, hd]
    exact h.forwarded
  · rintro ⟨hopen, -, -⟩
    rw [hclosed'] at hopen
    cases hopen
  · intro _
    rw [hother]
    exact h.not_started hstarted
  · intro due howner
    rw [hd] at howner
    cases howner
  · intro rest' howner
    rw [hd] at howner
    obtain rfl : rest = rest' := by simpa using howner
    exact ⟨hclosed', hstarted', detail, hresponse⟩

theorem Accounted.of_effect {d d' : RequestDeadline} (h : Accounted d) (he : Effect d d') :
    Accounted d' := by
  cases he with
  | quiet hq => exact h.quiet hq
  | dropped m s hs hopen hd =>
      rw [hd]
      exact h.dropped hs hopen
  | forwarded m s hs hopen hd => exact h.forward hs hopen hd
  | responded b due detail m rest howner hb hclosed hstarted hm hd =>
      have hnone : b.sentBy .timeout = [] := by
        rw [sentBy_of_sent hb.sent]
        exact h.waiting due howner
      have hresponse : b.sentBy .timeout ++ m :: rest = errorResponse 408 detail := by
        rw [hnone]
        exact hm
      exact (h.quiet hb).respond hclosed hstarted hresponse hd
  | continued m rest howner hd =>
      obtain ⟨hclosed, hstarted, detail, hm⟩ := h.responding _ howner
      exact h.respond hclosed hstarted hm hd

theorem accounted_invariant : deadlineSystem.Invariant Accounted where
  init d h := by
    obtain ⟨a, rfl⟩ := h
    exact accounted_start a
  step _ _ _ h hnext := h.of_effect (next_effect hnext)

-- ============================================================================
-- One response
-- ============================================================================

/-- The messages passed to the server are the first messages of what the application
    attempts, or those of a 408. -/
def OneResponse (d : RequestDeadline) : Prop :=
  (∃ l rest, d.sent = l.map (.application, ·) ∧ l <+: d.attempted ∧
      WellFormed (d.attempted ++ rest)) ∨
    ∃ detail l, d.sent = l.map (.timeout, ·) ∧ l <+: errorResponse 408 detail

/-- The response is over for the application. -/
def Over (d : RequestDeadline) : Prop :=
  d.closed = true ∨ d.disconnected = true ∨ ∃ data, (.application, .body data false) ∈ d.sent

theorem Accounted.oneResponse {d : RequestDeadline} (h : Accounted d) : d.OneResponse := by
  by_cases htimeout : d.sentBy .timeout = []
  · obtain ⟨rest, hrest⟩ := h.shape.extends
    refine .inl ⟨d.sentBy .application, rest, ?_, h.forwarded, hrest⟩
    refine sent_eq_map _ fun o' ho => ?_
    cases o' with
    | application => exact absurd rfl ho
    | timeout => exact htimeout
  · obtain ⟨detail, rest, hrest⟩ := h.response
    refine .inr ⟨detail, d.sentBy .timeout, ?_, ⟨rest, hrest⟩⟩
    refine sent_eq_map _ fun o' ho => ?_
    cases o' with
    | application => exact h.not_started (h.refused htimeout).2
    | timeout => exact absurd rfl ho

/-- Behind the final body the application has nothing left to send. -/
theorem Accounted.stage_of_final {d : RequestDeadline} (h : Accounted d) {data : Data}
    (hmem : (.application, .body data false) ∈ d.sent) : d.stage = .finished := by
  have hattempted : .body data false ∈ d.attempted :=
    h.forwarded.subset (List.mem_map.mpr ⟨_, List.mem_filter.mpr ⟨hmem, by simp⟩, rfl⟩)
  have hshape := h.shape
  cases hstage : d.stage with
  | fresh =>
      rw [hstage] at hshape
      rw [show d.attempted = [] from hshape] at hattempted
      cases hattempted
  | streaming =>
      rw [hstage] at hshape
      obtain ⟨status, chunks, heq⟩ := hshape
      rw [heq] at hattempted
      simp at hattempted
  | finished => rfl

theorem Accounted.over_step {d d' : RequestDeadline} (h : Accounted d) (he : Effect d d')
    (hover : d.Over) : d'.Over ∧ d'.sentBy .application = d.sentBy .application := by
  cases he with
  | quiet hq =>
      refine ⟨?_, sentBy_of_sent hq.sent _⟩
      obtain hclosed | hdisconnected | ⟨data, hmem⟩ := hover
      · exact .inl (hq.closed hclosed)
      · exact .inr (.inl (hq.disconnected hdisconnected))
      · exact .inr (.inr ⟨data, hq.sent ▸ hmem⟩)
  | dropped m s hs hopen hd =>
      subst hd
      exact ⟨hover, rfl⟩
  | forwarded m s hs hopen hd =>
      exfalso
      obtain hclosed | hdisconnected | ⟨data, hmem⟩ := hover
      · rw [hopen.1] at hclosed
        cases hclosed
      · rw [hopen.2.1] at hdisconnected
        cases hdisconnected
      · rw [h.stage_of_final hmem] at hs
        cases m <;> cases hs
  | responded b due detail m rest howner hb hclosed hstarted hm hd =>
      refine ⟨.inl ?_, ?_⟩
      · rw [hd]
        exact hclosed
      · rw [← sentBy_of_sent hb.sent]
        exact sentBy_snoc_other (o := .timeout) (m := m) (by rw [hd]) (by decide)
  | continued m rest howner hd =>
      refine ⟨.inl ?_, ?_⟩
      · rw [hd]
        exact (h.responding _ howner).1
      · exact sentBy_snoc_other (o := .timeout) (m := m) (by rw [hd]) (by decide)

/-- In every state of every run the server has got the first messages of one response; and
    from the final body, a disconnect or the closing of the request on, the application adds
    nothing to them. -/
theorem one_well_formed_response {d d' : RequestDeadline} {es : List Event}
    (hd : deadlineSystem.Reachable d) (hrun : deadlineSystem.run d es = some d') :
    d'.OneResponse ∧ (d.Over → d'.sentBy .application = d.sentBy .application) := by
  refine ⟨(accounted_invariant.of_reachable (hd.run hrun)).oneResponse, fun hover => ?_⟩
  have hall : ∀ a b, Accounted a → deadlineSystem.run a es = some b → a.Over →
      b.sentBy .application = a.sentBy .application := by
    clear hover hrun hd
    induction es with
    | nil =>
        intro a b _ hrun _
        obtain rfl := Option.some.inj hrun
        rfl
    | cons e es ih =>
        intro a b ha hrun hover
        obtain ⟨m, hnext, hrest⟩ := System.run_cons_eq_some_iff.mp hrun
        have he : Effect a m := next_effect hnext
        obtain ⟨hover', hsent⟩ := ha.over_step he hover
        rw [ih m b (ha.of_effect he) hrest hover', hsent]
  exact hall d d' (accounted_invariant.of_reachable hd) hrun hover

/-- The first body chunk does not come in time, the application answers late, and the server
    gets the 408. -/
theorem one_well_formed_response_late :
    ∃ d d' : RequestDeadline, d.Over ∧
      d'.sent = (errorResponse 408 "Request first body timeout exceeded.").map (.timeout, ·) ∧
      d'.attempted = [.start 200] ∧
      d'.OneResponse ∧ d'.sentBy .application = d.sentBy .application := by
  let start := Arrival.start ⟨5, 2, 10, 0, .new⟩
  have hfirst : (deadlineSystem.run start
      [.receive, .tick 5, .receiveTimedOut 0, .wake true false]).map (·.closed) = some true := by
    decide +kernel
  have hboth : (deadlineSystem.run start
      ([.receive, .tick 5, .receiveTimedOut 0, .wake true false] ++
        [.send (.start 200), .respondReturned, .respondReturned, .cleanupDone])).map
      (fun d => (d.sent, d.attempted)) =
      some ((errorResponse 408 "Request first body timeout exceeded.").map (.timeout, ·),
        [.start 200]) := by
    decide +kernel
  obtain ⟨d, hd, hclosed⟩ := Option.map_eq_some_iff.mp hfirst
  obtain ⟨d', hd', hfacts⟩ := Option.map_eq_some_iff.mp hboth
  obtain ⟨hsent, hattempted⟩ := Prod.mk.inj hfacts
  obtain ⟨m, hm, hrest⟩ := System.run_append.mp hd'
  obtain rfl : d = m := Option.some.inj (hd.symm.trans hm)
  have hover : d.Over := .inl hclosed
  obtain ⟨hone, hkept⟩ := one_well_formed_response ⟨start, _, ⟨_, rfl⟩, hd⟩ hrest
  exact ⟨d, d', hover, hsent, hattempted, hone, hkept hover⟩

end RequestDeadline

end QuickApi.RequestTimeout
