/-
  QuickApi.Stack.Answered

  The layers inside the deadline and the deadline together: no step of the work
  is refused, the deadline runs as it does for any orderly application, and no
  request that stays connected is left without a response
  (`pipeline_answers_requests`).
-/

import QuickApi.Stack.Pipeline

namespace QuickApi.Stack

open QuickApi.Lib
open QuickApi.RequestTimeout (Event Honest RequestDeadline Stage WellFormed deadlineSystem)

/-- What the layers promise of their outcome is what the deadline relies on. -/
theorem Served.honest {g : Stage} {s : Vars} {r : Except Exc Unit} (h : Served g s r) :
    Honest g (taskOutcome r) := by
  rcases r with (exc | (_ | name)) | u
  · exact h.elim
  · exact .inl rfl
  · obtain hf | hg := h
    · cases hf
    · exact .inr hg
  · exact h

/-- The events in which the application attempts a message or ends. -/
def advances : Event → Bool
  | .send _ => true
  | .finish _ => true
  | _ => false

theorem behaved_of_advances {d : RequestDeadline} {e : Event} (h : advances e = false) :
    d.Behaved e := by
  rintro r rfl
  cases h

theorem stage_of_advances {d d' : RequestDeadline} {e : Event} (hnext : d.next e = some d')
    (h : advances e = false) : d'.stage = d.stage := by
  apply RequestDeadline.stage_next hnext
  rintro m rfl
  cases h

/-- The deadline is one of an orderly application, and the work conforms in its stage. -/
structure Pipeline.Coupled (p : Pipeline) : Prop where
  reachable : deadlineSystem.Reachable p.deadline
  conclusive : p.deadline.Conclusive
  running : p.awaiting = false → p.work.Conforms attempt p.deadline.stage Served
  suspended : p.awaiting = true → ∃ s op k, p.work = .call s op k ∧
    ∀ a, (k a s).Conforms attempt p.deadline.stage Served

namespace Pipeline

variable {p p' : Pipeline}

theorem coupled_start {run : Task Unit} (h : Serves run) (arrival : RequestTimeout.Arrival)
    (s : Vars) : Coupled ⟨arrival.start, run s, false⟩ where
  reachable := ⟨_, [], ⟨arrival, rfl⟩, rfl⟩
  conclusive := RequestDeadline.conclusive_start arrival
  running _ := h s
  suspended h := absurd h Bool.false_ne_true

/-- A step of the deadline, with what becomes of the work. -/
theorem Coupled.step (h : p.Coupled) {e : Event} (hnext : p.deadline.next e = some p'.deadline)
    (he : p.deadline.Behaved e)
    (hrunning : p'.awaiting = false → p'.work.Conforms attempt p'.deadline.stage Served)
    (hsuspended : p'.awaiting = true → ∃ s op k, p'.work = .call s op k ∧
      ∀ a, (k a s).Conforms attempt p'.deadline.stage Served) : p'.Coupled where
  reachable := h.reachable.next hnext
  conclusive :=
    h.conclusive.next (RequestDeadline.accounted_invariant.of_reachable h.reachable)
      (RequestDeadline.owned_invariant.of_reachable h.reachable) he hnext
  running := hrunning
  suspended := hsuspended

/-- The pending operation is answered in an event that is no attempt. -/
theorem Coupled.resume (h : p.Coupled) (hawaiting : p.awaiting = true) {s : Vars} {op : Op}
    {k : Ans op → Vars → Coro Op Ans Vars (Except Exc Unit)} (hwork : p.work = .call s op k)
    {e : Event} {d : RequestDeadline} (hnext : p.deadline.next e = some d)
    (he : advances e = false) (a : Ans op) : Coupled ⟨d, k a s, false⟩ := by
  obtain ⟨s', op', k', hwork', hrest⟩ := h.suspended hawaiting
  rw [hwork] at hwork'
  cases hwork'
  refine h.step hnext (behaved_of_advances he) ?_ ?_
  · intro _
    rw [stage_of_advances hnext he]
    exact hrest a
  · intro hawaiting
    cases hawaiting

theorem Coupled.receiveEnds (h : p.Coupled) {e : Event} {answer : Except Exc Inbound}
    (hnext : p.receiveEnds e answer = some p') (he : advances e = false) : p'.Coupled := by
  unfold Pipeline.receiveEnds at hnext
  split at hnext
  · next s k hawaiting hwork =>
      obtain ⟨d, hd, rfl⟩ := Option.map_eq_some_iff.mp hnext
      exact h.resume hawaiting hwork hd he answer
  · cases hnext

theorem Coupled.sendEnds (h : p.Coupled) {e : RequestTimeout.Message → Event}
    {answer : Except Fault Unit} (hnext : p.sendEnds e answer = some p')
    (he : ∀ message, advances (e message) = false) : p'.Coupled := by
  unfold Pipeline.sendEnds at hnext
  split at hnext
  · next s message k hawaiting hwork =>
      obtain ⟨d, hd, rfl⟩ := Option.map_eq_some_iff.mp hnext
      exact h.resume hawaiting hwork hd (he _) answer
  · cases hnext

/-- The work goes on without the deadline. -/
theorem Coupled.goOn (h : p.Coupled) {work : Coro Op Ans Vars (Except Exc Unit)}
    (hwork : work.Conforms attempt p.deadline.stage Served) :
    Coupled ⟨p.deadline, work, false⟩ where
  reachable := h.reachable
  conclusive := h.conclusive
  running _ := hwork
  suspended h := absurd h Bool.false_ne_true

/-- An operation that the deadline has begun is answered at once, or suspends the work. -/
theorem Coupled.begun (h : p.Coupled) {e : Event} {d : RequestDeadline}
    (hnext : p.deadline.next e = some d) (hfinish : ∀ r, e ≠ .finish r) {s : Vars} {op : Op}
    {k : Ans op → Vars → Coro Op Ans Vars (Except Exc Unit)} (hwork : p.work = .call s op k)
    (hrest : ∀ a, (k a s).Conforms attempt d.stage Served) :
    (∀ a, Coupled ⟨d, k a s, false⟩) ∧ Coupled ⟨d, p.work, true⟩ := by
  have hbehaved : p.deadline.Behaved e := fun r hr => absurd hr (hfinish r)
  refine ⟨?_, ?_⟩
  · intro a
    refine h.step hnext hbehaved (fun _ => hrest a) ?_
    intro hawaiting
    cases hawaiting
  · refine h.step hnext hbehaved ?_ fun _ => ⟨s, op, k, hwork, hrest⟩
    intro hrunning
    cases hrunning

theorem Coupled.perform (h : p.Coupled) (hrunning : p.awaiting = false) {timestamp : Nat}
    (hnext : p.perform timestamp = some p') : p'.Coupled := by
  have hconforms := h.running hrunning
  unfold Pipeline.perform at hnext
  split at hnext
  · next s r hwork =>
      obtain ⟨d, hd, rfl⟩ := Option.map_eq_some_iff.mp hnext
      have hstage : d.stage = p.deadline.stage := by
        apply RequestDeadline.stage_next hd
        intro m hm
        cases hm
      have hserved : Served p.deadline.stage s r := by
        rw [hwork] at hconforms
        exact hconforms
      refine h.step hd ?_ ?_ ?_
      · intro outcome houtcome
        cases houtcome
        exact hserved.honest
      · intro _
        rw [hstage]
        exact hconforms
      · intro hawaiting
        exact absurd (hrunning.symm.trans hawaiting) Bool.false_ne_true
  · next s message k hwork =>
      obtain ⟨d, hd, rfl⟩ := Option.map_eq_some_iff.mp hnext
      rw [hwork] at hconforms
      obtain ⟨hallowed, hrest⟩ := hconforms
      obtain ⟨n, hn⟩ := Option.isSome_iff_exists.mp
        (show (p.deadline.stage.next (shape message)).isSome = true from hallowed)
      obtain ⟨d', hd', hstage⟩ := RequestDeadline.next_send hn
      obtain rfl := Option.some.inj (hd.symm.trans hd')
      have hafter (a : Ans (.send message)) :
          attempt.after p.deadline.stage (.send message) a s = d.stage := by
        show (p.deadline.stage.next (shape message)).getD p.deadline.stage = d.stage
        rw [hn, hstage]
        rfl
      obtain ⟨hanswered, hsuspended⟩ := h.begun hd (fun r hr => by cases hr) hwork
        fun a => hafter a ▸ hrest a s rfl
      split
      · exact hanswered _
      · exact hsuspended
  · next s k hwork =>
      obtain ⟨d, hd, rfl⟩ := Option.map_eq_some_iff.mp hnext
      rw [hwork] at hconforms
      obtain ⟨-, hrest⟩ := hconforms
      have hstage : d.stage = p.deadline.stage := stage_of_advances hd rfl
      obtain ⟨hanswered, hsuspended⟩ := h.begun hd (fun r hr => by cases hr) hwork
        fun a => hstage ▸ hrest a s rfl
      split
      · exact hanswered _
      · exact hsuspended
  · next s k hwork =>
      obtain rfl := Option.some.inj hnext
      rw [hwork] at hconforms
      have hgoesOn := h.goOn (hconforms.2 timestamp s rfl)
      rw [hrunning]
      exact hgoesOn
  · next s record k hwork =>
      obtain rfl := Option.some.inj hnext
      rw [hwork] at hconforms
      have hgoesOn := h.goOn (hconforms.2 () s rfl)
      rw [hrunning]
      exact hgoesOn
  · cases hnext
  · cases hnext

/-- Whatever the work does next, the deadline lets it. -/
theorem Coupled.progress (h : p.Coupled) (hrunning : p.awaiting = false)
    (hwork : p.deadline.work = none) (timestamp : Nat) :
    (p.next (.work timestamp)).isSome = true := by
  have hconforms := h.running hrunning
  rw [Pipeline.next, hrunning, if_neg Bool.false_ne_true]
  unfold Pipeline.perform
  split
  · next s r _ =>
      have hfinish : p.deadline.next (.finish (taskOutcome r)) =
          some { p.deadline with work := some (taskOutcome r) } := if_pos hwork
      rw [hfinish]
      rfl
  · next s message k hcall =>
      rw [hcall] at hconforms
      obtain ⟨n, hn⟩ := Option.isSome_iff_exists.mp
        (show (p.deadline.stage.next (shape message)).isSome = true from hconforms.1)
      obtain ⟨d, hd, -⟩ := RequestDeadline.next_send hn
      rw [hd]
      rfl
  · rfl
  · rfl
  · rfl
  · next hcall =>
      rw [hcall] at hconforms
      exact absurd hconforms.1 id
  · next hcall =>
      rw [hcall] at hconforms
      exact absurd hconforms.1 id

theorem Coupled.next (h : p.Coupled) {move : Move} (hnext : p.next move = some p') :
    p'.Coupled := by
  cases move with
  | work timestamp =>
      obtain ⟨hrunning, hperform⟩ := Option.ite_none_left_eq_some.mp hnext
      exact h.perform (Bool.eq_false_iff.mpr hrunning) hperform
  | received =>
      obtain ⟨message, -, hends⟩ := Option.bind_eq_some_iff.mp hnext
      exact h.receiveEnds hends rfl
  | receiveTimedOut => exact h.receiveEnds hnext rfl
  | interruptSeen => exact h.receiveEnds hnext rfl
  | receiveCancelled => exact h.receiveEnds hnext rfl
  | sendReturned => exact h.sendEnds hnext fun _ => rfl
  | sendFailed e =>
      have hends : p.sendEnds (.sendFailed · e) (.error (sendFault e)) = some p' := hnext
      exact h.sendEnds hends fun _ => rfl
  | elsewhere e =>
      obtain ⟨hwork, hmap⟩ := Option.ite_none_left_eq_some.mp hnext
      obtain ⟨d, hd, rfl⟩ := Option.map_eq_some_iff.mp hmap
      have he : advances e = false := by
        cases e <;> first | rfl | exact absurd rfl hwork
      have hstage : d.stage = p.deadline.stage := stage_of_advances hd he
      refine h.step hd (behaved_of_advances he) ?_ ?_
      · rw [hstage]
        exact h.running
      · rw [hstage]
        exact h.suspended

/-- In every state of the deadline around an application that serves. -/
theorem coupled_invariant {run : Task Unit} (h : Serves run) :
    (pipelineSystem run).Invariant Coupled where
  init p hp := by
    obtain ⟨arrival, s, rfl⟩ := hp
    exact coupled_start h arrival s
  step _ _ _ hp hnext := hp.next hnext

end Pipeline

variable (finalSigma : List Char → List Char → Bool)

/-- For every router that attempts one response at a time, and raises no `HTTPException` behind
    its start, every request, and every order of the steps of the work, the reader, the owner, the
    clock and the server, with failures, disconnects and cancellations among them: the deadline
    runs as it does around any orderly application; a step of the work is never refused; where
    the middleware returns, the client has gone away or the server has got one whole response;
    and where it raises, that is a cancellation, a failure of the server's own channel, or behind
    the start of a response. -/
theorem pipeline_answers_requests (gates : Gates) (app : App CleanScope) (scope : CleanScope)
    (http : scope.type = .http)
    (router : ∀ policy, gates.Admitted finalSigma { scope with corsResponseHeaders := policy } http →
      Routes (app { scope with corsResponseHeaders := policy }))
    {p : Pipeline} (hp : (pipelineSystem (gates.call finalSigma app scope)).Reachable p) :
    deadlineSystem.Reachable p.deadline ∧
      (p.awaiting = false → p.deadline.work = none →
        ∀ timestamp, (p.next (.work timestamp)).isSome = true) ∧
      (p.deadline.owner = .ended (.ok ()) →
        p.deadline.disconnected = true ∨ WellFormed (p.deadline.sent.map Prod.snd)) ∧
      ∀ e, p.deadline.owner = .ended (.error e) →
        e = .cancelled ∨ p.deadline.sent ≠ [] ∨ p.deadline.reader = .ended (.error e) := by
  have hserves := gates.call_serves finalSigma app scope http router
  have h := (Pipeline.coupled_invariant hserves).of_reachable hp
  refine ⟨h.reachable, h.progress, ?_, ?_⟩
  · intro howner
    have hconcluded := h.conclusive.concluded (.ok ()) (by rw [howner]; rfl)
    apply hconcluded.imp_right
    exact (RequestDeadline.accounted_invariant.of_reachable h.reachable).wellFormed
  · intro e howner
    exact h.conclusive.concluded (.error e) (by rw [howner]; rfl)

/-- A request whose body arrives, and whose router answers it. -/
theorem pipeline_answers_requests_returned :
    ∃ p : Pipeline, p.deadline.owner.returned = true ∧ p.deadline.disconnected = false ∧
      (p.deadline.disconnected = true ∨ WellFormed (p.deadline.sent.map Prod.snd)) := by
  let arrival : RequestTimeout.Arrival := ⟨5, 2, 10, 0, .new⟩
  let run := Gates.default.call (fun _ _ => false) (fun _ => answering noContent)
    CleanScope.listItems
  let moves : List Move :=
    [.work 0, .elsewhere (.serverMessage (.request [] false)), .received, .work 0, .sendReturned,
      .work 0, .sendReturned, .work 0, .elsewhere (.wake false true), .elsewhere .cleanupDone]
  have hends : ((pipelineSystem run).run ⟨arrival.start, run ⟨none, []⟩, false⟩ moves).map
      (fun p => (p.deadline.owner.returned, p.deadline.disconnected)) = some (true, false) := by
    decide +kernel
  obtain ⟨p, hrun, hp⟩ := Option.map_eq_some_iff.mp hends
  obtain ⟨hreturned, hdisconnected⟩ := Prod.mk.inj hp
  have hreachable : (pipelineSystem run).Reachable p := ⟨_, moves, ⟨arrival, _, rfl⟩, hrun⟩
  have hanswers := pipeline_answers_requests (fun _ _ => false) Gates.default
    (fun _ => answering noContent) CleanScope.listItems rfl
    (fun _ _ _ => answering_routed noContent) hreachable
  exact ⟨p, hreturned, hdisconnected,
    hanswers.2.2.1 (RequestTimeout.Owner.eq_of_returned hreturned)⟩

end QuickApi.Stack
