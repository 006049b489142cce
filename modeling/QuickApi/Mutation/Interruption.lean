/-
  QuickApi.Mutation.Interruption

  A mutation under its deadline: the two tasks of one request share the activity
  and the clock, and take their steps in any order, among any other mutations.
  An abandoned mutation never commits, and the deadline leaves work that owns a
  mutation alone.
-/

import QuickApi.Mutation.Abandonment
import QuickApi.RequestTimeout.Sparing

namespace QuickApi.Mutation

open QuickApi.Fingerprint (Text)
open QuickApi.Lib
open QuickApi.RequestTimeout (RequestDeadline RequestActivity)

variable {W D : Type} {cfg : Config}

-- ============================================================================
-- The two tasks
-- ============================================================================

/-- A request under its deadline, all mutations, and the number of its own, once its work has
    reached the handler. -/
structure Timed (W D : Type) where
  deadline : RequestDeadline
  mutations : State W D
  work : Option Nat

/-- Who takes the next step. -/
inductive Turn (W D : Type) where
  /-- the deadline, its reader, or what the work calls of it -/
  | deadline (e : RequestTimeout.Event)
  /-- the work reaches `handle`, with what its scope holds then -/
  | enter (req : Request W D) (sessionKey : Bool) (context : Option Text)
  /-- a mutation, its connection or the server -/
  | mutation (e : Event W D)
  | pass (elapsed : ℚ) (milliseconds : Nat)

namespace Timed

variable (j : Timed W D)

/-- The mutation of the request. -/
def own : Option (Process W D) := j.work.bind fun i => j.mutations.processes[i]?

/-- The deadline can take the step while the handler is at `tree`: nobody comes in between where
    that reads the clock, and the work does not end before it. -/
def admits (tree : Coro (Op W) (Op.Ans D) (Local W) (Except Exc (Option Response))) :
    RequestTimeout.Event → Bool
  | .finish _ => tree.pending.isNone
  | _ => match tree with
    | .call _ .clock _ => false
    | _ => true

/-- A step of the deadline, whose activity is that of the mutation. -/
def deadlineStep (e : RequestTimeout.Event) : Option (Timed W D) :=
  if RequestTimeout.RequestDeadline.ofHandler e then none
  else
    (j.deadline.next e).bind fun d =>
      match j.work with
      | none => some { j with deadline := d }
      | some i => j.mutations.processes[i]?.bind fun p =>
          if admits p.tree e then
            some
              { j with
                deadline := d
                mutations := j.mutations.setProcess i { p with activity := d.activity } }
          else none

/-- The time passes for all, and the activity of the request is its deadline's to abandon. -/
def elsewhere : Event W D → Bool
  | .pass _ _ => false
  | .abandon i _ => j.work != some i
  | _ => true

def next (cfg : Config) : Turn W D → Option (Timed W D)
  | .deadline e => j.deadlineStep e
  | .enter req sessionKey context =>
      if j.work.isNone ∧ j.deadline.work.isNone then
        let p := Process.start cfg (.request req) j.deadline.activity sessionKey context
        some
          { deadline := { j.deadline with activity := p.activity }
            mutations := { j.mutations with processes := j.mutations.processes ++ [p] }
            work := some j.mutations.processes.length }
      else none
  | .mutation e =>
      if j.elsewhere e then
        (j.mutations.next cfg e).map fun s =>
          let j := { j with mutations := s }
          match j.own with
          | none => j
          | some p => { j with deadline := { j.deadline with activity := p.activity } }
      else none
  | .pass elapsed milliseconds =>
      (j.deadline.next (.tick (j.deadline.now + elapsed))).map fun d =>
        { j with deadline := d, mutations := j.mutations.pass elapsed milliseconds }

end Timed

/-- A request arrives at its deadline, whatever other mutations have come to. -/
def timedSystem (cfg : Config) (W D : Type) : System (Timed W D) (Turn W D) where
  init j := ∃ (a : RequestTimeout.Arrival) (s : State W D), (mutationSystem cfg W D).Reachable s ∧
    a.now = s.server.monotonic ∧ j = ⟨a.start, s, none⟩
  next j turn := j.next cfg turn

-- ============================================================================
-- What they share
-- ============================================================================

section Joined

variable {j j' : Timed W D} {i : Nat}

/-- The mutations run as they do by themselves, and so does the deadline; activity and clock are
    the same. -/
structure Timed.Joined (cfg : Config) (j : Timed W D) : Prop where
  mutations : (mutationSystem cfg W D).Reachable j.mutations
  owned : j.deadline.Owned
  clock : j.deadline.now = j.mutations.server.monotonic
  shared : ∀ i, j.work = some i → ∃ p req, j.mutations.processes[i]? = some p ∧
    p.job = .request req ∧ p.activity = j.deadline.activity

/-- What a turn is for the mutations: nothing, or one of their events; and the activity and the
    clock of the deadline have only gone on. -/
structure Timed.Advances (cfg : Config) (j j' : Timed W D) : Prop where
  mutations : j'.mutations = j.mutations ∨ ∃ e, j.mutations.next cfg e = some j'.mutations
  work : ∀ i, j.work = some i → j'.work = some i
  activity : j.deadline.activity.Later j'.deadline.activity
  now : j.deadline.now ≤ j'.deadline.now

theorem State.reachable_next {s s' : State W D} {e : Event W D}
    (h : (mutationSystem cfg W D).Reachable s) (hnext : s.next cfg e = some s') :
    (mutationSystem cfg W D).Reachable s' := h.next hnext

/-- A step of the deadline is nothing for the mutations, or it abandons the one of the request. -/
theorem State.abandoned_of_abandons (cfg : Config) {s : State W D} {p : Process W D}
    (hp : s.processes[i]? = some p) {a : RequestActivity} (ha : p.activity.Abandons a)
    (hclock : ∀ l k, p.tree ≠ .call l .clock k) :
    s.setProcess i { p with activity := a } = s ∨
      ∃ e, s.next cfg e = some (s.setProcess i { p with activity := a }) := by
  rcases ha with rfl | ⟨reason, rfl⟩
  · left
    unfold State.setProcess
    rw [show ({ p with activity := p.activity } : Process W D) = p from rfl,
      set_of_getElem?_eq_some hp]
  · refine .inr ⟨.abandon i reason, ?_⟩
    have habandon : p.abandon reason = some { p with activity := p.activity.abandon reason } := by
      unfold Process.abandon
      split
      · next l k htree => exact absurd htree (hclock l k)
      · rfl
    show (s.processes[i]?.bind fun p => (p.abandon reason).map (s.setProcess i)) = _
    rw [hp, Option.bind_some, habandon]
    rfl

theorem Timed.not_clock_of_admits {p : Process W D} {e : RequestTimeout.Event}
    (h : Timed.admits p.tree e = true) (l k) : p.tree ≠ .call l .clock k := by
  intro htree
  rw [htree] at h
  cases e <;> cases h

/-- A turn of the deadline. -/
theorem Timed.Joined.deadlineStep (h : j.Joined cfg) {e : RequestTimeout.Event}
    (hstep : j.deadlineStep e = some j') : j'.Joined cfg ∧ j.Advances cfg j' ∧
      j.deadline.next e = some j'.deadline := by
  unfold Timed.deadlineStep at hstep
  split at hstep
  · cases hstep
  · next hother =>
      rw [Bool.not_eq_true] at hother
      obtain ⟨d, hd, hstep⟩ := Option.bind_eq_some_iff.mp hstep
      obtain ⟨habandons, hnow⟩ := RequestDeadline.abandons_next hd hother
      have howned := h.owned.next hd
      split at hstep
      · next hwork =>
          obtain rfl := Option.some.inj hstep
          refine ⟨⟨h.mutations, howned, hnow.trans h.clock, fun i hi => ?_⟩,
            ⟨.inl rfl, fun i hi => hi, habandons.later, hnow.ge⟩, hd⟩
          rw [show j.work = some i from hi] at hwork
          cases hwork
      · next i hwork =>
          obtain ⟨p, hp, hstep⟩ := Option.bind_eq_some_iff.mp hstep
          obtain ⟨hadmits, heq⟩ := Option.ite_none_right_eq_some.mp hstep
          obtain rfl := Option.some.inj heq
          obtain ⟨q, req, hq, hjob, hactivity⟩ := h.shared i hwork
          obtain rfl := Option.some.inj (hp.symm.trans hq)
          have hproject := State.abandoned_of_abandons cfg hp (hactivity ▸ habandons)
            (Timed.not_clock_of_admits hadmits)
          refine ⟨⟨?_, howned, hnow.trans h.clock, fun i' hi' => ?_⟩,
            ⟨hproject, fun i hi => hi, habandons.later, hnow.ge⟩, hd⟩
          · rcases hproject with hsame | ⟨e', he'⟩
            · rw [hsame]
              exact h.mutations
            · exact h.mutations.next he'
          · obtain rfl := Option.some.inj (hwork.symm.trans hi')
            have hlt : i < j.mutations.processes.length := (List.getElem?_eq_some_iff.mp hp).1
            exact ⟨_, req, List.getElem?_set_self hlt, hjob, rfl⟩

/-- A mutation of the request goes on, or another one does. -/
theorem Timed.Joined.mutationStep (h : j.Joined cfg) {e : Event W D}
    (hstep : j.next cfg (.mutation e) = some j') :
    j'.Joined cfg ∧ j.Advances cfg j' ∧ j'.deadline.cancellations = j.deadline.cancellations := by
  obtain ⟨helsewhere, hstep⟩ := Option.ite_none_right_eq_some.mp hstep
  obtain ⟨s, hs, heq⟩ := Option.map_eq_some_iff.mp hstep
  have hcoherent := (coherent_invariant cfg).of_reachable h.mutations
  have hreachable := h.mutations.next hs
  have hmonotonic : s.server.monotonic = j.mutations.server.monotonic := by
    cases State.stepped hs with
    | pass milliseconds _ => cases helsewhere
    | arrive job activity sessionKey context => rfl
    | abandon hp habandon => rfl
    | resume hp htree hperformed => exact hperformed.monotonic
    | late hk hholder halive hex =>
        have hkept := Server.execute_monotonic hex
        exact hkept
    | drop hk => rfl
  have hclock := h.clock.trans hmonotonic.symm
  cases hwork : j.work with
  | none =>
      have hown : ({ j with mutations := s } : Timed W D).own = none := by
        unfold Timed.own
        rw [hwork]
        rfl
      simp only [hown] at heq
      obtain rfl := heq
      refine ⟨⟨hreachable, h.owned, hclock, fun i hi => ?_⟩,
        ⟨.inr ⟨e, hs⟩, fun i hi => hi, .refl _, le_rfl⟩, rfl⟩
      rw [show j.work = some i from hi] at hwork
      cases hwork
  | some i =>
      obtain ⟨p, req, hp, hjob, hactivity⟩ := h.shared i hwork
      obtain ⟨p', hp', hmoves⟩ := State.moves hs hp
      obtain ⟨hsame, hlater⟩ := hmoves.later ((hcoherent.next hs).keeps i p' hp')
      have hown : ({ j with mutations := s } : Timed W D).own = some p' := by
        unfold Timed.own
        rw [hwork]
        exact hp'
      simp only [hown] at heq
      obtain rfl := heq
      rw [hactivity] at hlater
      refine ⟨⟨hreachable, h.owned.undisturbed (RequestDeadline.undisturbed_setActivity hlater),
        hclock, fun i' hi' => ?_⟩, ⟨.inr ⟨e, hs⟩, fun i hi => hi, hlater, le_rfl⟩, rfl⟩
      obtain rfl := Option.some.inj (hwork.symm.trans hi')
      exact ⟨p', req, hp', hsame.trans hjob, rfl⟩

/-- The work of the request reaches the handler. -/
theorem Timed.Joined.enterStep (h : j.Joined cfg) {req : Request W D} {sessionKey : Bool}
    {context : Option Text} (hstep : j.next cfg (.enter req sessionKey context) = some j') :
    j'.Joined cfg ∧ j.Advances cfg j' ∧ j'.deadline.cancellations = j.deadline.cancellations := by
  obtain ⟨⟨hwork, -⟩, heq⟩ := Option.ite_none_right_eq_some.mp hstep
  obtain rfl := Option.some.inj heq
  let p := Process.start cfg (.request req) j.deadline.activity sessionKey context
  have hkeeps : p.Keeps cfg :=
    Process.start_keeps (.request req) j.deadline.activity sessionKey context
  have hlater := hkeeps.seen
  have harrive : j.mutations.next cfg (.arrive (.request req) j.deadline.activity sessionKey
      context) = some { j.mutations with processes := j.mutations.processes ++ [p] } := rfl
  refine ⟨⟨State.reachable_next h.mutations harrive,
    h.owned.undisturbed (RequestDeadline.undisturbed_setActivity hlater), h.clock,
    fun i hi => ?_⟩, ⟨.inr ⟨_, harrive⟩, fun i hi => ?_, hlater, le_rfl⟩, rfl⟩
  · obtain rfl := Option.some.inj hi
    exact ⟨_, req, List.getElem?_concat_length, rfl, rfl⟩
  · rw [hi] at hwork
    cases hwork

theorem Timed.Joined.passStep (h : j.Joined cfg) {elapsed : ℚ} {milliseconds : Nat}
    (hstep : j.next cfg (.pass elapsed milliseconds) = some j') :
    j'.Joined cfg ∧ j.Advances cfg j' ∧ j'.deadline.cancellations = j.deadline.cancellations := by
  obtain ⟨d, hd, rfl⟩ := Option.map_eq_some_iff.mp hstep
  have howned := h.owned.next hd
  obtain ⟨hle, heq⟩ := Option.ite_none_right_eq_some.mp hd
  obtain rfl := Option.some.inj heq
  have hpass : j.mutations.next cfg (.pass elapsed milliseconds) =
      some (j.mutations.pass elapsed milliseconds) :=
    if_pos (le_add_iff_nonneg_right _ |>.mp hle)
  have hreachable := State.reachable_next h.mutations hpass
  refine ⟨⟨hreachable, howned, ?_, h.shared⟩,
    ⟨.inr ⟨_, hpass⟩, fun i hi => hi, .refl _, hle⟩, rfl⟩
  show j.deadline.now + elapsed = j.mutations.server.monotonic + elapsed
  rw [h.clock]

theorem Timed.Joined.next (h : j.Joined cfg) {turn : Turn W D}
    (hnext : j.next cfg turn = some j') : j'.Joined cfg ∧ j.Advances cfg j' := by
  cases turn with
  | deadline e =>
      obtain ⟨hjoined, hadvances, -⟩ := h.deadlineStep hnext
      exact ⟨hjoined, hadvances⟩
  | enter req sessionKey context =>
      obtain ⟨hjoined, hadvances, -⟩ := h.enterStep hnext
      exact ⟨hjoined, hadvances⟩
  | mutation e =>
      obtain ⟨hjoined, hadvances, -⟩ := h.mutationStep hnext
      exact ⟨hjoined, hadvances⟩
  | pass elapsed milliseconds =>
      obtain ⟨hjoined, hadvances, -⟩ := h.passStep hnext
      exact ⟨hjoined, hadvances⟩

theorem joined_invariant (cfg : Config) :
    (timedSystem cfg W D).Invariant (Timed.Joined cfg) where
  init j hinit := by
    obtain ⟨a, s, hs, hclock, rfl⟩ := hinit
    exact ⟨hs, RequestDeadline.owned_start a, hclock, nofun⟩
  step _ _ _ h hnext := (h.next hnext).1

/-- Over a run the mutations run by themselves, and the activity only grows older. -/
structure Timed.Runs (cfg : Config) (j j' : Timed W D) : Prop where
  mutations : ∃ es, (mutationSystem cfg W D).run j.mutations es = some j'.mutations
  work : ∀ i, j.work = some i → j'.work = some i
  activity : j.deadline.activity.Later j'.deadline.activity
  now : j.deadline.now ≤ j'.deadline.now

theorem Timed.Runs.refl (j : Timed W D) : j.Runs cfg j := ⟨⟨[], rfl⟩, fun _ h => h, .refl _, le_rfl⟩

theorem Timed.Runs.advance {m : Timed W D} (h : j.Runs cfg m) (hadvances : m.Advances cfg j') :
    j.Runs cfg j' where
  mutations := by
    obtain ⟨es, hes⟩ := h.mutations
    rcases hadvances.mutations with hsame | ⟨e, he⟩
    · exact ⟨es, hsame ▸ hes⟩
    · exact ⟨es ++ [e], System.run_snoc hes he⟩
  work i hi := hadvances.work i (h.work i hi)
  activity := h.activity.trans hadvances.activity
  now := h.now.trans hadvances.now

theorem Timed.Joined.runs (h : j.Joined cfg) {turns : List (Turn W D)}
    (hrun : (timedSystem cfg W D).run j turns = some j') : j.Runs cfg j' :=
  (System.run_preserves (S := timedSystem cfg W D) (P := fun m => m.Joined cfg ∧ j.Runs cfg m)
    (fun _ _ _ hm hnext => ⟨(hm.1.next hnext).1, hm.2.advance (hm.1.next hnext).2⟩)
    ⟨h, .refl j⟩ hrun).2

/-- While its response is open, work that owns a mutation is cancelled by its own receive only. -/
theorem Timed.Joined.cancellations (h : j.Joined cfg) {turn : Turn W D}
    (howns : j.deadline.activity.ownsMutation = true) (hopen : j.deadline.completed = false)
    (htimer : ∀ n, turn ≠ .deadline (.receiveTimedOut n)) (hnext : j.next cfg turn = some j') :
    j'.deadline.cancellations = j.deadline.cancellations := by
  cases turn with
  | deadline e =>
      obtain ⟨-, -, hd⟩ := h.deadlineStep hnext
      have hother := (Option.ite_none_left_eq_some.mp hnext).1
      rw [Bool.not_eq_true] at hother
      refine h.owned.cancellations_next hd hother (fun n he => ?_) howns hopen
      exact htimer n (congrArg Turn.deadline he)
  | enter req sessionKey context => exact (h.enterStep hnext).2.2
  | mutation e => exact (h.mutationStep hnext).2.2
  | pass elapsed milliseconds => exact (h.passStep hnext).2.2

/-- Inactive before the last check, the request sends no COMMIT in any run. -/
theorem Timed.Joined.idle_run (h : j.Joined cfg) {p : Process W D} (hwork : j.work = some i)
    (hp : j.mutations.processes[i]? = some p)
    (hinactive : ¬ j.deadline.activity.Active j.deadline.now) (hidle : ¬ p.Committing)
    (hruns : j.Runs cfg j') : ∃ p', j'.mutations.processes[i]? = some p' ∧ ¬ p'.Committing := by
  obtain ⟨q, req, hq, hjob, hactivity⟩ := h.shared i hwork
  obtain rfl := Option.some.inj (hp.symm.trans hq)
  obtain ⟨es, hes⟩ := hruns.mutations
  have hcoherent := (coherent_invariant cfg).of_reachable h.mutations
  rw [← hactivity, h.clock] at hinactive
  obtain ⟨p', hp', -, hidle', -⟩ := hcoherent.inactive_run hp hjob hinactive hidle hes
  exact ⟨p', hp', hidle'⟩

/-- The turn that sends COMMIT. -/
theorem Timed.Joined.sends (h : j.Joined cfg) {p p' : Process W D} (hwork : j.work = some i)
    (hp : j.mutations.processes[i]? = some p) (hadvances : j.Advances cfg j')
    (hp' : j'.mutations.processes[i]? = some p') (hcommitting : p'.Committing) :
    p.Committing ∧ p'.tree = p.tree ∨
      p.tree.pending = some .clock ∧ j.deadline.activity.Active j.deadline.now := by
  obtain ⟨q, req, hq, hjob, hactivity⟩ := h.shared i hwork
  obtain rfl := Option.some.inj (hp.symm.trans hq)
  rcases hadvances.mutations with hsame | ⟨e, he⟩
  · rw [hsame, hp] at hp'
    obtain rfl := Option.some.inj hp'
    exact .inl ⟨hcommitting, rfl⟩
  · have hcoherent := (coherent_invariant cfg).of_reachable h.mutations
    rw [← hactivity, h.clock]
    exact hcoherent.sends he hp hp' hjob hcommitting

end Joined

/-- A mutation under its deadline, from every reachable state and in every order of steps: if it is
    inactive and has not sent COMMIT, it sends none in any run; it sends COMMIT only behind a
    reading of the clock that has found it active, with nothing in between; once inactive it stays
    inactive, for the first reason; and while it owns a mutation and its response is open, no turn
    cancels the work but the timer of a receive that the work awaits. -/
theorem abandoned_mutation_never_commits (cfg : Config) {j : Timed W D} {i : Nat} {p : Process W D}
    (hj : (timedSystem cfg W D).Reachable j) (hwork : j.work = some i)
    (hp : j.mutations.processes[i]? = some p) :
    (∀ turns j', ¬ j.deadline.activity.Active j.deadline.now → ¬ p.Committing →
        (timedSystem cfg W D).run j turns = some j' →
        ∃ p', j'.mutations.processes[i]? = some p' ∧ ¬ p'.Committing) ∧
      (∀ turn j' p', j.next cfg turn = some j' → j'.mutations.processes[i]? = some p' →
        p'.Committing →
        p.Committing ∧ p'.tree = p.tree ∨
          p.tree.pending = some .clock ∧ j.deadline.activity.Active j.deadline.now) ∧
      (∀ turns j', ¬ j.deadline.activity.Active j.deadline.now →
        (timedSystem cfg W D).run j turns = some j' →
        ¬ j'.deadline.activity.Active j'.deadline.now ∧
          ∀ reason, j.deadline.activity.abandoned = some reason →
            j'.deadline.activity.abandoned = some reason) ∧
      ∀ turn j', j.deadline.activity.ownsMutation = true → j.deadline.completed = false →
        (∀ n, turn ≠ .deadline (.receiveTimedOut n)) → j.next cfg turn = some j' →
        j'.deadline.cancellations = j.deadline.cancellations := by
  have h := (joined_invariant cfg).of_reachable hj
  refine ⟨fun turns j' hinactive hidle hrun => ?_, fun turn j' p' hnext hp' hcommitting => ?_,
    fun turns j' hinactive hrun => ?_, fun turn j' howns hopen htimer hnext => ?_⟩
  · exact h.idle_run hwork hp hinactive hidle (h.runs hrun)
  · exact h.sends hwork hp (h.next hnext).2 hp' hcommitting
  · have hruns := h.runs hrun
    exact ⟨hruns.activity.not_active hruns.now hinactive, hruns.activity.abandoned⟩
  · exact h.cancellations howns hopen htimer hnext

-- ============================================================================
-- A sample
-- ============================================================================

/-- A request under its deadline, before anything has been received. -/
def sampleTimed : Timed Unit Unit :=
  ⟨(⟨1, 1, 10, 0, .new⟩ : RequestTimeout.Arrival).start, sampleStart, none⟩

theorem sampleTimed_init : (timedSystem sampleConfig Unit Unit).init sampleTimed :=
  ⟨⟨1, 1, 10, 0, .new⟩, sampleStart, ⟨sampleStart, [], sample_init, rfl⟩, rfl, rfl⟩

/-- The sample request reaches its handler and is at its write when its client disconnects. -/
def disconnectedTurns : List (Turn Unit Unit) :=
  .enter sampleRequest false none :: .mutation (.resume 0 .done) ::
    .mutation (.resume 0 (.connection 0)) ::
    (List.replicate 8 (.mutation (.resume 0 .done)) ++ [.deadline (.serverMessage .disconnect)])

/-- It is not cancelled by the next turn, and never commits, whatever follows. -/
theorem abandoned_mutation_never_commits_disconnected :
    ∃ j, (timedSystem sampleConfig Unit Unit).run sampleTimed disconnectedTurns = some j ∧
      j.deadline.activity.abandoned = some "Request disconnected." ∧
      (∀ turns j', (timedSystem sampleConfig Unit Unit).run j turns = some j' →
        ∃ p', j'.mutations.processes[0]? = some p' ∧ ¬ p'.Committing) ∧
      ∀ interruptedDone completedDone j',
        j.next sampleConfig (.deadline (.wake interruptedDone completedDone)) = some j' →
        j'.deadline.cancellations = j.deadline.cancellations := by
  have hrun : ((timedSystem sampleConfig Unit Unit).run sampleTimed disconnectedTurns).any (fun j =>
      decide (j.work = some 0) &&
      decide (j.deadline.activity = ⟨some 10, some "Request disconnected.", true⟩) &&
      decide (j.deadline.completed = false) &&
      decide ((j.mutations.processes.map fun p => decide p.Committing)[0]? = some false)) =
        true := by
    decide +kernel
  simp only [Option.any_eq_true, Bool.and_eq_true, decide_eq_true_eq, List.getElem?_map] at hrun
  obtain ⟨j, hj, ⟨⟨hwork, hactivity⟩, hopen⟩, hfirst⟩ := hrun
  obtain ⟨p, hp, hidle⟩ := Option.map_eq_some_iff.mp hfirst
  obtain ⟨hnever, -, -, hspared⟩ := abandoned_mutation_never_commits sampleConfig
    ⟨sampleTimed, disconnectedTurns, sampleTimed_init, hj⟩ hwork hp
  have hinactive : ¬ j.deadline.activity.Active j.deadline.now := by
    rintro ⟨habandoned, -⟩
    rw [hactivity] at habandoned
    cases habandoned
  refine ⟨j, hj, by rw [hactivity], fun turns j' hrun => ?_,
    fun interruptedDone completedDone j' hnext => ?_⟩
  · exact hnever turns j' hinactive (of_decide_eq_false hidle) hrun
  · have howns : j.deadline.activity.ownsMutation = true := by rw [hactivity]
    have htimer (n : Nat) : (.deadline (.wake interruptedDone completedDone) : Turn Unit Unit) ≠
        .deadline (.receiveTimedOut n) := nofun
    exact hspared _ j' howns hopen htimer hnext

/-- A request without a key, one of whose dependencies reads the body. -/
def readingRequest : Request Unit Unit :=
  { sampleRequest with
    idempotencyKeys := []
    dependencies := .call () .pause fun _ _ => .ret () (.ok ⟨⟨.null, .null, .null⟩, (), false⟩)
    guarded := false
    dependencies_readOnly := fun h => absurd h Bool.false_ne_true }

/-- It owns a mutation and awaits its first message, until that is overdue. -/
def overdueTurns : List (Turn Unit Unit) :=
  [.enter readingRequest false none, .mutation (.resume 0 .done), .mutation (.resume 0 .done),
    .deadline .receive, .pass 2 2000]

/-- The timer of the receive cancels the work, which owns a mutation and has answered nothing. -/
theorem overdue_receive_cancels :
    ∃ j j', (timedSystem sampleConfig Unit Unit).run sampleTimed overdueTurns = some j ∧
      j.next sampleConfig (.deadline (.receiveTimedOut 0)) = some j' ∧
      j.deadline.activity.ownsMutation = true ∧ j.deadline.completed = false ∧
      j.deadline.cancellations = [] ∧ j'.deadline.cancellations = [⟨true, true, false⟩] := by
  have hrun : ((timedSystem sampleConfig Unit Unit).run sampleTimed overdueTurns).any (fun j =>
      decide (j.deadline.activity.ownsMutation = true) &&
      decide (j.deadline.completed = false) && decide (j.deadline.cancellations = []) &&
      (j.next sampleConfig (.deadline (.receiveTimedOut 0))).any fun j' =>
        decide (j'.deadline.cancellations = [⟨true, true, false⟩])) = true := by
    decide +kernel
  simp only [Option.any_eq_true, Bool.and_eq_true, decide_eq_true_eq] at hrun
  obtain ⟨j, hj, ⟨⟨howns, hopen⟩, hnone⟩, j', hnext, hcancelled⟩ := hrun
  exact ⟨j, j', hj, hnext, howns, hopen, hnone, hcancelled⟩

end QuickApi.Mutation
