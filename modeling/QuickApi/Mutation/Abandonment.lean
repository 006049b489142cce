/-
  QuickApi.Mutation.Abandonment

  An abandoned request commits nothing: a COMMIT is sent right behind a check
  of the activity that has passed, with no await in between, and a request
  that is inactive before that check never sends one.
-/

import QuickApi.Mutation.Invariance

namespace QuickApi.Mutation

open QuickApi.Fingerprint (Text)
open QuickApi.RequestTimeout (RequestActivity)
open QuickApi.Lib

variable {W D : Type} {cfg : Config}

-- ============================================================================
-- Steps of one mutation
-- ============================================================================

/-- The mutation has sent COMMIT and awaits its answer. -/
def Process.Committing (p : Process W D) : Prop := p.tree.pending = some (.stmt .commit)

instance [DecidableEq W] (p : Process W D) : Decidable p.Committing :=
  inferInstanceAs (Decidable (_ = _))

/-- What an event does to mutation `i`, which was `p`. -/
inductive State.Moves (s : State W D) (i : Nat) (p : Process W D) :
    Event W D → Process W D → Prop where
  /-- it still awaits what it has awaited; it may have been abandoned -/
  | waits {e : Event W D} {p' : Process W D} (tree : p'.tree = p.tree) (job : p'.job = p.job)
      (later : p.activity.Later p'.activity) : s.Moves i p e p'
  | resumes {l : Local W} {op : Op W}
      {kont : op.Ans D → Local W →
        Coro (Op W) (Op.Ans D) (Local W) (Except Exc (Option Response))}
      {a : Answer D} {v : op.Ans D} {conn' : Option Nat} {server' : Server W}
      (tree : p.tree = .call l op kont)
      (performed : s.server.Performed i p.connection op v conn' server') :
      s.Moves i p (.resume i a) (p.resume op v { l with activity := p.activity }
        (kont v { l with activity := p.activity }) conn')

section Moves

variable {s s' : State W D} {i : Nat} {p p' : Process W D} {e : Event W D}

theorem Server.execute_monotonic {sv sv' : Server W} {c : Nat} {st : Stmt W} {a : Answer D}
    {v : st.Value D} (h : sv.execute i c st a = some (v, sv')) : sv'.monotonic = sv.monotonic := by
  obtain ⟨⟨v', db'⟩, -, heq⟩ := Option.map_eq_some_iff.mp h
  obtain ⟨-, rfl⟩ := Prod.mk.inj heq
  cases st <;> rfl

theorem Server.Performed.monotonic {sv sv' : Server W} {conn conn' : Option Nat} {op : Op W}
    {v : op.Ans D} (h : sv.Performed i conn op v conn' sv') : sv'.monotonic = sv.monotonic := by
  cases h with
  | clock => rfl
  | checkout hcheckout =>
      unfold Server.checkout at hcheckout
      split at hcheckout
      · obtain ⟨-, heq⟩ := Option.ite_none_right_eq_some.mp hcheckout
        obtain rfl := Option.some.inj heq
        rfl
      · split at hcheckout
        · obtain rfl := Option.some.inj hcheckout
          rfl
        · cases hcheckout
  | refused r hr => rfl
  | stmt hc hk hholder hexchange =>
      rcases Server.exchange_cases hexchange with ⟨e, -, rfl⟩ | ⟨e, -, -, rfl⟩ | ⟨v, -, -, hex⟩
      · rfl
      · rfl
      · exact Server.execute_monotonic hex
  | invalidate hc hk r =>
      unfold Server.invalidate
      split <;> rfl
  | close hc hk r =>
      unfold Server.release
      split <;> rfl
  | pause r => rfl

/-- The clock does not go backwards. -/
theorem State.monotonic_next (hnext : s.next cfg e = some s') :
    s.server.monotonic ≤ s'.server.monotonic := by
  cases State.stepped hnext with
  | arrive job activity sessionKey context => exact le_rfl
  | pass milliseconds hpos => exact le_add_of_nonneg_right hpos
  | abandon hp habandon => exact le_rfl
  | resume hp htree hperformed => exact hperformed.monotonic.ge
  | late hk hholder halive hex => exact (Server.execute_monotonic hex).ge
  | drop hk => exact le_rfl

/-- Every event moves every mutation. -/
theorem State.moves (hnext : s.next cfg e = some s') (hp : s.processes[i]? = some p) :
    ∃ p', s'.processes[i]? = some p' ∧ s.Moves i p e p' := by
  have hi : i < s.processes.length := (List.getElem?_eq_some_iff.mp hp).1
  cases State.stepped hnext with
  | arrive job activity sessionKey context =>
      exact ⟨p, (List.getElem?_append_left hi).trans hp, .waits rfl rfl (.refl _)⟩
  | pass milliseconds _ => exact ⟨p, hp, .waits rfl rfl (.refl _)⟩
  | @abandon j q q' reason hq habandon =>
      by_cases hij : j = i
      · subst hij
        obtain rfl := Option.some.inj (hp.symm.trans hq)
        refine ⟨q', List.getElem?_set_self hi, ?_⟩
        unfold Process.abandon at habandon
        split at habandon
        · cases habandon
        · obtain rfl := Option.some.inj habandon
          exact .waits rfl rfl (p.activity.later_abandon reason)
      · exact ⟨p, (List.getElem?_set_ne hij).trans hp, .waits rfl rfl (.refl _)⟩
  | @resume j q l op kont a v conn' server' hq htree hperformed =>
      by_cases hij : j = i
      · subst hij
        obtain rfl := Option.some.inj (hp.symm.trans hq)
        exact ⟨_, List.getElem?_set_self hi, .resumes htree hperformed⟩
      · exact ⟨p, (List.getElem?_set_ne hij).trans hp, .waits rfl rfl (.refl _)⟩
  | late hk hholder halive hex => exact ⟨p, hp, .waits rfl rfl (.refl _)⟩
  | drop hk => exact ⟨p, hp, .waits rfl rfl (.refl _)⟩

/-- A mutation that was not there has just arrived. -/
theorem State.arrived (hnext : s.next cfg e = some s') (hnone : s.processes[i]? = none)
    (hp' : s'.processes[i]? = some p') :
    ∃ job activity sessionKey context,
      p' = Process.start cfg job activity sessionKey context := by
  have hlt : i < s'.processes.length := (List.getElem?_eq_some_iff.mp hp').1
  have hge : s.processes.length ≤ i := List.getElem?_eq_none_iff.mp hnone
  -- No other event adds a mutation.
  have hsame (hlength : s'.processes.length = s.processes.length) : False := by omega
  cases State.stepped hnext with
  | arrive job activity sessionKey context =>
      rw [List.getElem?_append_right hge, List.getElem?_singleton] at hp'
      split at hp'
      · exact ⟨job, activity, sessionKey, context, (Option.some.inj hp').symm⟩
      · cases hp'
  | pass milliseconds _ => exact (hsame rfl).elim
  | abandon hp habandon => exact (hsame List.length_set).elim
  | resume hp htree hperformed => exact (hsame List.length_set).elim
  | late hk hholder halive hex => exact (hsame rfl).elim
  | drop hk => exact (hsame rfl).elim

/-- The activity has only grown older since the mutation last saw it. -/
theorem Process.Keeps.seen (h : p.Keeps cfg) : p.ghost.seen.Later p.tree.state.activity := by
  have hconforms := h.conforms
  cases htree : p.tree with
  | call l op kont =>
      rw [htree] at hconforms
      exact hconforms.1.1
  | ret l r =>
      rw [htree] at hconforms
      unfold Coro.Conforms Job.Finished at hconforms
      split at hconforms
      · obtain ⟨r', -, hfinished⟩ := hconforms
        exact hfinished.activity
      · exact hconforms.1

theorem State.Moves.later (h : s.Moves i p e p') (hkeeps : p'.Keeps cfg) :
    p'.job = p.job ∧ p.activity.Later p'.activity := by
  cases h with
  | waits tree job later => exact ⟨job, later⟩
  | resumes tree performed => exact ⟨rfl, hkeeps.seen⟩

/-- A request that sends COMMIT does so behind a check that has passed. -/
theorem Process.Keeps.fresh (h : p.Keeps cfg) {req : Request W D} (hjob : p.job = .request req)
    (hcommitting : p.Committing) : p.ghost.fresh = true := by
  have hrole : p.ghost.core.role ≠ .sweep := by
    rw [h.role, hjob]
    show req.role cfg ≠ .sweep
    unfold Request.role
    split <;> exact nofun
  unfold Process.Committing at hcommitting
  cases htree : p.tree with
  | ret l r =>
      rw [htree] at hcommitting
      cases hcommitting
  | call l op kont =>
      rw [htree] at hcommitting
      obtain rfl := Option.some.inj hcommitting
      obtain ⟨-, -, -, hsend⟩ := h.allowed htree
      exact (hsend.resolve_left hrole).1

/-- A check is fresh right behind a reading of the clock that has found the activity active. -/
theorem Ghost.fresh_after {g : Ghost W} {l : Local W} {op : Op W} {conn conn' : Option Nat}
    {v : op.Ans D} {server' : Server W} (hperformed : s.server.Performed i conn op v conn' server')
    (hfresh : (g.after op v l).fresh = true) : op = .clock ∧ l.activity.Active s.server.monotonic := by
  cases hperformed with
  | clock => exact ⟨rfl, of_decide_eq_true hfresh⟩
  | _ => cases hfresh

end Moves

-- ============================================================================
-- COMMIT is sent while the request is active
-- ============================================================================

/-- The request is inactive, and no COMMIT of it is on its way to the server. -/
def State.Inactive (s : State W D) (i : Nat) (a : RequestActivity) : Prop :=
  ∃ p req, s.processes[i]? = some p ∧ p.job = .request req ∧
    a.Later p.activity ∧ ¬ p.activity.Active s.server.monotonic ∧ ¬ p.Committing

section Inactive

variable {s s' : State W D} {i : Nat} {p p' : Process W D} {e : Event W D}

/-- The event that sends COMMIT. -/
theorem Coherent.sends (h : Coherent cfg s) (hnext : s.next cfg e = some s')
    (hp : s.processes[i]? = some p) (hp' : s'.processes[i]? = some p') {req : Request W D}
    (hjob : p.job = .request req) (hcommitting : p'.Committing) :
    p.Committing ∧ p'.tree = p.tree ∨
      p.tree.pending = some .clock ∧ p.activity.Active s.server.monotonic := by
  have hkeeps := (h.next hnext).keeps i p' hp'
  obtain ⟨q, hq, hmoves⟩ := State.moves hnext hp
  obtain rfl := Option.some.inj (hp'.symm.trans hq)
  have hfresh := hkeeps.fresh ((hmoves.later hkeeps).1.trans hjob) hcommitting
  cases hmoves with
  | waits tree job later =>
      unfold Process.Committing at hcommitting ⊢
      rw [tree] at hcommitting
      exact .inl ⟨hcommitting, tree⟩
  | resumes tree performed =>
      obtain ⟨rfl, hactive⟩ := Ghost.fresh_after performed hfresh
      refine .inr ⟨?_, hactive⟩
      rw [tree]
      rfl

/-- An inactive request stays so and sends no COMMIT. -/
theorem Coherent.inactive (h : Coherent cfg s) {a : RequestActivity} (hs : s.Inactive i a)
    (hnext : s.next cfg e = some s') : s'.Inactive i a := by
  obtain ⟨p, req, hp, hjob, hlater, hinactive, hidle⟩ := hs
  obtain ⟨p', hp', hmoves⟩ := State.moves hnext hp
  obtain ⟨hsame, hstep⟩ := hmoves.later ((h.next hnext).keeps i p' hp')
  refine ⟨p', req, hp', hsame.trans hjob, hlater.trans hstep,
    hstep.not_active (State.monotonic_next hnext) hinactive, fun hcommitting => ?_⟩
  rcases h.sends hnext hp hp' hjob hcommitting with ⟨hold, -⟩ | ⟨-, hactive⟩
  · exact hidle hold
  · exact hinactive hactive

end Inactive

/-- A request that has sent COMMIT had just checked its activity, unless it awaits the answer. -/
theorem Coherent.sent {s s' : State W D} {i : Nat} {p' : Process W D} {e : Event W D}
    (h : Coherent cfg s) (hnext : s.next cfg e = some s') (hp' : s'.processes[i]? = some p')
    {req : Request W D} (hjob : p'.job = .request req) (hcommitting : p'.Committing) :
    ∃ p, s.processes[i]? = some p ∧
      (p.Committing ∧ p'.tree = p.tree ∨
        p.tree.pending = some .clock ∧ p.activity.Active s.server.monotonic) := by
  cases hp : s.processes[i]? with
  | some p =>
      obtain ⟨q, hq, hmoves⟩ := State.moves hnext hp
      obtain rfl := Option.some.inj (hp'.symm.trans hq)
      have hsame := (hmoves.later ((h.next hnext).keeps i p' hp')).1
      exact ⟨p, rfl, h.sends hnext hp hp' (hsame.symm.trans hjob) hcommitting⟩
  | none =>
      -- a request that has just arrived has checked nothing yet
      have hfresh := ((h.next hnext).keeps i p' hp').fresh hjob hcommitting
      obtain ⟨job, activity, sessionKey, context, rfl⟩ := State.arrived hnext hp hp'
      cases hfresh

/-- An inactive request that has no COMMIT on its way sends none in any run, and keeps its
    reason. -/
theorem Coherent.inactive_run {s s' : State W D} {i : Nat} {p : Process W D} {req : Request W D}
    {es : List (Event W D)} (h : Coherent cfg s) (hp : s.processes[i]? = some p)
    (hjob : p.job = .request req) (hinactive : ¬ p.activity.Active s.server.monotonic)
    (hidle : ¬ p.Committing) (hrun : (mutationSystem cfg W D).run s es = some s') :
    ∃ p', s'.processes[i]? = some p' ∧ ¬ p'.activity.Active s'.server.monotonic ∧
      ¬ p'.Committing ∧
      ∀ reason, p.activity.abandoned = some reason → p'.activity.abandoned = some reason := by
  have hstart : s.Inactive i p.activity := ⟨p, req, hp, hjob, .refl _, hinactive, hidle⟩
  obtain ⟨-, p', req', hp', -, hlater, hinactive', hidle'⟩ :=
    System.run_preserves (S := mutationSystem cfg W D)
      (P := fun s => Coherent cfg s ∧ s.Inactive i p.activity)
      (fun s e s' hs hnext => ⟨hs.1.next hnext, hs.1.inactive hs.2 hnext⟩) ⟨h, hstart⟩ hrun
  exact ⟨p', hp', hinactive', hidle', hlater.abandoned⟩

/-- From every reachable state: COMMIT of a request is sent only where the clock has just been read
    and the activity was active then, with nothing in between; and a request that is inactive, with
    no COMMIT sent, stays inactive in every run, keeps the reason it was abandoned for, and never
    sends COMMIT. -/
theorem committed_while_active (cfg : Config) {s : State W D}
    (hs : (mutationSystem cfg W D).Reachable s) :
    (∀ e s' (i : Nat) (p' : Process W D) req, s.next cfg e = some s' →
        s'.processes[i]? = some p' → p'.job = .request req → p'.Committing →
        ∃ p, s.processes[i]? = some p ∧
          (p.Committing ∧ p'.tree = p.tree ∨
            p.tree.pending = some .clock ∧ p.activity.Active s.server.monotonic)) ∧
      ∀ (i : Nat) (p : Process W D) req es s', s.processes[i]? = some p → p.job = .request req →
        ¬ p.activity.Active s.server.monotonic → ¬ p.Committing →
        (mutationSystem cfg W D).run s es = some s' →
        ∃ p', s'.processes[i]? = some p' ∧ ¬ p'.activity.Active s'.server.monotonic ∧
          ¬ p'.Committing ∧
          ∀ reason, p.activity.abandoned = some reason → p'.activity.abandoned = some reason := by
  have h := (coherent_invariant cfg).of_reachable hs
  exact ⟨fun e s' i p' req hnext hp' hjob hcommitting => h.sent hnext hp' hjob hcommitting,
    fun i p req es s' hp hjob hinactive hidle hrun => h.inactive_run hp hjob hinactive hidle hrun⟩

/-- The sample request sends COMMIT behind its last check. -/
theorem committed_while_active_sample :
    ∃ s s' p p', (mutationSystem sampleConfig Unit Unit).run sampleStart sampleChecks = some s ∧
      s.next sampleConfig (.resume 0 .done) = some s' ∧ s.processes[0]? = some p ∧
      s'.processes[0]? = some p' ∧ p'.Committing ∧ p.activity.Active s.server.monotonic := by
  have hrun : ((mutationSystem sampleConfig Unit Unit).run sampleStart sampleChecks).map
      (fun s => (s.processes.map fun p => decide p.Committing,
        (s.next sampleConfig (.resume 0 .done)).map fun s =>
          s.processes.map fun p => (decide p.Committing, p.job.role sampleConfig))) =
      some ([false], some [(true, .keyed (some ['h']))]) := by
    decide +kernel
  obtain ⟨s, hs, hseen⟩ := Option.map_eq_some_iff.mp hrun
  obtain ⟨hidle, hnext⟩ := Prod.mk.inj hseen
  obtain ⟨s', hs', hseen'⟩ := Option.map_eq_some_iff.mp hnext
  obtain ⟨p', rest, hcons, hp', -⟩ := List.map_eq_cons_iff.mp hseen'
  obtain ⟨hcommitting, hrole⟩ := Prod.mk.inj hp'
  have hfirst : s'.processes[0]? = some p' := by
    rw [hcons]
    rfl
  cases hjob : p'.job with
  | sweep limit =>
      rw [hjob] at hrole
      cases hrole
  | request req =>
      obtain ⟨p, hp, hbefore⟩ := (committed_while_active sampleConfig (sample_reachable hs)).1 _ s' 0
        p' req hs' hfirst hjob (of_decide_eq_true hcommitting)
      rcases hbefore with ⟨hearlier, -⟩ | ⟨-, hactive⟩
      · have hnone : (s.processes.map fun p => decide p.Committing)[0]? = some false := by
          rw [hidle]
          rfl
        rw [List.getElem?_map, hp, Option.map_some, decide_eq_true hearlier] at hnone
        cases hnone
      · exact ⟨s, s', p, p', hs, hs', hp, hfirst, of_decide_eq_true hcommitting, hactive⟩

end QuickApi.Mutation
