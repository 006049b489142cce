/-
  QuickApi.Mutation.Invariance

  Every event keeps the invariant: whatever the order of their steps, and
  wherever they fail, mutations meet a server that is as their contracts take
  it to be.
-/

import QuickApi.Mutation.Coherence

namespace QuickApi.Mutation

open QuickApi.Fingerprint (Text)
open QuickApi.RequestTimeout (RequestActivity)
open QuickApi.Lib

variable {W D : Type} {cfg : Config}

-- ============================================================================
-- Mutations that go on
-- ============================================================================

section Keeps

variable {p : Process W D} {l : Local W} {op : Op W}
  {k : op.Ans D → Local W → Coro (Op W) (Op.Ans D) (Local W) (Except Exc (Option Response))}

/-- A mutation that has just stopped at its next operation is not abandoned yet. -/
theorem Process.Keeps.of_conforms {p : Process W D}
    (hconforms : p.tree.Conforms (contract cfg) p.ghost
      (p.job.Finished cfg p.sessionKey p.context))
    (hrole : p.ghost.core.role = p.job.role cfg) (hguarded : p.ghost.core.guarded = p.job.guarded)
    (hswept : p.ghost.core.Swept) (hactivity : p.activity = p.tree.state.activity)
    (hout : p.ghost.core.out = true → p.ghost.core.taken = true) : p.Keeps cfg where
  conforms := hconforms
  role := hrole
  guarded := hguarded
  swept := hswept
  later := hactivity ▸ .refl _
  reading l k htree := by
    rw [hactivity, htree]
    rfl
  outTaken := hout

theorem Process.start_keeps (job : Job W D) (activity : RequestActivity) (sessionKey : Bool)
    (context : Option Text) : (Process.start cfg job activity sessionKey context).Keeps cfg :=
  .of_conforms (job.conforms cfg activity sessionKey context) rfl rfl (fun _ => ⟨rfl, rfl⟩) rfl nofun

/-- The contract allows the operation that a mutation awaits. -/
theorem Process.Keeps.allowed (h : p.Keeps cfg) (htree : p.tree = .call l op k) :
    op.Allowed cfg p.ghost.core p.ghost.fresh l.vars := by
  have hconforms := h.conforms
  rw [htree] at hconforms
  exact hconforms.1.2.1

/-- What an operation leaves of the role and of what comes before the claim. -/
theorem Ghost.after_role (g : Ghost W) (op : Op W) (a : op.Ans D) (s : Local W) :
    (g.after op a s).core.role = g.core.role ∧ (g.after op a s).core.guarded = g.core.guarded := by
  cases op with
  | stmt st => cases a <;> exact ⟨rfl, rfl⟩
  | checkout => cases a <;> exact ⟨rfl, rfl⟩
  | _ => exact ⟨rfl, rfl⟩

/-- No statement that the sweep may send is a write. -/
theorem Core.Swept.answered {core : Core W} (h : core.Swept) {fresh : Bool} {vars : Vars}
    {st : Stmt W} (hallowed : st.Allowed cfg core fresh vars) (v : st.Value D) :
    (core.answered st v).Swept := by
  cases st with
  | write w => exact fun hrole => absurd hrole hallowed.1
  | commit => exact fun hrole => ⟨(h hrole).1, rfl⟩
  | rollback => exact fun hrole => ⟨(h hrole).1, rfl⟩
  | _ => exact h

theorem Core.Swept.failed {core : Core W} (h : core.Swept) (st : Stmt W) :
    (core.failed st).Swept := by
  cases st with
  | commit => exact fun hrole => ⟨(h hrole).1, rfl⟩
  | rollback => exact fun hrole => ⟨(h hrole).1, rfl⟩
  | _ => exact h

theorem Core.Swept.after {g : Ghost W} (h : g.core.Swept) {op : Op W} {vars : Vars}
    (hallowed : op.Allowed cfg g.core g.fresh vars) (a : op.Ans D) (s : Local W) :
    (g.after op a s).core.Swept := by
  cases op with
  | stmt st =>
      cases a with
      | ok v => exact h.answered hallowed.2.2 v
      | failed e => exact h.failed st
      | lost e => exact h
  | checkout =>
      cases a with
      | ok _ => exact fun hrole => ⟨(h hrole).1, rfl⟩
      | failed e => exact h
      | lost e => exact h
  | _ => exact h

/-- Behind the answer, found with the activity as others have left it. -/
theorem Process.Keeps.resume (h : p.Keeps cfg) (htree : p.tree = .call l op k) (a : op.Ans D)
    (connection : Option Nat) :
    (p.resume op a { l with activity := p.activity } (k a { l with activity := p.activity })
      connection).Keeps cfg := by
  refine .of_conforms ?_ ((p.ghost.after_role op a _).1.trans h.role)
    ((p.ghost.after_role op a _).2.trans h.guarded) (h.swept.after (h.allowed htree) a _) rfl ?_
  · have hconforms := h.conforms
    rw [htree] at hconforms
    refine hconforms.2 a { l with activity := p.activity } ⟨rfl, rfl, ?_, ?_⟩
    · have hlater := h.later
      rw [htree] at hlater
      exact hlater
    · rintro rfl
      exact h.reading l k htree
  · have hout := h.outTaken
    cases op with
    | stmt st => cases a <;> exact hout
    | checkout =>
        cases a with
        | ok _ => exact fun _ => rfl
        | failed e => exact hout
        | lost e => exact hout
    | close => exact nofun
    | _ => exact hout

/-- The transport may abandon a mutation while it awaits. -/
theorem Process.Keeps.abandon (h : p.Keeps cfg) {reason : String} {p' : Process W D}
    (habandon : p.abandon reason = some p') :
    p'.Keeps cfg ∧ p'.connection = p.connection ∧ p'.ghost = p.ghost := by
  unfold Process.abandon at habandon
  split at habandon
  · cases habandon
  · next hclock =>
      obtain rfl := Option.some.inj habandon
      refine ⟨⟨h.conforms, h.role, h.guarded, h.swept,
        h.later.trans (p.activity.later_abandon reason), ?_, h.outTaken⟩, rfl, rfl⟩
      exact fun l k htree => absurd htree (hclock l k)

end Keeps

-- ============================================================================
-- Operations
-- ============================================================================

section Operations

variable {s : State W D} {i c : Nat} {p : Process W D} {l : Local W} {k : Connection W}

/-- The connection of a mutation that is not doomed. -/
theorem Coherent.mine (h : Coherent cfg s) (hp : s.processes[i]? = some p)
    (hout : p.ghost.core.out = true) (hdoomed : p.ghost.core.doomed = false)
    (hc : p.connection = some c) (hk : s.server.connections[c]? = some k) :
    k.holder = .mutation i ∧
      (k.alive = true → Linked cfg s.server.db c p.ghost.core.role p.ghost.core.view) := by
  obtain ⟨c', k', hc', hk', hmine, -⟩ := (h.attached i p hp).out hout
  obtain rfl := Option.some.inj (hc.symm.trans hc')
  obtain rfl := Option.some.inj (hk.symm.trans hk')
  have hholder := hmine hdoomed
  have hfits := (h.fits c k hk).2
  rw [hholder] at hfits
  obtain ⟨q, hq, -, -, -, hlinked⟩ := hfits
  obtain rfl := Option.some.inj (hp.symm.trans hq)
  exact ⟨hholder, hlinked⟩

/-- A connection that is not in order at the server any more has nothing there. -/
theorem Coherent.dead (h : Coherent cfg s) (hk : s.server.connections[c]? = some k)
    (halive : k.alive = false) : Bare s.server.db c := (h.fits c k hk).1 halive

/-- No connection belongs to a mutation that has had none. -/
theorem Coherent.not_of (h : Coherent cfg s) (hp : s.processes[i]? = some p)
    (htaken : p.ghost.core.taken = false) (hk : s.server.connections[c]? = some k) :
    ¬ k.holder.Of i := by
  have hfits := (h.fits c k hk).2
  rintro (hholder | ⟨sent, hholder⟩)
  · rw [hholder] at hfits
    obtain ⟨q, hq, -, hout, -⟩ := hfits
    obtain rfl := Option.some.inj (hp.symm.trans hq)
    exact absurd (htaken.symm.trans ((h.keeps i p hp).outTaken hout)) nofun
  · rw [hholder] at hfits
    obtain ⟨q, hq, htaken', -⟩ := hfits
    obtain rfl := Option.some.inj (hp.symm.trans hq)
    exact absurd (htaken.symm.trans htaken') nofun

variable {server' : Server W} {p' : Process W D}

/-- A connection that has nothing is given to a mutation that has none. -/
theorem Coherent.connected (h : Coherent cfg s) (hp : s.processes[i]? = some p)
    (htaken : p.ghost.core.taken = false) (hkeeps : p'.Keeps cfg)
    (hconnection : p'.connection = some c) (hcore : p'.ghost.core = p.ghost.core.connected)
    (hcheckout : s.server.checkout i c = some server') :
    Coherent cfg ⟨server', s.processes.set i p'⟩ := by
  have hi : i < s.processes.length := (List.getElem?_eq_some_iff.mp hp).1
  have hout' : p'.ghost.core.out = true := by
    rw [hcore]
    rfl
  have hattached (sv : Server W) (k : Connection W) (hk : sv.connections[c]? = some k)
      (hholder : k.holder = .mutation i) : p'.Attached sv i := by
    constructor
    · refine fun _ => ⟨c, k, hconnection, hk, fun _ => hholder, ?_⟩
      rw [hcore]
      exact nofun
    · rw [hout']
      exact nofun
  have hfit (k : Connection W) (hholder : k.holder = .mutation i) (hbare : Bare s.server.db c) :
      k.Fits cfg s.server.db (s.processes.set i p') c := by
    refine ⟨fun _ => hbare, ?_⟩
    rw [hholder]
    refine ⟨p', List.getElem?_set_self hi, hconnection, hout', ?_, fun _ => ?_⟩
    · rw [hcore]
      rfl
    · rw [hcore]
      exact hbare.linked _
  unfold Server.checkout at hcheckout
  split at hcheckout
  · next hnone =>
      -- A connection that the pool has opened.
      split at hcheckout
      · next hlast =>
          obtain rfl := Option.some.inj hcheckout
          subst hlast
          refine h.resumed hp hkeeps (hattached _ ⟨.mutation i, true⟩ ?_ rfl) h.records
            (fun d kd j _ hd _ => ?_) (fun d kd hd => ?_) fun d hd => ?_
          · exact List.getElem?_concat_length
          · rw [List.getElem?_append_left (List.getElem?_eq_some_iff.mp hd).1]
            exact hd
          · rcases Nat.lt_or_ge d s.server.connections.length with hlt | hge
            · rw [List.getElem?_append_left hlt] at hd
              exact .inl ⟨hd, .refl d _, fun hholder => absurd hholder (h.not_of hp htaken hd)⟩
            · rw [List.getElem?_append_right hge, List.getElem?_singleton] at hd
              split at hd
              · next hsub =>
                  obtain rfl : s.server.connections.length = d := by omega
                  obtain rfl := Option.some.inj hd
                  exact .inr (hfit _ rfl (h.unused _ le_rfl))
              · cases hd
          · rw [List.length_append] at hd
            exact h.unused d (by omega)
      · cases hcheckout
  · next kp hkp =>
      -- One of its own.
      split at hcheckout
      · next hpool =>
          obtain rfl := Option.some.inj hcheckout
          have hlt : c < s.server.connections.length := (List.getElem?_eq_some_iff.mp hkp).1
          have hbare := (h.fits c kp hkp).2
          rw [hpool] at hbare
          refine h.resumed hp hkeeps
            (hattached _ { kp with holder := .mutation i } (List.getElem?_set_self hlt) rfl)
            h.records (fun d kd j _ hd hof => ?_) (fun d kd hd => ?_) fun d hd => ?_
          · refine (List.getElem?_set_ne ?_).trans hd
            rintro rfl
            obtain rfl := Option.some.inj (hkp.symm.trans hd)
            rw [hpool] at hof
            rcases hof with hof | ⟨sent, hof⟩ <;> cases hof
          · change (s.server.connections.set c { kp with holder := .mutation i })[d]? = _ at hd
            by_cases hcd : c = d
            · subst hcd
              rw [List.getElem?_set_self hlt] at hd
              obtain rfl := Option.some.inj hd
              exact .inr (hfit _ rfl hbare)
            · rw [List.getElem?_set_ne hcd] at hd
              exact .inl ⟨hd, .refl d _, fun hholder => absurd hholder (h.not_of hp htaken hd)⟩
          · change (s.server.connections.set c _).length ≤ d at hd
            rw [List.length_set] at hd
            exact h.unused d hd
      · cases hcheckout

/-- What a statement that was sent can come to. -/
theorem Server.exchange_cases {sv sv' : Server W} {st : Stmt W} {a : Answer D}
    {r : Reply (st.Value D)} (h : sv.exchange i c st k a = some (r, sv')) :
    (∃ e, r = .lost e ∧ sv' = sv.setConnection c { k with holder := .orphan i (some st) }) ∨
      (∃ e, r = .failed e ∧ k.alive = true ∧ sv' = sv.setDatabase (sv.db.refuse c st)) ∨
      ∃ v, r = .ok v ∧ k.alive = true ∧ sv.execute i c st a = some (v, sv') := by
  unfold Server.exchange at h
  split at h
  · next e =>
      obtain ⟨rfl, rfl⟩ := Prod.mk.inj (Option.some.inj h)
      exact .inl ⟨e, rfl, rfl⟩
  · next e =>
      obtain ⟨halive, heq⟩ := Option.ite_none_right_eq_some.mp h
      obtain ⟨rfl, rfl⟩ := Prod.mk.inj (Option.some.inj heq)
      exact .inr (.inl ⟨e, rfl, halive, rfl⟩)
  · obtain ⟨halive, heq⟩ := Option.ite_none_right_eq_some.mp h
    obtain ⟨⟨v, sv''⟩, hex, heq⟩ := Option.map_eq_some_iff.mp heq
    obtain ⟨rfl, rfl⟩ := Prod.mk.inj heq
    exact .inr (.inr ⟨v, rfl, halive, hex⟩)

/-- A statement on its own connection comes back to a mutation, or is lost. -/
theorem Coherent.exchanged (h : Coherent cfg s) (hp : s.processes[i]? = some p)
    (hc : p.connection = some c) (hk : s.server.connections[c]? = some k) {st : Stmt W}
    (hallowed : (Op.stmt st).Allowed cfg p.ghost.core p.ghost.fresh l.vars) {a : Answer D}
    {r : Reply (st.Value D)} (hkeeps : p'.Keeps cfg) (hconnection : p'.connection = some c)
    (hcore : p'.ghost.core = (p.ghost.after (.stmt st) r l).core)
    (hsent : st = .commit → p'.ghost.sent = l.vars.response)
    (hexchange : s.server.exchange i c st k a = some (r, server')) :
    Coherent cfg ⟨server', s.processes.set i p'⟩ := by
  obtain ⟨hout, hdoomed, hst⟩ := hallowed
  obtain ⟨hholder, hlinked⟩ := h.mine hp hout hdoomed hc hk
  have hi : i < s.processes.length := (List.getElem?_eq_some_iff.mp hp).1
  have hlt : c < s.server.connections.length := (List.getElem?_eq_some_iff.mp hk).1
  -- The connection stays with the mutation.
  have hattached (hout' : p'.ghost.core.out = true) (hdoomed' : p'.ghost.core.doomed = false)
      (sv : Server W) (hsv : sv.connections = s.server.connections) : p'.Attached sv i := by
    constructor
    · refine fun _ => ⟨c, k, hconnection, hsv ▸ hk, fun _ => hholder, ?_⟩
      rw [hdoomed']
      exact nofun
    · rw [hout']
      exact nofun
  have hfit (db : Database W) (halive : k.alive = true) (hout' : p'.ghost.core.out = true)
      (hdoomed' : p'.ghost.core.doomed = false)
      (hview : Linked cfg db c p'.ghost.core.role p'.ghost.core.view) :
      k.Fits cfg db (s.processes.set i p') c := by
    refine ⟨fun hdead => ?_, ?_⟩
    · rw [halive] at hdead
      cases hdead
    · rw [hholder]
      exact ⟨p', List.getElem?_set_self hi, hconnection, hout', hdoomed', fun _ => hview⟩
  rcases Server.exchange_cases hexchange with ⟨e, rfl, rfl⟩ | ⟨e, rfl, halive, rfl⟩ |
    ⟨v, rfl, halive, hex⟩
  · have hcore' : p'.ghost.core = p.ghost.core.lost := hcore
    have hout' : p'.ghost.core.out = true := hcore' ▸ hout
    refine h.worked hp hout hc hk (.inl hholder) hkeeps ⟨fun _ => ?_, fun hidle => ?_⟩ h.records rfl
      (fun d _ => .refl d _) ⟨fun hdead => h.dead hk hdead, p', List.getElem?_set_self hi,
        hkeeps.outTaken hout', fun _ => ⟨hconnection, ?_⟩, fun halive st' hst' => ?_⟩
    · refine ⟨c, _, hconnection, List.getElem?_set_self hlt, fun hd => ?_, fun _ => ⟨_, rfl⟩⟩
      rw [hcore'] at hd
      cases hd
    · exact absurd (hout'.symm.trans hidle) nofun
    · rw [hcore']
      rfl
    · obtain rfl := Option.some.inj hst'
      unfold Process.Sent
      rw [hcore']
      exact ⟨hlinked halive, p.ghost.fresh, l.vars, hst.lost, hsent⟩
  · have hcore' : p'.ghost.core = p.ghost.core.failed st := hcore
    have hout' : p'.ghost.core.out = true := hcore' ▸ hout
    have hdoomed' : p'.ghost.core.doomed = false := hcore' ▸ hdoomed
    have heffects : Effects c s.server.db (s.server.db.refuse c st) := effects_refuse st
    refine h.worked hp hout hc hk (.inl hholder) hkeeps (hattached hout' hdoomed' _ rfl)
      (heffects.records h.records) (set_of_getElem?_eq_some hk).symm
      (fun d hne => heffects.frame hne) (hfit _ halive hout' hdoomed' ?_)
    rw [hcore']
    exact (hlinked halive).refuse hst
  · have hcore' : p'.ghost.core = p.ghost.core.answered st v := hcore
    have hout' : p'.ghost.core.out = true := hcore' ▸ hout
    have hdoomed' : p'.ghost.core.doomed = false := hcore' ▸ hdoomed
    obtain ⟨hdb, hsame⟩ := Server.execute_eq_some hex
    refine h.worked hp hout hc hk (.inl hholder) hkeeps (hattached hout' hdoomed' _ hsame)
      (h.records.execute (hlinked halive) hst hdb)
      (hsame.trans (set_of_getElem?_eq_some hk).symm) (fun d hne => frame_execute hne hdb)
      (hfit _ halive hout' hdoomed' ?_)
    rw [hcore']
    exact (hlinked halive).execute h.records hst hdb

/-- An invalidation that was started makes an orphan of the connection. -/
theorem Coherent.invalidated (h : Coherent cfg s) (hp : s.processes[i]? = some p)
    (hc : p.connection = some c) (hk : s.server.connections[c]? = some k)
    (hout : p.ghost.core.out = true) (hkeeps : p'.Keeps cfg) (hconnection : p'.connection = some c)
    (hcore : p'.ghost.core = p.ghost.core.lost) (hsent : p'.ghost.sent = p.ghost.sent) :
    Coherent cfg ⟨s.server.invalidate c k, s.processes.set i p'⟩ := by
  have hi : i < s.processes.length := (List.getElem?_eq_some_iff.mp hp).1
  have hlt : c < s.server.connections.length := (List.getElem?_eq_some_iff.mp hk).1
  have hdoomed' : p'.ghost.core.doomed = true := hcore ▸ rfl
  have hout' : p'.ghost.core.out = true := hcore ▸ hout
  have hattached (sv : Server W) (k : Connection W) (hk : sv.connections[c]? = some k)
      (sent : Option (Stmt W)) (horphan : k.holder = .orphan i sent) : p'.Attached sv i := by
    constructor
    · refine fun _ => ⟨c, k, hconnection, hk, ?_, fun _ => ⟨sent, horphan⟩⟩
      rw [hdoomed']
      exact nofun
    · rw [hout']
      exact nofun
  cases hdoomed : p.ghost.core.doomed with
  | false =>
      obtain ⟨hholder, -⟩ := h.mine hp hout hdoomed hc hk
      have heq : s.server.invalidate c k =
          s.server.setConnection c { k with holder := .orphan i none } := by
        unfold Server.invalidate
        rw [hholder]
      rw [heq]
      refine h.worked hp hout hc hk (.inl hholder) hkeeps
        (hattached _ _ (List.getElem?_set_self hlt) none rfl) h.records rfl
        (fun d _ => .refl d _) ⟨fun hdead => h.dead hk hdead, p', List.getElem?_set_self hi,
          hkeeps.outTaken hout', fun _ => ⟨hconnection, hdoomed'⟩, fun _ => nofun⟩
  | true =>
      obtain ⟨c', k', hc', hk', -, horphan⟩ := (h.attached i p hp).out hout
      obtain rfl := Option.some.inj (hc.symm.trans hc')
      obtain rfl := Option.some.inj (hk.symm.trans hk')
      obtain ⟨sent, hholder⟩ := horphan hdoomed
      have heq : s.server.invalidate c k = s.server := by
        unfold Server.invalidate
        rw [hholder]
      rw [heq]
      have hsame : p.Same p' := by
        refine ⟨hconnection.trans hc.symm, hcore.trans ?_, hsent⟩
        unfold Core.lost
        rw [← hdoomed]
      refine h.worked hp hout hc hk (.inr ⟨sent, hholder⟩) hkeeps (hattached _ k hk sent hholder)
        h.records (set_of_getElem?_eq_some hk).symm (fun d _ => .refl d _)
        ((h.fits c k hk).frame (.refl c _) fun j q hj hq => ?_)
      obtain rfl := hj.eq (.inr ⟨sent, hholder⟩)
      obtain rfl := Option.some.inj (hp.symm.trans hq)
      exact ⟨p', List.getElem?_set_self hi, hsame⟩

/-- A connection goes back to the pool with nothing at the server, unless it is discarded. -/
theorem Coherent.closed (h : Coherent cfg s) (hp : s.processes[i]? = some p)
    (hc : p.connection = some c) (hk : s.server.connections[c]? = some k)
    (hout : p.ghost.core.out = true)
    (hfree : p.ghost.core.doomed = false → p.ghost.core.view.lock = .free)
    (hkeeps : p'.Keeps cfg) (hconnection : p'.connection = none)
    (hcore : p'.ghost.core = p.ghost.core.closed) (hsent : p'.ghost.sent = p.ghost.sent) :
    Coherent cfg ⟨s.server.release c k, s.processes.set i p'⟩ := by
  have hi : i < s.processes.length := (List.getElem?_eq_some_iff.mp hp).1
  have hout' : p'.ghost.core.out = false := hcore ▸ rfl
  have hattached (sv : Server W) : p'.Attached sv i := by
    constructor
    · rw [hout']
      exact nofun
    · exact fun _ => hconnection
  cases hdoomed : p.ghost.core.doomed with
  | false =>
      obtain ⟨hholder, hlinked⟩ := h.mine hp hout hdoomed hc hk
      have heq : s.server.release c k =
          (s.server.setConnection c { k with holder := .pool }).setDatabase
            (s.server.db.rollback c) := by
        unfold Server.release
        rw [hholder]
      have hbare : Bare (s.server.db.rollback c) c := by
        refine bare_rollback fun name hname => ?_
        cases halive : k.alive with
        | false => exact (h.dead hk halive).locks name hname
        | true =>
            rcases (hlinked halive).lock name hname with hheld | hasked
            · exact absurd ((hfree hdoomed).symm.trans hheld) nofun
            · exact absurd ((hfree hdoomed).symm.trans hasked) nofun
      rw [heq]
      exact h.worked hp hout hc hk (.inl hholder) hkeeps (hattached _) (h.records.rollback c) rfl
        (fun d hne => Effect.rollback.frame hne) ⟨fun _ => hbare, hbare⟩
  | true =>
      obtain ⟨c', k', hc', hk', -, horphan⟩ := (h.attached i p hp).out hout
      obtain rfl := Option.some.inj (hc.symm.trans hc')
      obtain rfl := Option.some.inj (hk.symm.trans hk')
      obtain ⟨sent, hholder⟩ := horphan hdoomed
      have heq : s.server.release c k = s.server := by
        unfold Server.release
        rw [hholder]
      rw [heq]
      have hfits := (h.fits c k hk).2
      rw [hholder] at hfits
      obtain ⟨q, hq, htaken, -, hstill⟩ := hfits
      obtain rfl := Option.some.inj (hp.symm.trans hq)
      refine h.worked hp hout hc hk (.inr ⟨sent, hholder⟩) hkeeps (hattached _)
        h.records (set_of_getElem?_eq_some hk).symm (fun d _ => .refl d _)
        ⟨fun hdead => h.dead hk hdead, ?_⟩
      rw [hholder]
      refine ⟨p', List.getElem?_set_self hi, ?_, ?_, fun halive st hst => ?_⟩
      · rw [hcore]
        exact htaken
      · rw [hout']
        exact nofun
      · obtain ⟨hlinked, fresh, vars, hallowed, hvars⟩ := hstill halive st hst
        unfold Process.Sent
        rw [hcore, hsent]
        exact ⟨hlinked, fresh, vars, hallowed.closed, hvars⟩

end Operations

-- ============================================================================
-- Events
-- ============================================================================

section Events

variable {s s' : State W D} {i c : Nat} {p : Process W D} {k m : Connection W}
  {server' : Server W}

/-- The operation of a mutation comes back. -/
theorem Coherent.perform (h : Coherent cfg s) (hp : s.processes[i]? = some p) {l : Local W}
    {op : Op W}
    {kont : op.Ans D → Local W → Coro (Op W) (Op.Ans D) (Local W) (Except Exc (Option Response))}
    (htree : p.tree = .call l op kont) {v : op.Ans D} {conn' : Option Nat}
    (hperformed : s.server.Performed i p.connection op v conn' server') :
    Coherent cfg
      ⟨server', s.processes.set i (p.resume op v { l with activity := p.activity }
        (kont v { l with activity := p.activity }) conn')⟩ := by
  have hkeeps := h.keeps i p hp
  have hallowed := hkeeps.allowed htree
  have hkeeps' := hkeeps.resume htree v conn'
  cases hperformed with
  | clock => exact h.thought hp hkeeps' ⟨rfl, rfl, rfl⟩
  | checkout hcheckout => exact h.connected hp hallowed hkeeps' rfl rfl hcheckout
  | refused r hr =>
      refine h.thought hp hkeeps' ⟨rfl, ?_, rfl⟩
      cases r with
      | ok _ => exact absurd rfl hr
      | failed e => rfl
      | lost e => rfl
  | stmt hc hk _ hexchange =>
      refine h.exchanged hp hc hk hallowed hkeeps' rfl rfl ?_ hexchange
      rintro rfl
      rfl
  | invalidate hc hk r => exact h.invalidated hp hc hk hallowed hkeeps' rfl rfl rfl
  | close hc hk r =>
      exact h.closed hp hc hk hallowed.1 (fun hd => (hallowed.2 hd).1) hkeeps' rfl rfl rfl
  | pause r => exact h.thought hp hkeeps' ⟨rfl, rfl, rfl⟩

/-- Something happens to connection `c` that its mutation does not notice. -/
theorem Coherent.served (h : Coherent cfg s) (hk : s.server.connections[c]? = some k)
    (hrecords : Records cfg server'.db)
    (hconnections : server'.connections = s.server.connections.set c m)
    (hframe : ∀ d, d ≠ c → Frame d s.server.db server'.db)
    (hmine : ∀ j, k.holder = .mutation j → m.holder = .mutation j)
    (horphan : ∀ j sent, k.holder = .orphan j sent → ∃ sent', m.holder = .orphan j sent')
    (hfits : m.Fits cfg server'.db s.processes c) : Coherent cfg { s with server := server' } := by
  have hlt : c < s.server.connections.length := (List.getElem?_eq_some_iff.mp hk).1
  constructor
  case records => exact hrecords
  case keeps => exact h.keeps
  case attached =>
    intro j q hq
    refine ⟨fun hout => ?_, (h.attached j q hq).idle⟩
    obtain ⟨d, kd, hd, hkd, hheld, hlost⟩ := (h.attached j q hq).out hout
    by_cases hcd : c = d
    · subst hcd
      obtain rfl := Option.some.inj (hk.symm.trans hkd)
      refine ⟨c, m, hd, ?_, fun hdoomed => hmine j (hheld hdoomed), fun hdoomed => ?_⟩
      · rw [hconnections, List.getElem?_set_self hlt]
      · obtain ⟨sent, hsent⟩ := hlost hdoomed
        exact horphan j sent hsent
    · refine ⟨d, kd, hd, ?_, hheld, hlost⟩
      rw [hconnections, List.getElem?_set_ne hcd]
      exact hkd
  case fits =>
    intro d kd hkd
    rw [hconnections] at hkd
    by_cases hcd : c = d
    · subst hcd
      rw [List.getElem?_set_self hlt] at hkd
      exact Option.some.inj hkd ▸ hfits
    · rw [List.getElem?_set_ne hcd] at hkd
      exact (h.fits d kd hkd).frame (hframe d (Ne.symm hcd))
        fun j q _ hq => ⟨q, hq, .refl q⟩
  case unused =>
    intro d hd
    rw [hconnections, List.length_set] at hd
    exact (h.unused d hd).frame (hframe d (by omega))

/-- The server ends a connection. -/
theorem Coherent.drop (h : Coherent cfg s) (hk : s.server.connections[c]? = some k) :
    Coherent cfg
      { s with
        server := (s.server.setConnection c { k with alive := false }).setDatabase
          (s.server.db.drop c) } := by
  have heffects : Effects c s.server.db (s.server.db.drop c) := .single .drop
  have hbare := bare_drop s.server.db c
  refine h.served (m := { k with alive := false }) hk (heffects.records h.records) rfl
    (fun d hne => heffects.frame hne) (fun _ hj => hj) (fun _ sent hj => ⟨sent, hj⟩)
    ⟨fun _ => hbare, ?_⟩
  have hfits := (h.fits c k hk).2
  obtain ⟨holder, alive⟩ := k
  cases holder with
  | pool => exact hbare
  | mutation i =>
      obtain ⟨p, hp, hconn, hout, hdoomed, -⟩ := hfits
      exact ⟨p, hp, hconn, hout, hdoomed, nofun⟩
  | orphan i sent =>
      obtain ⟨p, hp, htaken, hout, -⟩ := hfits
      exact ⟨p, hp, htaken, hout, nofun⟩

/-- The server executes what a lost connection has still sent. -/
theorem Coherent.late (h : Coherent cfg s) (hk : s.server.connections[c]? = some k) {st : Stmt W}
    (hholder : k.holder = .orphan i (some st)) (halive : k.alive = true) {a : Answer D}
    {v : st.Value D} {sv : Server W} (hex : s.server.execute i c st a = some (v, sv)) :
    Coherent cfg
      { s with server := sv.setConnection c { k with holder := .orphan i none } } := by
  have hfits := (h.fits c k hk).2
  rw [hholder] at hfits
  obtain ⟨p, hp, htaken, hout, hstill⟩ := hfits
  obtain ⟨hlinked, fresh, vars, hallowed, -⟩ := hstill halive st rfl
  obtain ⟨hdb, hsame⟩ := Server.execute_eq_some hex
  refine h.served (m := { k with holder := .orphan i none }) hk
    (h.records.execute hlinked hallowed hdb) ?_ (fun d hne => frame_execute hne hdb)
    (fun j hj => ?_) (fun j sent hj => ?_)
    ⟨fun hdead => ?_, p, hp, htaken, hout, fun _ => nofun⟩
  · show sv.connections.set c _ = _
    rw [hsame]
  · rw [hholder] at hj
    cases hj
  · rw [hholder] at hj
    obtain ⟨rfl, -⟩ := Holder.orphan.inj hj
    exact ⟨none, rfl⟩
  · exact absurd (halive.symm.trans hdead) nofun

/-- A job arrives. -/
theorem Coherent.arrive (h : Coherent cfg s) (job : Job W D) (activity : RequestActivity)
    (sessionKey : Bool) (context : Option Text) :
    Coherent cfg
      { s with
        processes := s.processes ++ [Process.start cfg job activity sessionKey context] } := by
  have hlookup (j : Nat) (q : Process W D)
      (hq : (s.processes ++ [Process.start cfg job activity sessionKey context])[j]? = some q) :
      s.processes[j]? = some q ∨ q = Process.start cfg job activity sessionKey context := by
    rcases Nat.lt_or_ge j s.processes.length with hlt | hge
    · rw [List.getElem?_append_left hlt] at hq
      exact .inl hq
    · rw [List.getElem?_append_right hge, List.getElem?_singleton] at hq
      split at hq
      · exact .inr (Option.some.inj hq).symm
      · cases hq
  constructor
  case records => exact h.records
  case keeps =>
    intro j q hq
    rcases hlookup j q hq with hq | rfl
    · exact h.keeps j q hq
    · exact Process.start_keeps job activity sessionKey context
  case attached =>
    intro j q hq
    rcases hlookup j q hq with hq | rfl
    · exact h.attached j q hq
    · exact ⟨nofun, fun _ => rfl⟩
  case fits =>
    intro d k hk
    refine (h.fits d k hk).frame (.refl d _) fun j q _ hq => ⟨q, ?_, .refl q⟩
    rw [List.getElem?_append_left (List.getElem?_eq_some_iff.mp hq).1]
    exact hq
  case unused => exact h.unused

/-- The time passes. -/
theorem Coherent.pass (h : Coherent cfg s) (elapsed : ℚ) (milliseconds : Nat) :
    Coherent cfg (s.pass elapsed milliseconds) := by
  have hframe (d : Nat) : Frame d s.server.db (s.pass elapsed milliseconds).server.db :=
    ⟨rfl, rfl, fun _ => Iff.rfl, .refl d _, Nat.le_add_right _ _⟩
  refine ⟨h.records.congr rfl (Nat.le_add_right _ _), h.keeps, ?_, fun d k hk => ?_,
    fun d hd => (h.unused d hd).frame (hframe d)⟩
  · exact fun j q hq => ⟨(h.attached j q hq).out, (h.attached j q hq).idle⟩
  · exact (h.fits d k hk).frame (hframe d) fun j q _ hq => ⟨q, hq, .refl q⟩

/-- Every event keeps the invariant. -/
theorem Coherent.next (h : Coherent cfg s) {e : Event W D} (hnext : s.next cfg e = some s') :
    Coherent cfg s' := by
  cases State.stepped hnext with
  | arrive job activity sessionKey context => exact h.arrive job activity sessionKey context
  | pass milliseconds _ => exact h.pass _ milliseconds
  | abandon hp habandon =>
      obtain ⟨hkeeps, hconnection, hghost⟩ := (h.keeps _ _ hp).abandon habandon
      exact h.thought hp hkeeps ⟨hconnection, hghost ▸ rfl, hghost ▸ rfl⟩
  | resume hp htree hperformed => exact h.perform hp htree hperformed
  | late hk hholder halive hex => exact h.late hk hholder halive hex
  | drop hk => exact h.drop hk

theorem coherent_init (h : (mutationSystem cfg W D).init s) : Coherent cfg s := by
  obtain ⟨now, rows, monotonic, hrows, rfl⟩ := h
  have hnone {α : Type} (n : Nat) (x : α) : ([] : List α)[n]? ≠ some x := by simp
  constructor
  case records => exact .start hrows now _ _ _
  case keeps => exact fun i p hp => absurd hp (hnone i p)
  case attached => exact fun i p hp => absurd hp (hnone i p)
  case fits => exact fun c k hk => absurd hk (hnone c k)
  case unused =>
    intro c _
    refine ⟨rfl, rfl, fun name hname => ?_, fun k hk => ?_⟩
    · cases hname
    · cases hk

theorem coherent_invariant (cfg : Config) : (mutationSystem cfg W D).Invariant (Coherent cfg) where
  init _ := coherent_init
  step _ _ _ h := h.next

end Events

end QuickApi.Mutation
