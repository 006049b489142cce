/-
  QuickApi.Mutation.Coherence

  The invariant of the system: every mutation keeps its contract, and every
  connection is at the server what its holder may take it to be.  What one
  connection does leaves the others alone.
-/

import QuickApi.Mutation.Linking
import QuickApi.Mutation.RouteSpec
import QuickApi.Mutation.System

namespace QuickApi.Mutation

open QuickApi.Fingerprint (Text)
open QuickApi.Lib

variable {W D : Type} {cfg : Config}

-- ============================================================================
-- Mutations
-- ============================================================================

/-- How a job ends. -/
def Job.Finished (cfg : Config) (sessionKey : Bool) (context : Option Text) (job : Job W D)
    (g : Ghost W) (s : Local W) (r : Except Exc (Option Response)) : Prop :=
  match job with
  | .request req =>
      ∃ r', r = r'.map some ∧ Mutation.Finished cfg req sessionKey context g s r'
  | .sweep _ => g.seen.Later s.activity ∧ g.core.out = false ∧ s.session.bind = .engine

/-- A job keeps the contract to its end. -/
theorem Job.conforms (cfg : Config) (job : Job W D) (activity : RequestTimeout.RequestActivity)
    (sessionKey : Bool) (context : Option Text) :
    (job.program cfg (.arrive activity sessionKey context)).Conforms (contract cfg)
      ⟨activity, false, none, .init (job.role cfg) job.guarded⟩ (job.Finished cfg sessionKey context) := by
  cases job with
  | request req =>
      refine Coro.conforms_bind.mpr ((handle_conforms cfg req activity sessionKey context).mono ?_)
      rintro g s (e | response) h
      · exact ⟨.error e, rfl, h⟩
      · exact ⟨.ok response, rfl, h⟩
  | sweep limit =>
      refine Coro.conforms_bind.mpr
        ((sweepBatch_conforms cfg limit activity sessionKey context).mono ?_)
      rintro g s (e | n) h
      · exact h
      · exact h

/-- The sweep writes nothing of the domain. -/
def Core.Swept (core : Core W) : Prop :=
  core.role = .sweep → core.written = [] ∧ core.view.writes = []

/-- The mutation is where its contract takes it to be; nobody abandons it while it reads the
    clock. -/
structure Process.Keeps (cfg : Config) (p : Process W D) : Prop where
  conforms :
    p.tree.Conforms (contract cfg) p.ghost (p.job.Finished cfg p.sessionKey p.context)
  role : p.ghost.core.role = p.job.role cfg
  guarded : p.ghost.core.guarded = p.job.guarded
  swept : p.ghost.core.Swept
  later : p.tree.state.activity.Later p.activity
  reading : ∀ l k, p.tree = .call l .clock k → p.activity = l.activity
  outTaken : p.ghost.core.out = true → p.ghost.core.taken = true

/-- Its connection is its own, or an orphan once it is doomed. -/
structure Process.Attached (sv : Server W) (i : Nat) (p : Process W D) : Prop where
  out : p.ghost.core.out = true → ∃ c k, p.connection = some c ∧ sv.connections[c]? = some k ∧
    (p.ghost.core.doomed = false → k.holder = .mutation i) ∧
    (p.ghost.core.doomed = true → ∃ sent, k.holder = .orphan i sent)
  idle : p.ghost.core.out = false → p.connection = none

-- ============================================================================
-- Connections
-- ============================================================================

/-- What a mutation may have sent last. -/
def Process.Sent (cfg : Config) (p : Process W D) (st : Stmt W) : Prop :=
  ∃ fresh vars, st.Allowed cfg p.ghost.core fresh vars ∧
    (st = .commit → p.ghost.sent = vars.response)

/-- What a connection may be at the server, given its holder.  An orphan is as its mutation left
    it when it sent the statement that is still on its way. -/
def Connection.Fits (cfg : Config) (db : Database W) (ps : List (Process W D)) (c : Nat)
    (k : Connection W) : Prop :=
  (k.alive = false → Bare db c) ∧
    match k.holder with
    | .pool => Bare db c
    | .mutation i => ∃ p, ps[i]? = some p ∧ p.connection = some c ∧ p.ghost.core.out = true ∧
        p.ghost.core.doomed = false ∧
        (k.alive = true → Linked cfg db c p.ghost.core.role p.ghost.core.view)
    | .orphan i sent => ∃ p, ps[i]? = some p ∧ p.ghost.core.taken = true ∧
        (p.ghost.core.out = true → p.connection = some c ∧ p.ghost.core.doomed = true) ∧
        (k.alive = true → ∀ st, sent = some st →
          Linked cfg db c p.ghost.core.role p.ghost.core.view ∧ p.Sent cfg st)

/-- The invariant of the system. -/
structure Coherent (cfg : Config) (s : State W D) : Prop where
  records : Records cfg s.server.db
  keeps : ∀ (i : Nat) (p : Process W D), s.processes[i]? = some p → p.Keeps cfg
  attached : ∀ (i : Nat) (p : Process W D), s.processes[i]? = some p → p.Attached s.server i
  fits : ∀ (c : Nat) (k : Connection W), s.server.connections[c]? = some k →
    k.Fits cfg s.server.db s.processes c
  unused : ∀ c, s.server.connections.length ≤ c → Bare s.server.db c

section Fits

variable {db db' : Database W} {ps ps' : List (Process W D)} {c : Nat} {k : Connection W}

/-- The connection belongs to mutation `j`, if only as an orphan. -/
def Holder.Of (holder : Holder W) (j : Nat) : Prop :=
  holder = .mutation j ∨ ∃ sent, holder = .orphan j sent

theorem Holder.Of.eq {holder : Holder W} {i j : Nat} (h : holder.Of i) (h' : holder.Of j) :
    i = j := by
  rcases h with rfl | ⟨sent, rfl⟩
  · rcases h' with h' | ⟨_, h'⟩
    · exact Holder.mutation.inj h'
    · cases h'
  · rcases h' with h' | ⟨_, h'⟩
    · cases h'
    · exact (Holder.orphan.inj h').1

/-- The mutation has gone on without an effect on its connection. -/
structure Process.Same (p p' : Process W D) : Prop where
  connection : p'.connection = p.connection
  core : p'.ghost.core = p.ghost.core
  sent : p'.ghost.sent = p.ghost.sent

/-- What is allowed does not depend on whether the connection is still there. -/
theorem Stmt.Allowed.lost {st : Stmt W} {core : Core W} {fresh : Bool} {vars : Vars}
    (h : st.Allowed cfg core fresh vars) : st.Allowed cfg core.lost fresh vars := by
  cases st with
  | commit =>
      refine ⟨h.1, h.2.imp_right ?_⟩
      rintro ⟨hfresh, r, hr, hcommittable⟩
      exact ⟨hfresh, r, hr, { hcommittable with }⟩
  | _ => exact h

theorem Stmt.Allowed.closed {st : Stmt W} {core : Core W} {fresh : Bool} {vars : Vars}
    (h : st.Allowed cfg core fresh vars) : st.Allowed cfg core.closed fresh vars := by
  cases st with
  | commit =>
      refine ⟨h.1, h.2.imp_right ?_⟩
      rintro ⟨hfresh, r, hr, hcommittable⟩
      exact ⟨hfresh, r, hr, { hcommittable with }⟩
  | _ => exact h

theorem Process.Same.refl (p : Process W D) : p.Same p := ⟨rfl, rfl, rfl⟩

theorem Process.Same.sends {p p' : Process W D} (h : p.Same p') {st : Stmt W}
    (hsent : p.Sent cfg st) : p'.Sent cfg st := by
  unfold Process.Sent
  rw [h.core, h.sent]
  exact hsent

/-- A connection is as it was where nobody touches it. -/
theorem Connection.Fits.frame (h : k.Fits cfg db ps c) (hf : Frame c db db')
    (hps : ∀ i p, k.holder.Of i → ps[i]? = some p → ∃ p', ps'[i]? = some p' ∧ p.Same p') :
    k.Fits cfg db' ps' c := by
  obtain ⟨hdead, hholder⟩ := h
  refine ⟨fun ha => (hdead ha).frame hf, ?_⟩
  cases hk : k.holder with
  | pool =>
      rw [hk] at hholder
      exact hholder.frame hf
  | mutation i =>
      rw [hk] at hholder
      obtain ⟨p, hp, hconn, hout, hdoomed, hlinked⟩ := hholder
      obtain ⟨p', hp', hsame⟩ := hps i p (.inl hk) hp
      refine ⟨p', hp', hsame.connection.trans hconn, ?_, ?_, ?_⟩
      · rw [hsame.core]
        exact hout
      · rw [hsame.core]
        exact hdoomed
      · rw [hsame.core]
        exact fun ha => (hlinked ha).frame hf
  | orphan i sent =>
      rw [hk] at hholder
      obtain ⟨p, hp, htaken, hout, hsent⟩ := hholder
      obtain ⟨p', hp', hsame⟩ := hps i p (.inr ⟨sent, hk⟩) hp
      refine ⟨p', hp', ?_, ?_, fun ha st hst => ?_⟩
      · rw [hsame.core]
        exact htaken
      · rw [hsame.core, hsame.connection]
        exact hout
      · obtain ⟨hlinked, hst'⟩ := hsent ha st hst
        rw [hsame.core]
        exact ⟨hlinked.frame hf, hsame.sends hst'⟩

end Fits

-- ============================================================================
-- Statements on a connection
-- ============================================================================

section Statements

variable {db db' : Database W} {c : Nat} {core : Core W} {fresh : Bool} {vars : Vars}

/-- What a commit makes durable can be replayed. -/
theorem Linked.commit_replayable (h : Linked cfg db c core.role core.view)
    (hallowed : Stmt.commit.Allowed cfg core fresh vars) {k : Text} {r : IdempotencyORM}
    (howner : db.rows.owner k = some c) (hchanged : db.rows.latest k ≠ db.rows.committed k)
    (hr : db.rows.latest k = some r) : Replayable cfg r := by
  cases hclaim : core.view.claim with
  | none =>
      rcases h.unclaimed hclaim k howner with hsame | ⟨hnone, -⟩
      · exact absurd hsame hchanged
      · rw [hr] at hnone
        cases hnone
  | some claim =>
      obtain ⟨hrole, -, -, -, row, hrow, hclaimRow⟩ := h.claimed claim hclaim
      have hscope : claim.record.scopeHash = k := by
        rcases h.owned k howner with hsweep | hkeyed
        · rw [hsweep] at hrole
          cases hrole
        · exact Option.some.inj (Role.keyed.inj (hrole.symm.trans hkeyed))
      rw [hscope] at hrow
      obtain rfl := Option.some.inj (hrow.symm.trans hr)
      rcases hallowed.2 with hsweep | ⟨-, response, -, hcommittable⟩
      · rw [hsweep] at hrole
        cases hrole
      · have hresponse := hcommittable.claimed claim hclaim
        rcases hclaimRow with ⟨hnone, -⟩ | ⟨status, body, t, -, -, rfl, hvalid⟩
        · rw [hresponse] at hnone
          cases hnone
        · exact .of_complete hvalid claim.record t

/-- An allowed statement keeps the records in order. -/
theorem Records.execute (h : Records cfg db) (hlinked : Linked cfg db c core.role core.view)
    {st : Stmt W} {a : Answer D} {value : st.Value D} (hallowed : st.Allowed cfg core fresh vars)
    (hex : db.execute c st a = some (value, db')) : Records cfg db' := by
  by_cases hst : st = .commit
  · subst hst
    cases a
    case done =>
      obtain rfl := congrArg Prod.snd (Option.some.inj hex)
      exact h.commit fun k r howner hchanged hr =>
        hlinked.commit_replayable hallowed howner hchanged hr
    all_goals cases hex
  · exact (effects_execute hst hex).records h

end Statements

namespace Server

variable {sv sv' : Server W} {i c : Nat}

/-- Executing a statement changes the database and the history only. -/
theorem execute_eq_some {st : Stmt W} {a : Answer D} {value : st.Value D}
    (h : sv.execute i c st a = some (value, sv')) :
    sv.db.execute c st a = some (value, sv'.db) ∧ sv'.connections = sv.connections := by
  obtain ⟨⟨value', db'⟩, hex, heq⟩ := Option.map_eq_some_iff.mp h
  obtain ⟨rfl, rfl⟩ := Prod.mk.inj heq
  cases st <;> exact ⟨hex, rfl⟩

/-- What an operation of mutation `i` on the connection `conn` can come to: its answer, the
    connection behind it and the server. -/
inductive Performed (sv : Server W) (i : Nat) (conn : Option Nat) :
    (op : Op W) → op.Ans D → Option Nat → Server W → Prop where
  | clock : Performed sv i conn .clock sv.monotonic conn sv
  | checkout {c : Nat} {sv' : Server W} (h : sv.checkout i c = some sv') :
      Performed sv i conn .checkout (Reply.ok ()) (some c) sv'
  | refused (r : Reply Unit) (h : r ≠ .ok ()) : Performed sv i conn .checkout r conn sv
  | stmt {c : Nat} {k : Connection W} {st : Stmt W} {a : Answer D} {r : Reply (st.Value D)}
      {sv' : Server W} (hc : conn = some c) (hk : sv.connections[c]? = some k)
      (hholder : ∃ j, k.holder = .mutation j) (h : sv.exchange i c st k a = some (r, sv')) : Performed sv i conn (.stmt st) r (some c) sv'
  | invalidate {c : Nat} {k : Connection W} (hc : conn = some c)
      (hk : sv.connections[c]? = some k) (r : Reply Unit) :
      Performed sv i conn .invalidate r (some c) (sv.invalidate c k)
  | close {c : Nat} {k : Connection W} (hc : conn = some c) (hk : sv.connections[c]? = some k)
      (r : Reply Unit) : Performed sv i conn .close r none (sv.release c k)
  | pause (r : Reply D) : Performed sv i conn .pause r conn sv

theorem performed {conn conn' : Option Nat} {op : Op W} {a : Answer D} {v : op.Ans D}
    (h : sv.perform i conn op a = some (v, conn', sv')) : sv.Performed i conn op v conn' sv' := by
  unfold perform at h
  split at h
  · cases Option.some.inj h
    exact .clock
  · obtain ⟨sv'', hcheckout, heq⟩ := Option.map_eq_some_iff.mp h
    cases heq
    exact .checkout hcheckout
  · cases Option.some.inj h
    exact .refused _ nofun
  · cases Option.some.inj h
    exact .refused _ nofun
  · obtain ⟨c, hc, h⟩ := Option.bind_eq_some_iff.mp h
    obtain ⟨k, hk, h⟩ := Option.bind_eq_some_iff.mp h
    split at h
    · next j hholder =>
        obtain ⟨⟨r, sv''⟩, hexchange, heq⟩ := Option.map_eq_some_iff.mp h
        cases heq
        exact .stmt hc hk ⟨j, hholder⟩ hexchange
    · cases h
  · obtain ⟨c, hc, h⟩ := Option.bind_eq_some_iff.mp h
    obtain ⟨k, hk, h⟩ := Option.bind_eq_some_iff.mp h
    obtain ⟨r, -, h⟩ := Option.bind_eq_some_iff.mp h
    cases Option.some.inj h
    exact .invalidate hc hk _
  · obtain ⟨c, hc, h⟩ := Option.bind_eq_some_iff.mp h
    obtain ⟨k, hk, h⟩ := Option.bind_eq_some_iff.mp h
    obtain ⟨r, -, h⟩ := Option.bind_eq_some_iff.mp h
    cases Option.some.inj h
    exact .close hc hk _
  · cases Option.some.inj h
    exact .pause _
  · cases Option.some.inj h
    exact .pause _
  · cases Option.some.inj h
    exact .pause _
  · cases h

end Server

-- ============================================================================
-- What an event does
-- ============================================================================

/-- What an event that is enabled leads to. -/
inductive State.Stepped (cfg : Config) (s : State W D) : Event W D → State W D → Prop where
  | arrive (job : Job W D) (activity : RequestTimeout.RequestActivity) (sessionKey : Bool)
      (context : Option Text) :
      s.Stepped cfg (.arrive job activity sessionKey context)
        { s with
          processes := s.processes ++ [Process.start cfg job activity sessionKey context] }
  | pass {elapsed : ℚ} (milliseconds : Nat) (h : 0 ≤ elapsed) :
      s.Stepped cfg (.pass elapsed milliseconds) (s.pass elapsed milliseconds)
  | abandon {i : Nat} {p p' : Process W D} {reason : String} (hp : s.processes[i]? = some p)
      (h : p.abandon reason = some p') : s.Stepped cfg (.abandon i reason) (s.setProcess i p')
  | resume {i : Nat} {p : Process W D} {l : Local W} {op : Op W}
      {kont : op.Ans D → Local W → Coro (Op W) (Op.Ans D) (Local W) (Except Exc (Option Response))}
      {a : Answer D} {v : op.Ans D} {conn' : Option Nat} {server' : Server W}
      (hp : s.processes[i]? = some p) (htree : p.tree = .call l op kont)
      (hperformed : s.server.Performed i p.connection op v conn' server') :
      s.Stepped cfg (.resume i a)
        ⟨server', s.processes.set i (p.resume op v { l with activity := p.activity }
          (kont v { l with activity := p.activity }) conn')⟩
  | late {c : Nat} {k : Connection W} {i : Nat} {st : Stmt W} {a : Answer D} {v : st.Value D}
      {sv' : Server W} (hk : s.server.connections[c]? = some k)
      (hholder : k.holder = .orphan i (some st)) (halive : k.alive = true)
      (hex : s.server.execute i c st a = some (v, sv')) :
      s.Stepped cfg (.late c a)
        { s with server := sv'.setConnection c { k with holder := .orphan i none } }
  | drop {c : Nat} {k : Connection W} (hk : s.server.connections[c]? = some k) :
      s.Stepped cfg (.drop c)
        { s with
          server := (s.server.setConnection c { k with alive := false }).setDatabase
            (s.server.db.drop c) }

theorem State.stepped {s s' : State W D} {e : Event W D} (h : s.next cfg e = some s') :
    s.Stepped cfg e s' := by
  cases e with
  | arrive job activity sessionKey context =>
      obtain rfl := Option.some.inj h
      exact .arrive job activity sessionKey context
  | pass elapsed milliseconds =>
      obtain ⟨hpos, heq⟩ := Option.ite_none_right_eq_some.mp h
      obtain rfl := Option.some.inj heq
      exact .pass milliseconds hpos
  | abandon i reason =>
      obtain ⟨p, hp, h⟩ := Option.bind_eq_some_iff.mp h
      obtain ⟨p', habandon, rfl⟩ := Option.map_eq_some_iff.mp h
      exact .abandon hp habandon
  | resume i a =>
      obtain ⟨p, hp, h⟩ := Option.bind_eq_some_iff.mp h
      unfold State.resume at h
      split at h
      · cases h
      · next l op kont htree =>
          obtain ⟨⟨v, connection, sv⟩, hperform, rfl⟩ := Option.map_eq_some_iff.mp h
          exact .resume hp htree (Server.performed hperform)
  | late c a =>
      obtain ⟨sv, hlate, rfl⟩ := Option.map_eq_some_iff.mp h
      obtain ⟨k, hk, hlate⟩ := Option.bind_eq_some_iff.mp hlate
      split at hlate
      · next i st hholder halive =>
          obtain ⟨⟨v, sv'⟩, hex, rfl⟩ := Option.map_eq_some_iff.mp hlate
          exact .late hk hholder halive hex
      · cases hlate
  | drop c =>
      obtain ⟨sv, hdrop, rfl⟩ := Option.map_eq_some_iff.mp h
      obtain ⟨k, hk, heq⟩ := Option.bind_eq_some_iff.mp hdrop
      obtain rfl := Option.some.inj heq
      exact .drop hk

-- ============================================================================
-- Steps of one mutation
-- ============================================================================

theorem set_of_getElem?_eq_some {α : Type} {l : List α} {n : Nat} {a : α} (h : l[n]? = some a) :
    l.set n a = l := by
  obtain ⟨hn, rfl⟩ := List.getElem?_eq_some_iff.mp h
  exact List.set_getElem_self hn

section Steps

variable {s : State W D} {i c : Nat} {p p' : Process W D} {server' : Server W}
  {k k' : Connection W}

/-- The connection of a mutation belongs to it. -/
theorem Process.Attached.of (h : p.Attached s.server i) (hout : p.ghost.core.out = true) :
    ∃ c k, p.connection = some c ∧ s.server.connections[c]? = some k ∧ k.holder.Of i ∧
      (p.ghost.core.doomed = false → k.holder = .mutation i) := by
  obtain ⟨c, k, hc, hk, hmine, horphan⟩ := h.out hout
  refine ⟨c, k, hc, hk, ?_, hmine⟩
  cases hd : p.ghost.core.doomed with
  | false => exact .inl (hmine hd)
  | true => exact .inr (horphan hd)

/-- A mutation that is attached stays so where the connections it has are the same. -/
theorem Process.Attached.keep (h : p.Attached s.server i)
    (hkept : ∀ (d : Nat) (k : Connection W), s.server.connections[d]? = some k → k.holder.Of i →
      server'.connections[d]? = some k) : p.Attached server' i where
  out hout := by
    obtain ⟨c, k, hc, hk, hof, -⟩ := h.of hout
    obtain ⟨c', k', hc', hk', hmine, horphan⟩ := h.out hout
    obtain rfl := Option.some.inj (hc.symm.trans hc')
    obtain rfl := Option.some.inj (hk.symm.trans hk')
    exact ⟨c, k, hc, hkept c k hk hof, hmine, horphan⟩
  idle := h.idle

/-- Mutation `i` goes on: the connections of others are the same, each other connection is as it
    was or fits again. -/
theorem Coherent.resumed (h : Coherent cfg s) (hp : s.processes[i]? = some p)
    (hkeeps : p'.Keeps cfg) (hattached : p'.Attached server' i)
    (hrecords : Records cfg server'.db)
    (hkept : ∀ (d : Nat) (k : Connection W) (j : Nat), j ≠ i → s.server.connections[d]? = some k →
      k.holder.Of j → server'.connections[d]? = some k)
    (hfits : ∀ (d : Nat) (k : Connection W), server'.connections[d]? = some k →
      (s.server.connections[d]? = some k ∧ Frame d s.server.db server'.db ∧
        (k.holder.Of i → p.Same p')) ∨
      k.Fits cfg server'.db (s.processes.set i p') d)
    (hunused : ∀ d, server'.connections.length ≤ d → Bare server'.db d) :
    Coherent cfg ⟨server', s.processes.set i p'⟩ := by
  have hi : i < s.processes.length := (List.getElem?_eq_some_iff.mp hp).1
  constructor
  case records => exact hrecords
  case keeps =>
    intro j q hq
    rw [List.getElem?_set] at hq
    split at hq
    · exact Option.some.inj hq ▸ hkeeps
    · exact h.keeps j q hq
  case attached =>
    intro j q hq
    rw [List.getElem?_set] at hq
    split at hq
    · next hij =>
        exact hij ▸ Option.some.inj hq ▸ hattached
    · next hij =>
        exact (h.attached j q hq).keep fun d k hk hof => hkept d k j (Ne.symm hij) hk hof
  case fits =>
    intro d k hk
    rcases hfits d k hk with ⟨hold, hframe, hsame⟩ | hnew
    · refine (h.fits d k hold).frame hframe fun j q hj hq => ?_
      by_cases hij : i = j
      · subst hij
        obtain rfl := Option.some.inj (hp.symm.trans hq)
        exact ⟨p', List.getElem?_set_self hi, hsame hj⟩
      · exact ⟨q, (List.getElem?_set_ne hij).trans hq, .refl q⟩
    · exact hnew
  case unused => exact hunused

/-- Mutation `i` goes on and nothing happens at the server. -/
theorem Coherent.thought (h : Coherent cfg s) (hp : s.processes[i]? = some p)
    (hkeeps : p'.Keeps cfg) (hsame : p.Same p') :
    Coherent cfg ⟨s.server, s.processes.set i p'⟩ := by
  refine h.resumed hp hkeeps ?_ h.records (fun _ _ _ _ hk _ => hk) (fun d k hk => ?_) h.unused
  · have hold := h.attached i p hp
    constructor
    · rw [hsame.connection, hsame.core]
      exact hold.out
    · rw [hsame.connection, hsame.core]
      exact hold.idle
  · exact .inl ⟨hk, .refl d _, fun _ => hsame⟩

/-- A mutation that has a connection has no other. -/
theorem Coherent.connection_of (h : Coherent cfg s) (hp : s.processes[i]? = some p)
    (hout : p.ghost.core.out = true) {d : Nat} (hk : s.server.connections[d]? = some k)
    (hof : k.holder.Of i) : p.connection = some d := by
  have hfits := (h.fits d k hk).2
  rcases hof with hholder | ⟨sent, hholder⟩
  · rw [hholder] at hfits
    obtain ⟨q, hq, hconn, -⟩ := hfits
    obtain rfl := Option.some.inj (hp.symm.trans hq)
    exact hconn
  · rw [hholder] at hfits
    obtain ⟨q, hq, -, hconn, -⟩ := hfits
    obtain rfl := Option.some.inj (hp.symm.trans hq)
    exact (hconn hout).1

/-- Mutation `i` goes on behind an operation on its connection `c`. -/
theorem Coherent.worked (h : Coherent cfg s) (hp : s.processes[i]? = some p)
    (hout : p.ghost.core.out = true) (hc : p.connection = some c)
    (hk : s.server.connections[c]? = some k) (hof : k.holder.Of i) (hkeeps : p'.Keeps cfg) (hattached : p'.Attached server' i)
    (hrecords : Records cfg server'.db)
    (hconnections : server'.connections = s.server.connections.set c k')
    (hframe : ∀ d, d ≠ c → Frame d s.server.db server'.db)
    (hfits : k'.Fits cfg server'.db (s.processes.set i p') c) :
    Coherent cfg ⟨server', s.processes.set i p'⟩ := by
  have hlt : c < s.server.connections.length := (List.getElem?_eq_some_iff.mp hk).1
  refine h.resumed hp hkeeps hattached hrecords (fun d kd j hj hd hofj => ?_) (fun d kd hd => ?_)
    fun d hd => ?_
  · have hne : c ≠ d := by
      rintro rfl
      obtain rfl := Option.some.inj (hk.symm.trans hd)
      exact hj (hofj.eq hof)
    rw [hconnections, List.getElem?_set_ne hne]
    exact hd
  · rw [hconnections] at hd
    by_cases hcd : c = d
    · subst hcd
      rw [List.getElem?_set_self hlt] at hd
      exact .inr (Option.some.inj hd ▸ hfits)
    · rw [List.getElem?_set_ne hcd] at hd
      refine .inl ⟨hd, hframe d (Ne.symm hcd), fun hmine => ?_⟩
      -- Another connection of the mutation would be this one.
      have hconn := h.connection_of hp hout hd hmine
      exact absurd (Option.some.inj (hc.symm.trans hconn)) hcd
  · rw [hconnections, List.length_set] at hd
    exact (h.unused d hd).frame (hframe d (by omega))

end Steps

end QuickApi.Mutation
