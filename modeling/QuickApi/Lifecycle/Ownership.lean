/-
  QuickApi.Lifecycle.Ownership

  Sequential runs of the handler: what it has started is what it stops, in
  reverse order, whatever fails.  Each round of each loop keeps the account of
  the log (`Accounts`); the flags are settled at the end of each call
  (`Settled`).
-/

import Mathlib.Data.List.Induction
import Mathlib.Data.List.Nodup
import QuickApi.Lib.StackLog
import QuickApi.Lifecycle.Handler

namespace QuickApi.Lifecycle

open QuickApi.Lib

-- ============================================================================
-- What the log says
-- ============================================================================

/-- The last `start` of `s` succeeded, and `s.stop` has not been invoked since. -/
def LastStartHolds (log : List Invocation) (s : LifecycleService) : Prop :=
  ∃ before after, log = before ++ .start s true :: after ∧
    ∀ ok, Invocation.start s ok ∉ after ∧ Invocation.stop s ok ∉ after

theorem lastStartHolds_snoc {log : List Invocation} {i : Invocation} {s : LifecycleService} :
    LastStartHolds (log ++ [i]) s ↔
      i = .start s true ∨
        LastStartHolds log s ∧ ∀ ok, i ≠ .start s ok ∧ i ≠ .stop s ok := by
  constructor
  · rintro ⟨before, after, hlog, hafter⟩
    rcases after.eq_nil_or_concat with rfl | ⟨after, j, rfl⟩
    · left
      exact (List.append_inj' hlog rfl).2 |> List.cons.inj |>.1
    · right
      rw [List.concat_eq_append, ← List.cons_append, ← List.append_assoc] at hlog
      obtain ⟨rfl, hj⟩ := List.append_inj' hlog rfl
      obtain rfl := (List.cons.inj hj).1
      refine ⟨⟨before, after, rfl, fun ok => ?_⟩, fun ok => ?_⟩
      · have h := hafter ok
        simp only [List.concat_eq_append, List.mem_append, not_or] at h
        exact ⟨h.1.1, h.2.1⟩
      · have h := hafter ok
        simp only [List.concat_eq_append, List.mem_append, List.mem_singleton, not_or] at h
        exact ⟨Ne.symm h.1.2, Ne.symm h.2.2⟩
  · rintro (rfl | ⟨⟨before, after, rfl, hafter⟩, hi⟩)
    · exact ⟨log, [], rfl, fun ok => ⟨List.not_mem_nil, List.not_mem_nil⟩⟩
    · refine ⟨before, after ++ [i], by simp, fun ok => ?_⟩
      simp only [List.mem_append, List.mem_singleton, not_or]
      exact ⟨⟨(hafter ok).1, Ne.symm (hi ok).1⟩, (hafter ok).2, Ne.symm (hi ok).2⟩

/-- A successful start pushes its service, a stop pops it, whether or not it fails. -/
def Invocation.stackOp : Invocation → Option (StackOp LifecycleService)
  | .start s true => some (.push s)
  | .stop s _ => some (.pop s)
  | _ => none

namespace LifecycleHandler

/-- The started services are those the log accounts for. -/
structure Accounts (h : LifecycleHandler) : Prop where
  names : ∀ n, n ∈ h.serviceNames ↔ n ∈ h.services.map LifecycleService.name
  distinct : (h.services.map LifecycleService.name).Nodup
  started : h.startedServices <+: h.services
  stack : StackOp.replay [] (h.log.filterMap Invocation.stackOp) = some h.startedServices
  held : ∀ s, s ∈ h.startedServices ↔ LastStartHolds h.log s

/-- What the flags say between two calls. -/
structure Settled (h : LifecycleHandler) : Prop extends Accounts h where
  idle : h.startupStarted = false → h.startedServices = []
  completed : h.startupCompleted = true → h.startupStarted = true
  shut : h.shutdownStarted = true → h.startupStarted = false

theorem settled_new : Settled new where
  names := by simp [new]
  distinct := by simp [new]
  started := List.prefix_refl _
  stack := rfl
  held s := by
    refine ⟨nofun, ?_⟩
    rintro ⟨before, after, hlog, -⟩
    simp [new] at hlog
  idle _ := rfl
  completed := nofun
  shut := nofun

variable {b : Behaviour} {h : LifecycleHandler}

/-- The started services are distinct, being among the registered ones. -/
theorem Accounts.nodup (ha : Accounts h) : h.startedServices.Nodup :=
  (List.Nodup.of_map _ ha.distinct).sublist ha.started.sublist

-- ============================================================================
-- register
-- ============================================================================

theorem Accounts.registerService (ha : Accounts h) (s : LifecycleService) :
    Accounts (h.registerService s) := by
  unfold LifecycleHandler.registerService
  split
  · exact ha
  · next hs =>
    refine ⟨fun n => ?_, ?_, ha.started.trans (List.prefix_append _ _), ha.stack, ha.held⟩
    · simp only [List.mem_cons, ha.names, List.map_append, List.map_cons, List.map_nil,
        List.mem_append, List.not_mem_nil, or_false]
      exact or_comm
    · rw [ha.names] at hs
      rw [List.map_append, List.nodup_append]
      refine ⟨ha.distinct, by simp, ?_⟩
      intro n hn m hm hnm
      obtain rfl : m = s.name := by simpa using hm
      exact hs (hnm ▸ hn)

/-- Registering calls no service and changes no flag. -/
structure Registered (h h' : LifecycleHandler) : Prop where
  services : h.services <+: h'.services
  startedServices : h'.startedServices = h.startedServices
  startupStarted : h'.startupStarted = h.startupStarted
  startupCompleted : h'.startupCompleted = h.startupCompleted
  shutdownStarted : h'.shutdownStarted = h.shutdownStarted
  quiescing : h'.quiescing = h.quiescing
  log : h'.log = h.log

theorem registered_registerService (h : LifecycleHandler) (s : LifecycleService) :
    Registered h (h.registerService s) := by
  unfold LifecycleHandler.registerService
  split
  · exact ⟨List.prefix_refl _, rfl, rfl, rfl, rfl, rfl, rfl⟩
  · exact ⟨List.prefix_append _ _, rfl, rfl, rfl, rfl, rfl, rfl⟩

theorem Registered.trans {h h' h'' : LifecycleHandler} (hr : Registered h h')
    (hr' : Registered h' h'') : Registered h h'' where
  services := hr.services.trans hr'.services
  startedServices := hr'.startedServices.trans hr.startedServices
  startupStarted := hr'.startupStarted.trans hr.startupStarted
  startupCompleted := hr'.startupCompleted.trans hr.startupCompleted
  shutdownStarted := hr'.shutdownStarted.trans hr.shutdownStarted
  quiescing := hr'.quiescing.trans hr.quiescing
  log := hr'.log.trans hr.log

theorem registered_register (h : LifecycleHandler) (services : List LifecycleService) :
    Registered h (h.register services) := by
  unfold register
  induction services generalizing h with
  | nil => exact ⟨List.prefix_refl _, rfl, rfl, rfl, rfl, rfl, rfl⟩
  | cons s rest ih => exact (registered_registerService h s).trans (ih _)

theorem Accounts.register (ha : Accounts h) (services : List LifecycleService) :
    Accounts (h.register services) := by
  unfold LifecycleHandler.register
  induction services generalizing h with
  | nil => exact ha
  | cons s rest ih => exact ih (ha.registerService s)

theorem Settled.register (hs : Settled h) (services : List LifecycleService) :
    Settled (h.register services) := by
  have hr := registered_register h services
  refine ⟨hs.toAccounts.register services, ?_, ?_, ?_⟩
  · rw [hr.startupStarted, hr.startedServices]
    exact hs.idle
  · rw [hr.startupStarted, hr.startupCompleted]
    exact hs.completed
  · rw [hr.startupStarted, hr.shutdownStarted]
    exact hs.shut

-- ============================================================================
-- quiesce
-- ============================================================================

/-- Quiescing services touches only the log and `shutdown_failed`. -/
structure QuiescedFrom (h h' : LifecycleHandler) : Prop where
  services : h'.services = h.services
  startedServices : h'.startedServices = h.startedServices
  startupStarted : h'.startupStarted = h.startupStarted
  startupCompleted : h'.startupCompleted = h.startupCompleted
  shutdownStarted : h'.shutdownStarted = h.shutdownStarted
  quiescing : h'.quiescing = h.quiescing
  accounts : Accounts h → Accounts h'

theorem quiescedFrom_quiesceService (b : Behaviour) (h : LifecycleHandler)
    (s : LifecycleService) : QuiescedFrom h (h.quiesceService b s) := by
  unfold quiesceService
  split
  · refine ⟨rfl, rfl, rfl, rfl, rfl, rfl, fun ha => ⟨ha.names, ha.distinct, ha.started, ?_, ?_⟩⟩
    · simp only [List.filterMap_append, List.filterMap_cons, List.filterMap_nil,
        Invocation.stackOp, List.append_nil]
      exact ha.stack
    · intro s'
      rw [lastStartHolds_snoc, ha.held]
      simp
  · exact ⟨rfl, rfl, rfl, rfl, rfl, rfl, fun ha => ha⟩

theorem quiescedFrom_foldl (b : Behaviour) (h : LifecycleHandler)
    (services : List LifecycleService) :
    QuiescedFrom h (services.foldl (quiesceService b) h) := by
  induction services generalizing h with
  | nil => exact ⟨rfl, rfl, rfl, rfl, rfl, rfl, fun ha => ha⟩
  | cons s rest ih =>
      have h₁ := quiescedFrom_quiesceService b h s
      have h₂ := ih (h.quiesceService b s)
      exact ⟨h₂.services.trans h₁.services, h₂.startedServices.trans h₁.startedServices,
        h₂.startupStarted.trans h₁.startupStarted,
        h₂.startupCompleted.trans h₁.startupCompleted,
        h₂.shutdownStarted.trans h₁.shutdownStarted, h₂.quiescing.trans h₁.quiescing,
        fun ha => h₂.accounts (h₁.accounts ha)⟩

/-- `quiesce` leaves everything but the log and the two flags it sets as it was. -/
theorem quiesce_spec (b : Behaviour) (h : LifecycleHandler) :
    QuiescedFrom { h with quiescing := true } (h.quiesce b) :=
  quiescedFrom_foldl b _ _

theorem Accounts.quiesce (ha : Accounts h) (b : Behaviour) : Accounts (h.quiesce b) :=
  (quiesce_spec b h).accounts { ha with }

theorem Settled.quiesce (hs : Settled h) (b : Behaviour) : Settled (h.quiesce b) := by
  have hq := quiesce_spec b h
  refine ⟨hs.toAccounts.quiesce b, ?_, ?_, ?_⟩
  · rw [hq.startupStarted, hq.startedServices]
    exact hs.idle
  · rw [hq.startupStarted, hq.startupCompleted]
    exact hs.completed
  · rw [hq.startupStarted, hq.shutdownStarted]
    exact hs.shut

-- ============================================================================
-- _stop_started_services
-- ============================================================================

theorem Accounts.stopService (ha : Accounts h) {s : LifecycleService}
    (hlast : h.startedServices.getLast? = some s) (b : Behaviour) :
    Accounts (h.stopService b s) where
  names := ha.names
  distinct := ha.distinct
  started := (List.dropLast_prefix _).trans ha.started
  stack := by
    simp only [LifecycleHandler.stopService, List.filterMap_append, List.filterMap_cons,
      List.filterMap_nil, Invocation.stackOp]
    exact StackOp.replay_pop ha.stack hlast
  held s' := by
    have hsplit := List.dropLast_append_getLast? s hlast
    have hnodup := ha.nodup
    rw [← hsplit, List.nodup_append] at hnodup
    simp only [LifecycleHandler.stopService]
    rw [lastStartHolds_snoc, ← ha.held, ← hsplit]
    simp only [List.dropLast_concat, List.mem_append, List.mem_singleton, ne_eq, reduceCtorEq,
      not_false_eq_true, true_and, false_or]
    constructor
    · intro hs'
      refine ⟨Or.inl hs', fun ok heq => ?_⟩
      obtain rfl := (Invocation.stop.inj heq).1
      exact hnodup.2.2 s hs' s (List.mem_singleton_self s) rfl
    · rintro ⟨hs' | rfl, hne⟩
      · exact hs'
      · exact absurd rfl (hne (b.stops s'))

/-- The loop ends with no service started, whatever fails. -/
theorem stopRounds_spec (b : Behaviour) (n : Nat) (ha : Accounts h)
    (hn : h.startedServices.length = n) :
    Accounts (stopRounds b n h) ∧ (stopRounds b n h).startedServices = [] := by
  induction n generalizing h with
  | zero => exact ⟨ha, List.length_eq_zero_iff.mp hn⟩
  | succ n ih =>
      rw [stopRounds]
      cases hlast : h.startedServices.getLast? with
      | none =>
          rw [List.getLast?_eq_none_iff] at hlast
          rw [hlast] at hn
          cases hn
      | some s =>
          refine ih (ha.stopService hlast b) ?_
          simp only [LifecycleHandler.stopService, List.length_dropLast, hn]
          rfl

/-- `_stop_started_services` invokes nothing but stops. -/
theorem stopRounds_frame (b : Behaviour) (n : Nat) (h : LifecycleHandler) :
    (stopRounds b n h).shutdownStarted = h.shutdownStarted ∧
      (stopRounds b n h).startupCompleted = h.startupCompleted := by
  induction n generalizing h with
  | zero => exact ⟨rfl, rfl⟩
  | succ n ih =>
      rw [stopRounds]
      split
      · exact ⟨rfl, rfl⟩
      · exact ih _

theorem stopStartedServices_spec (b : Behaviour) (ha : Accounts h) :
    Accounts (h.stopStartedServices b) ∧ (h.stopStartedServices b).startedServices = [] :=
  stopRounds_spec b _ ha rfl

-- ============================================================================
-- startup
-- ============================================================================

theorem Accounts.serviceStarted (ha : Accounts h) {s : LifecycleService}
    {rest : List LifecycleService} (hrest : h.startedServices ++ s :: rest = h.services) :
    Accounts (h.serviceStarted s) where
  names := ha.names
  distinct := ha.distinct
  started := by
    refine ⟨rest, ?_⟩
    show h.startedServices ++ [s] ++ rest = h.services
    rw [← hrest, List.append_assoc, List.singleton_append]
  stack := by
    simp only [LifecycleHandler.serviceStarted, List.filterMap_append, List.filterMap_cons,
      List.filterMap_nil, Invocation.stackOp]
    exact StackOp.replay_push s ha.stack
  held s' := by
    simp only [LifecycleHandler.serviceStarted]
    rw [lastStartHolds_snoc, ← ha.held, List.mem_append, List.mem_singleton]
    simp only [Invocation.start.injEq, and_true, ne_eq, reduceCtorEq, not_false_eq_true]
    constructor
    · rintro (hs' | rfl)
      · by_cases heq : s = s'
        · exact Or.inl heq
        · exact Or.inr ⟨hs', fun ok h => heq h.1⟩
      · exact Or.inl rfl
    · rintro (rfl | ⟨hs', -⟩)
      · exact Or.inr rfl
      · exact Or.inl hs'

theorem Accounts.serviceFailed (ha : Accounts h) {s : LifecycleService}
    {rest : List LifecycleService} (hrest : h.startedServices ++ s :: rest = h.services) :
    Accounts (h.serviceFailed s) where
  names := ha.names
  distinct := ha.distinct
  started := ha.started
  stack := by
    simp only [LifecycleHandler.serviceFailed, List.filterMap_append, List.filterMap_cons,
      List.filterMap_nil, Invocation.stackOp, List.append_nil]
    exact ha.stack
  held s' := by
    -- The service that fails is not among those that have started.
    have hnew : s ∉ h.startedServices := by
      have hnodup := List.Nodup.of_map _ ha.distinct
      rw [← hrest, List.nodup_append] at hnodup
      exact fun hs => hnodup.2.2 s hs s List.mem_cons_self rfl
    simp only [LifecycleHandler.serviceFailed]
    rw [lastStartHolds_snoc, ← ha.held]
    simp only [Invocation.start.injEq, Bool.false_eq_true, and_false, ne_eq, reduceCtorEq,
      not_false_eq_true, and_true, false_or]
    constructor
    · intro hs'
      refine ⟨hs', fun ok heq => ?_⟩
      exact hnew (heq.1 ▸ hs')
    · exact fun hs' => hs'.1

/-- The loop of `startup` over the services still to start: if none fails, all of them are
    started behind it. -/
theorem startLoop_spec (b : Behaviour) (rest : List LifecycleService) (ha : Accounts h)
    (hrest : h.startedServices ++ rest = h.services) :
    Accounts (startLoop b rest h).2 ∧
      ((startLoop b rest h).1 = true →
        (startLoop b rest h).2.startedServices = (startLoop b rest h).2.services) := by
  induction rest generalizing h with
  | nil =>
      rw [List.append_nil] at hrest
      exact ⟨ha, fun _ => hrest⟩
  | cons s rest ih =>
      rw [startLoop]
      split
      · refine ih (ha.serviceStarted hrest) ?_
        show h.startedServices ++ [s] ++ rest = h.services
        rw [← hrest, List.append_assoc, List.singleton_append]
      · exact ⟨ha.serviceFailed hrest, nofun⟩

/-- The loop of `startup` changes neither the flags nor the registered services. -/
theorem startLoop_frame (b : Behaviour) (rest : List LifecycleService) (h : LifecycleHandler) :
    (startLoop b rest h).2.services = h.services ∧
      (startLoop b rest h).2.startupStarted = h.startupStarted ∧
      (startLoop b rest h).2.startupCompleted = h.startupCompleted ∧
      (startLoop b rest h).2.shutdownStarted = h.shutdownStarted := by
  induction rest generalizing h with
  | nil => exact ⟨rfl, rfl, rfl, rfl⟩
  | cons s rest ih =>
      rw [startLoop]
      split
      · exact ih _
      · exact ⟨rfl, rfl, rfl, rfl⟩

/-- Clearing the list of started services clears nothing. -/
theorem Settled.beginStartup (hs : Settled h) (hrun : h.startupStarted = false) :
    Accounts h.beginStartup := by
  have hnil := hs.idle hrun
  refine ⟨hs.names, hs.distinct, List.nil_prefix, ?_, ?_⟩
  · exact hs.stack.trans (congrArg some hnil)
  · show ∀ s, s ∈ [] ↔ LastStartHolds h.log s
    rw [← hnil]
    exact hs.held

theorem startup_running (b : Behaviour) (h : LifecycleHandler) (hrun : h.startupStarted = true) :
    h.startup b = (true, h) := if_pos hrun

/-- What a startup that runs leads to. -/
structure StartedUp (h : LifecycleHandler) (r : Bool × LifecycleHandler) : Prop where
  settled : Settled r.2
  succeeded : r.1 = true → r.2.startedServices = h.services ∧ r.2.startupStarted = true
  failed : r.1 = false → r.2.startedServices = [] ∧ r.2.startupCompleted = false

theorem startup_spec (b : Behaviour) (hs : Settled h) (hrun : h.startupStarted = false) :
    StartedUp h (h.startup b) := by
  have hbegin := hs.beginStartup hrun
  obtain ⟨hacc, hall⟩ := startLoop_spec b h.services hbegin rfl
  obtain ⟨hservices, hflag, hcompleted, hshut⟩ := startLoop_frame b h.services h.beginStartup
  rw [startup, if_neg (by rw [hrun]; exact Bool.false_ne_true)]
  generalize startLoop b h.services h.beginStartup = loop at *
  obtain ⟨ok, h'⟩ := loop
  cases ok with
  | true =>
      have hstarted := hall rfl
      refine ⟨⟨⟨hacc.names, hacc.distinct, hacc.started, hacc.stack, hacc.held⟩, ?_, ?_, ?_⟩,
        ?_, nofun⟩
      · intro hidle
        exact absurd (hflag.symm.trans hidle) nofun
      · exact fun _ => hflag
      · intro hdown
        exact absurd (hshut.symm.trans hdown) nofun
      · exact fun _ => ⟨hstarted.trans hservices, hflag⟩
  | false =>
      obtain ⟨hacc', hnil⟩ := stopStartedServices_spec b hacc
      obtain ⟨hshut', hcompleted'⟩ := stopRounds_frame b h'.startedServices.length h'
      have hcompleted : (h'.stopStartedServices b).startupCompleted = false :=
        hcompleted'.trans hcompleted
      refine ⟨⟨⟨hacc'.names, hacc'.distinct, hacc'.started, hacc'.stack, hacc'.held⟩,
        fun _ => hnil, ?_, fun _ => rfl⟩, nofun, fun _ => ⟨hnil, hcompleted⟩⟩
      intro hc
      exact absurd (hcompleted.symm.trans hc) nofun

theorem Settled.startup (hs : Settled h) (b : Behaviour) : Settled (h.startup b).2 := by
  cases hrun : h.startupStarted with
  | true =>
      rw [startup_running b h hrun]
      exact hs
  | false => exact (startup_spec b hs hrun).settled

-- ============================================================================
-- shutdown
-- ============================================================================

theorem shutdown_down (b : Behaviour) (h : LifecycleHandler) (hdown : h.shutdownStarted = true) :
    h.shutdown b = h := if_pos hdown

/-- Behind a shutdown nothing is started and nothing is ready. -/
theorem shutdown_spec (b : Behaviour) (hs : Settled h) :
    Settled (h.shutdown b) ∧ (h.shutdown b).startedServices = [] ∧
      (h.shutdown b).shutdownStarted = true := by
  cases hdown : h.shutdownStarted with
  | true =>
      rw [shutdown_down b h hdown]
      exact ⟨hs, hs.idle (hs.shut hdown), hdown⟩
  | false =>
      rw [shutdown, if_neg (by rw [hdown]; exact Bool.false_ne_true)]
      have hbegin : Accounts (h.beginShutdown b) :=
        Accounts.quiesce (h := { h with shutdownStarted := true }) { hs.toAccounts with } b
      obtain ⟨hacc, hnil⟩ := stopStartedServices_spec b hbegin
      have hflag : ((h.beginShutdown b).stopStartedServices b).shutdownStarted = true :=
        (stopRounds_frame b _ _).1.trans (quiesce_spec b _).shutdownStarted
      refine ⟨⟨⟨hacc.names, hacc.distinct, hacc.started, hacc.stack, hacc.held⟩, ?_, nofun, ?_⟩,
        hnil, hflag⟩
      · exact fun _ => hnil
      · exact fun _ => rfl

end LifecycleHandler

-- ============================================================================
-- Runs
-- ============================================================================

/-- A call of the handler, with what the services do in it. -/
inductive Call where
  | register (services : List LifecycleService)
  | startup (b : Behaviour)
  | quiesce (b : Behaviour)
  | shutdown (b : Behaviour)

namespace LifecycleHandler

/-- The handler behind a call; an exception that `startup` raises leaves it as it is. -/
def call (h : LifecycleHandler) : Call → LifecycleHandler
  | .register services => h.register services
  | .startup b => (h.startup b).2
  | .quiesce b => h.quiesce b
  | .shutdown b => h.shutdown b

/-- The handler behind a sequence of calls. -/
def run (h : LifecycleHandler) (calls : List Call) : LifecycleHandler := calls.foldl call h

variable {h : LifecycleHandler}

theorem run_append (h : LifecycleHandler) (calls calls' : List Call) :
    h.run (calls ++ calls') = (h.run calls).run calls' := List.foldl_append

theorem Settled.call (hs : Settled h) (c : Call) : Settled (h.call c) := by
  cases c with
  | register services => exact hs.register services
  | startup b => exact hs.startup b
  | quiesce b => exact hs.quiesce b
  | shutdown b => exact (shutdown_spec b hs).1

theorem Settled.run (hs : Settled h) (calls : List Call) : Settled (h.run calls) := by
  induction calls generalizing h with
  | nil => exact hs
  | cons c calls ih => exact ih (hs.call c)

/-- A startup stands until the next shutdown. -/
theorem startupStarted_run {calls : List Call} (hup : h.startupStarted = true)
    (hcalls : ∀ b, Call.shutdown b ∉ calls) : (h.run calls).startupStarted = true := by
  induction calls generalizing h with
  | nil => exact hup
  | cons c calls ih =>
      refine ih ?_ fun b hb => hcalls b (List.mem_cons_of_mem c hb)
      cases c with
      | register services => exact (registered_register h services).startupStarted.trans hup
      | startup b => exact (congrArg (fun r => r.2.startupStarted) (startup_running b h hup)).trans hup
      | quiesce b => exact (quiesce_spec b h).startupStarted.trans hup
      | shutdown b => exact absurd List.mem_cons_self (hcalls b)

/-- A shutdown stands until the next startup. -/
theorem shutdownStarted_run {calls : List Call} (hdown : h.shutdownStarted = true)
    (hcalls : ∀ b, Call.startup b ∉ calls) : (h.run calls).shutdownStarted = true := by
  induction calls generalizing h with
  | nil => exact hdown
  | cons c calls ih =>
      refine ih ?_ fun b hb => hcalls b (List.mem_cons_of_mem c hb)
      cases c with
      | register services => exact (registered_register h services).shutdownStarted.trans hdown
      | startup b => exact absurd List.mem_cons_self (hcalls b)
      | quiesce b => exact (quiesce_spec b h).shutdownStarted.trans hdown
      | shutdown b => exact (congrArg shutdownStarted (shutdown_down b h hdown)).trans hdown

theorem settled_run (calls : List Call) : Settled (new.run calls) := settled_new.run calls

-- ============================================================================
-- Readiness
-- ============================================================================

/-- The call behind `pre` is the last startup of `calls` that runs rather than returns at
    once. -/
structure LastStartup (calls pre : List Call) (b : Behaviour) (post : List Call) : Prop where
  split : calls = pre ++ .startup b :: post
  ran : (new.run pre).startupStarted = false
  last : ∀ p b' q, post = p ++ .startup b' :: q →
    (new.run (pre ++ .startup b :: p)).startupStarted = true

/-- A ready handler has started everything that was registered when its last startup began,
    and was neither quiesced nor shut down since. -/
structure ReadySince (calls pre : List Call) (b : Behaviour) (post : List Call) : Prop
    extends LastStartup calls pre b post where
  succeeded : ((new.run pre).startup b).1 = true
  undisturbed : ∀ b', Call.quiesce b' ∉ post ∧ Call.shutdown b' ∉ post
  started : ∀ s ∈ (new.run pre).services, s ∈ (new.run calls).startedServices

/-- A call that changes neither the flags nor the started services keeps the handler ready. -/
theorem ReadySince.snoc {calls pre post : List Call} {b : Behaviour} {c : Call}
    (hr : ReadySince calls pre b post) (hc : ∀ b', c ≠ .quiesce b' ∧ c ≠ .shutdown b')
    (hrun : ∀ b', c = .startup b' → (new.run calls).startupStarted = true)
    (hstarted : (new.run (calls ++ [c])).startedServices = (new.run calls).startedServices) :
    ReadySince (calls ++ [c]) pre b (post ++ [c]) where
  split := by rw [hr.split, List.append_assoc, List.cons_append]
  ran := hr.ran
  last p b' q hpost := by
    rcases q.eq_nil_or_concat with rfl | ⟨q, c', rfl⟩
    · obtain ⟨rfl, hc'⟩ := List.append_inj' hpost rfl
      rw [← hr.split]
      exact hrun b' (List.cons.inj hc').1
    · rw [List.concat_eq_append, ← List.cons_append, ← List.append_assoc] at hpost
      exact hr.last p b' q (List.append_inj' hpost rfl).1
  succeeded := hr.succeeded
  undisturbed b' := by
    simp only [List.mem_append, List.mem_singleton, not_or]
    exact ⟨⟨(hr.undisturbed b').1, Ne.symm (hc b').1⟩,
      (hr.undisturbed b').2, Ne.symm (hc b').2⟩
  started s hs := by
    rw [hstarted]
    exact hr.started s hs

theorem run_snoc (calls : List Call) (c : Call) :
    new.run (calls ++ [c]) = (new.run calls).call c := run_append new calls [c]

/-- The induction is on the calls from the last one backwards. -/
theorem readySince_of_isReady (calls : List Call) (hready : (new.run calls).isReady = true) :
    ∃ pre b post, ReadySince calls pre b post := by
  induction calls using List.reverseRecOn with
  | nil => cases hready
  | append_singleton calls c ih =>
      rw [run_snoc] at hready
      have hsettled := settled_run calls
      simp only [isReady, Bool.and_eq_true, Bool.not_eq_true'] at hready ih
      cases c with
      | register services =>
          have hr := registered_register (new.run calls) services
          simp only [LifecycleHandler.call] at hready
          rw [hr.startupCompleted, hr.shutdownStarted, hr.quiescing] at hready
          obtain ⟨pre, b, post, hsince⟩ := ih hready
          exact ⟨pre, b, _, hsince.snoc (fun _ => ⟨nofun, nofun⟩) nofun
            (by rw [run_snoc]; exact hr.startedServices)⟩
      | startup b =>
          simp only [LifecycleHandler.call] at hready
          cases hrun : (new.run calls).startupStarted with
          | true =>
              rw [startup_running b _ hrun] at hready
              obtain ⟨pre, b', post, hsince⟩ := ih hready
              refine ⟨pre, b', _, hsince.snoc (fun _ => ⟨nofun, nofun⟩) (fun _ _ => hrun) ?_⟩
              rw [run_snoc, LifecycleHandler.call, startup_running b _ hrun]
          | false =>
              have hup := startup_spec b hsettled hrun
              cases hok : ((new.run calls).startup b).1 with
              | false =>
                  rw [(hup.failed hok).2] at hready
                  exact absurd hready.1.1 nofun
              | true =>
                  refine ⟨calls, b, [], ⟨rfl, hrun, ?_⟩, hok, ?_, ?_⟩
                  · intro p b' q hnil
                    simp at hnil
                  · exact fun b' => ⟨List.not_mem_nil, List.not_mem_nil⟩
                  · intro s hs
                    rw [run_snoc, LifecycleHandler.call, (hup.succeeded hok).1]
                    exact hs
      | quiesce b =>
          have hq := (quiesce_spec b (new.run calls)).quiescing
          exact absurd (hq.symm.trans hready.2) nofun
      | shutdown b =>
          have hdown := (shutdown_spec b hsettled).2.2
          exact absurd (hdown.symm.trans hready.1.2) nofun

-- ============================================================================
-- Ownership
-- ============================================================================

/-- Starts of `s` that succeeded, and stops of `s`, in a log. -/
def starts (log : List Invocation) (s : LifecycleService) : Nat :=
  (log.filterMap Invocation.stackOp).count (.push s)

def stops (log : List Invocation) (s : LifecycleService) : Nat :=
  (log.filterMap Invocation.stackOp).count (.pop s)

/-- Behind every sequence of calls, whatever the services do: the started services are those
    whose last start succeeded and that were not stopped since; stops undo starts in reverse
    order, one stop for a start; a failed startup and a shutdown leave nothing started; a
    repeated startup or shutdown invokes nothing; and a ready handler is fully started and
    undisturbed. -/
theorem lifecycle_ownership (calls : List Call) :
    (∀ s, s ∈ (new.run calls).startedServices ↔ LastStartHolds (new.run calls).log s) ∧
    StackOp.replay [] ((new.run calls).log.filterMap Invocation.stackOp) =
      some (new.run calls).startedServices ∧
    (∀ s, starts (new.run calls).log s =
      stops (new.run calls).log s + if s ∈ (new.run calls).startedServices then 1 else 0) ∧
    (∀ b, ((new.run calls).startup b).1 = false →
      ((new.run calls).startup b).2.startedServices = []) ∧
    (∀ b, ((new.run calls).shutdown b).startedServices = []) ∧
    (∀ b b' between, ((new.run calls).startup b).1 = true →
      (∀ d, Call.shutdown d ∉ between) →
      ((new.run (calls ++ .startup b :: between)).startup b').2 =
        new.run (calls ++ .startup b :: between)) ∧
    (∀ b b' between, (∀ u, Call.startup u ∉ between) →
      (new.run (calls ++ .shutdown b :: between)).shutdown b' =
        new.run (calls ++ .shutdown b :: between)) ∧
    ((new.run calls).isReady = true → ∃ pre b post, ReadySince calls pre b post) := by
  have hs := settled_run calls
  refine ⟨hs.held, hs.stack, ?_, ?_, ?_, ?_, ?_, readySince_of_isReady calls⟩
  · intro s
    have hcount := StackOp.replay_count s hs.stack
    rw [hs.nodup.count] at hcount
    simp only [List.count_nil, Nat.zero_add] at hcount
    exact hcount
  · intro b hfail
    cases hrun : (new.run calls).startupStarted with
    | true =>
        rw [startup_running b _ hrun] at hfail
        cases hfail
    | false => exact ((startup_spec b hs hrun).failed hfail).1
  · exact fun b => (shutdown_spec b hs).2.1
  · intro b b' between hok hbetween
    have hup : ((new.run calls).startup b).2.startupStarted = true := by
      cases hrun : (new.run calls).startupStarted with
      | true =>
          rw [startup_running b _ hrun]
          exact hrun
      | false => exact ((startup_spec b hs hrun).succeeded hok).2
    rw [run_append]
    exact congrArg Prod.snd (startup_running b' _ (startupStarted_run hup hbetween))
  · intro b b' between hbetween
    rw [run_append]
    exact shutdown_down b' _
      (shutdownStarted_run (h := (new.run calls).shutdown b) (shutdown_spec b hs).2.2 hbetween)

def database : LifecycleService := ⟨0, "database", true⟩
def cleanup : LifecycleService := ⟨1, "cleanup", true⟩

def allReturn : Behaviour := ⟨fun _ => true, fun _ => true, fun _ => true⟩

/-- One service does not start, and the other does not stop. -/
def bothFail : Behaviour := ⟨(· = database), (· = cleanup), fun _ => true⟩

def failed : List Call := [.register [database, cleanup], .startup bothFail]

/-- A failed startup that leaves nothing started, a startup behind it that makes the handler
    ready, one more that does nothing, and a shutdown. -/
theorem lifecycle_ownership_restarted :
    ((new.run [.register [database, cleanup]]).startup bothFail).2.startedServices = [] ∧
      LastStartHolds (new.run (failed ++ [.startup allReturn])).log cleanup ∧
      starts (new.run (failed ++ [.startup allReturn])).log database =
        stops (new.run (failed ++ [.startup allReturn])).log database + 1 ∧
      ((new.run (failed ++ [.startup allReturn])).startup bothFail).2 =
        new.run (failed ++ [.startup allReturn]) ∧
      (∃ pre b post, ReadySince (failed ++ [.startup allReturn]) pre b post) ∧
      ((new.run (failed ++ [.startup allReturn])).shutdown bothFail).startedServices = [] := by
  obtain ⟨-, -, -, hfailed, -⟩ := lifecycle_ownership [.register [database, cleanup]]
  obtain ⟨-, -, -, -, -, hagain, -⟩ := lifecycle_ownership failed
  obtain ⟨hheld, -, hcount, -, hdown, -, -, hready⟩ :=
    lifecycle_ownership (failed ++ [.startup allReturn])
  have hstarted : (new.run (failed ++ [.startup allReturn])).startedServices =
      [database, cleanup] := by decide
  refine ⟨hfailed bothFail (by decide), (hheld cleanup).mp ?_, ?_,
    hagain allReturn bothFail [] (by decide) (by simp), hready (by decide), hdown bothFail⟩
  · rw [hstarted]
    simp
  · rw [hcount database, hstarted]
    simp

end LifecycleHandler

end QuickApi.Lifecycle
