/-
  QuickApi.Lifecycle.Draining

  No service is stopped under running requests.  Every request inside
  `RequestAdmission` and every unfinished work task is tracked, and once a
  drain has closed admission the tracked tasks that are not done are among
  those it awaits.
-/

import QuickApi.Lifecycle.StopRequest

namespace QuickApi.Lifecycle

open QuickApi.Lib

namespace Process

/-- The tasks a drain awaits; none once it has returned. -/
def Drain.awaited : Option Drain → List Nat
  | some (.waiting pending _) => pending
  | some (.gathering unfinished) => unfinished
  | none => []

/-- The tasks that may still run once the lifespan drains: what its drain awaits, and none
    behind it. -/
def Lifespan.awaited : Lifespan → Option (List Nat)
  | .draining d => some (Drain.awaited (some d))
  | .drained => some []
  | .stopping => some []
  | _ => none

/-- The account of the tracked tasks. -/
structure Tracked (p : Process) : Prop where
  known : ∀ i ∈ p.work.tasks, i < p.tasks.length
  request : ∀ (i : Nat) (t : Task), p.tasks[i]? = some t → t.inAdmission = true → i ∈ p.work.tasks
  work : ∀ (i : Nat) (t : Task), p.tasks[i]? = some t → t.kind = .work → t.done = false → i ∈ p.work.tasks
  left : ∀ (i : Nat) (t : Task), p.tasks[i]? = some t → t.done = true → t.inAdmission = false
  kind : ∀ (i : Nat) (t : Task), p.tasks[i]? = some t → t.inAdmission = true → t.kind = .request

/-- Once the lifespan drains, admission is closed and every tracked task that is not done is
    awaited. -/
def Covered (p : Process) : Prop :=
  ∀ l, Lifespan.awaited p.lifespan = some l →
    p.work.drainingAt ≠ none ∧ ∀ i ∈ p.work.tasks, p.done i = false → i ∈ l

/-- A drain that cancels work is on record. -/
def Recorded (p : Process) : Prop := p.drainCancelled ≠ [] → p.work.failed = true

structure WorkInv (p : Process) : Prop where
  tracked : Tracked p
  covered : Covered p
  recorded : Recorded p

theorem done_of_task {p : Process} {i : Nat} {t : Task} (h : p.tasks[i]? = some t) :
    p.done i = t.done := by
  rw [done, h]

theorem done_congr {p q : Process} (h : q.tasks = p.tasks) : q.done = p.done := by
  funext i
  rw [done, done, h]

/-- No request is inside `RequestAdmission` and every work task is done. -/
def Quiet (p : Process) : Prop :=
  ∀ (i : Nat) (t : Task), p.tasks[i]? = some t →
    t.inAdmission = false ∧ (t.kind = .work → t.done = true)

/-- When no tracked task is pending, nothing runs. -/
theorem Tracked.quiet {p : Process} (h : Tracked p)
    (hall : ∀ i ∈ p.work.tasks, p.done i = true) : Quiet p := by
  intro i t ht
  refine ⟨?_, ?_⟩
  · cases hin : t.inAdmission with
    | false => rfl
    | true =>
        have hd := hall i (h.request i t ht hin)
        rw [done_of_task ht] at hd
        exact absurd ((h.left i t ht hd).symm.trans hin) nofun
  · intro hk
    cases hd : t.done with
    | true => rfl
    | false =>
        have hd' := hall i (h.work i t ht hk hd)
        rw [done_of_task ht] at hd'
        exact absurd (hd.symm.trans hd') nofun

-- ============================================================================
-- Steps that leave the tasks alone
-- ============================================================================

/-- The tasks and their bookkeeping are the same, and the lifespan awaits nothing new. -/
structure SameWork (p q : Process) : Prop where
  tasks : q.tasks = p.tasks
  tracked : q.work.tasks = p.work.tasks
  draining : p.work.drainingAt ≠ none → q.work.drainingAt ≠ none
  failed : p.work.failed = true → q.work.failed = true
  cancelled : q.drainCancelled = p.drainCancelled
  awaited : ∀ l, Lifespan.awaited q.lifespan = some l → Lifespan.awaited p.lifespan = some l

theorem WorkInv.same {p q : Process} (h : WorkInv p) (hs : SameWork p q) : WorkInv q where
  tracked := by
    have ht := h.tracked
    refine ⟨?_, ?_, ?_, ?_, ?_⟩
    · rw [hs.tracked, hs.tasks]
      exact ht.known
    · rw [hs.tracked, hs.tasks]
      exact ht.request
    · rw [hs.tracked, hs.tasks]
      exact ht.work
    · rw [hs.tasks]
      exact ht.left
    · rw [hs.tasks]
      exact ht.kind
  covered l hl := by
    obtain ⟨hd, hcov⟩ := h.covered l (hs.awaited l hl)
    rw [hs.tracked, done_congr hs.tasks]
    exact ⟨hs.draining hd, hcov⟩
  recorded hc := by
    rw [hs.cancelled] at hc
    exact hs.failed (h.recorded hc)

-- ============================================================================
-- Requests
-- ============================================================================

/-- A task that is tracked from the start. -/
theorem Tracked.addTask {p : Process} (h : Tracked p) {t : Task} (hnew : t.done = false)
    (hkind : t.inAdmission = true → t.kind = .request) : Tracked (p.addTask t) where
  known i hi := by
    have hi' : i = p.tasks.length ∨ i ∈ p.work.tasks := RequestWork.mem_track.mp hi
    show i < (p.tasks ++ [t]).length
    rw [List.length_append, List.length_singleton]
    rcases hi' with rfl | hi'
    · omega
    · have := h.known i hi'
      omega
  request i u hu hin := by
    have hu' : (p.tasks ++ [t])[i]? = some u := hu
    rw [List.getElem?_append] at hu'
    split at hu'
    · exact RequestWork.mem_track.mpr (.inr (h.request i u hu' hin))
    · next hlt =>
      obtain ⟨hi, -⟩ := List.getElem?_eq_some_iff.mp hu'
      rw [List.length_singleton] at hi
      exact RequestWork.mem_track.mpr (.inl (by omega))
  work i u hu hk hd := by
    have hu' : (p.tasks ++ [t])[i]? = some u := hu
    rw [List.getElem?_append] at hu'
    split at hu'
    · exact RequestWork.mem_track.mpr (.inr (h.work i u hu' hk hd))
    · next hlt =>
      obtain ⟨hi, -⟩ := List.getElem?_eq_some_iff.mp hu'
      rw [List.length_singleton] at hi
      exact RequestWork.mem_track.mpr (.inl (by omega))
  left i u hu hd := by
    have hu' : (p.tasks ++ [t])[i]? = some u := hu
    rw [List.getElem?_append] at hu'
    split at hu'
    · exact h.left i u hu' hd
    · obtain rfl := List.mem_singleton.mp (List.mem_of_getElem? hu')
      rw [hnew] at hd
      cases hd
  kind i u hu hin := by
    have hu' : (p.tasks ++ [t])[i]? = some u := hu
    rw [List.getElem?_append] at hu'
    split at hu'
    · exact h.kind i u hu' hin
    · obtain rfl := List.mem_singleton.mp (List.mem_of_getElem? hu')
      exact hkind hin

theorem WorkInv.arrive {p : Process} (h : WorkInv p) (forwarded : Bool) :
    WorkInv (p.arrive forwarded) := by
  unfold Process.arrive
  split
  · exact h
  · next hreject =>
    -- Admission is open, so the lifespan is not draining.
    have hopen : p.work.drainingAt = none := by
      have := p.work.reject_isSome
      rw [hreject] at this
      simpa using this.symm
    have hidle : ∀ l, Lifespan.awaited p.lifespan ≠ some l := fun l hl => (h.covered l hl).1 hopen
    cases forwarded with
    | false =>
        have ht := h.tracked.addTask (t := ⟨.request, true, false⟩) rfl fun _ => rfl
        exact ⟨ht, fun l hl => absurd hl (hidle l), h.recorded⟩
    | true =>
        have ht := (h.tracked.addTask (t := ⟨.request, true, false⟩) rfl fun _ => rfl).addTask
          (t := ⟨.work, false, false⟩) rfl nofun
        exact ⟨ht, fun l hl => absurd hl (hidle l), h.recorded⟩

/-- A task is replaced by a later state of it: it does not come back to life, and stays tracked
    where it must be. -/
theorem WorkInv.setTask {p : Process} (h : WorkInv p) {i : Nat} {t u : Task}
    {tasks : List Nat} (ht : p.tasks[i]? = some t) (hkind : u.kind = t.kind)
    (hdone : t.done = true → u.done = true) (hleft : u.done = true → u.inAdmission = false)
    (hin : u.inAdmission = true → t.inAdmission = true)
    (hsub : ∀ j ∈ tasks, j ∈ p.work.tasks)
    (hkeep : ∀ j ∈ p.work.tasks, j ≠ i ∨ (u.inAdmission = true ∨ u.kind = .work ∧ u.done = false) →
      j ∈ tasks) :
    WorkInv { p with tasks := p.tasks.set i u, work := { p.work with tasks := tasks } } := by
  have hlt : i < p.tasks.length := (List.getElem?_eq_some_iff.mp ht).1
  have hget : ∀ j v, (p.tasks.set i u)[j]? = some v → j = i ∧ v = u ∨ j ≠ i ∧ p.tasks[j]? = some v := by
    intro j v hv
    by_cases hji : j = i
    · subst hji
      rw [List.getElem?_set_self hlt] at hv
      exact .inl ⟨rfl, (Option.some.inj hv).symm⟩
    · rw [List.getElem?_set_ne (Ne.symm hji)] at hv
      exact .inr ⟨hji, hv⟩
  refine ⟨⟨?_, ?_, ?_, ?_, ?_⟩, ?_, h.recorded⟩
  · intro j hj
    show j < (p.tasks.set i u).length
    rw [List.length_set]
    exact h.tracked.known j (hsub j hj)
  · intro j v hv hv'
    rcases hget j v hv with ⟨rfl, rfl⟩ | ⟨hji, hv⟩
    · exact hkeep j (h.tracked.request j t ht (hin hv')) (.inr (.inl hv'))
    · exact hkeep j (h.tracked.request j v hv hv') (.inl hji)
  · intro j v hv hk hd
    rcases hget j v hv with ⟨rfl, rfl⟩ | ⟨hji, hv⟩
    · refine hkeep j (h.tracked.work j t ht (hkind ▸ hk) ?_) (.inr (.inr ⟨hk, hd⟩))
      cases hdt : t.done with
      | false => rfl
      | true => exact (hdone hdt).symm.trans hd
    · exact hkeep j (h.tracked.work j v hv hk hd) (.inl hji)
  · intro j v hv hd
    rcases hget j v hv with ⟨rfl, rfl⟩ | ⟨-, hv⟩
    · exact hleft hd
    · exact h.tracked.left j v hv hd
  · intro j v hv hv'
    rcases hget j v hv with ⟨rfl, rfl⟩ | ⟨-, hv⟩
    · exact hkind.trans (h.tracked.kind j t ht (hin hv'))
    · exact h.tracked.kind j v hv hv'
  · intro l hl
    obtain ⟨hopen, hcov⟩ := h.covered l hl
    refine ⟨hopen, fun j hj hd => hcov j (hsub j hj) ?_⟩
    have hj' := h.tracked.known j (hsub j hj)
    by_cases hji : j = i
    · subst hji
      rw [done_of_task (t := u) (List.getElem?_set_self hlt)] at hd
      rw [done_of_task ht]
      cases hdt : t.done with
      | false => rfl
      | true => exact (hdone hdt).symm.trans hd
    · rw [← hd, done, done]
      simp only [List.getElem?_set_ne (Ne.symm hji)]

theorem WorkInv.leaveAdmission {p q : Process} {i : Nat} (h : WorkInv p)
    (hq : p.leaveAdmission i = some q) : WorkInv q := by
  unfold Process.leaveAdmission at hq
  split at hq
  · next t ht =>
    split at hq
    · next hin =>
      obtain rfl := Option.some.inj hq
      refine h.setTask ht rfl id (fun _ => rfl) nofun ?_ ?_
      · exact fun j hj => (RequestWork.mem_discard.mp hj).1
      · rintro j hj (hji | hin' | ⟨hk, -⟩)
        · exact RequestWork.mem_discard.mpr ⟨hj, hji⟩
        · cases hin'
        · exact absurd ((h.tracked.kind i t ht hin).symm.trans hk) nofun
    · cases hq
  · cases hq

theorem WorkInv.finish {p q : Process} {i : Nat} (h : WorkInv p)
    (hq : p.finish i = some q) : WorkInv q := by
  unfold Process.finish at hq
  split at hq
  · next t ht =>
    split at hq
    · cases hq
    · next hopen =>
      rw [not_or, Bool.not_eq_true, Bool.not_eq_true] at hopen
      obtain rfl := Option.some.inj hq
      exact h.setTask ht rfl (fun _ => rfl) (fun _ => hopen.2) id (fun _ => id) fun _ hj _ => hj
  · cases hq

/-- Only tasks that are done are dropped by their callback. -/
theorem WorkInv.discard {p : Process} {i : Nat} (h : WorkInv p) (hdone : p.done i = true) :
    WorkInv { p with work := p.work.discard i } := by
  refine ⟨⟨?_, ?_, ?_, h.tracked.left, h.tracked.kind⟩, ?_, h.recorded⟩
  · exact fun j hj => h.tracked.known j (RequestWork.mem_discard.mp hj).1
  · intro j t ht hin
    refine RequestWork.mem_discard.mpr ⟨h.tracked.request j t ht hin, ?_⟩
    rintro rfl
    rw [done_of_task (p := p) ht] at hdone
    exact absurd ((h.tracked.left j t ht hdone).symm.trans hin) nofun
  · intro j t ht hk hd
    refine RequestWork.mem_discard.mpr ⟨h.tracked.work j t ht hk hd, ?_⟩
    rintro rfl
    rw [done_of_task (p := p) ht] at hdone
    exact absurd (hd.symm.trans hdone) nofun
  · intro l hl
    obtain ⟨hd, hcov⟩ := h.covered l hl
    exact ⟨hd, fun j hj => hcov j (RequestWork.mem_discard.mp hj).1⟩

-- ============================================================================
-- Drains
-- ============================================================================

/-- The tasks awaited at the head of the loop are all that are pending. -/
theorem awaited_drainLoop (p : Process) : Drain.awaited p.drainLoop = p.work.pending p.done := by
  unfold drainLoop
  split
  · next h => exact h.symm
  · next h => exact h.symm

theorem awaited_afterDrain (d : Option Drain) :
    Lifespan.awaited (Lifespan.afterDrain d) = some (Drain.awaited d) := by
  cases d <;> rfl

theorem pending_covers {p : Process} {i : Nat} (hi : i ∈ p.work.tasks) (hd : p.done i = false) :
    i ∈ Drain.awaited p.drainLoop := by
  rw [awaited_drainLoop]
  exact RequestWork.mem_pending.mpr ⟨hi, hd⟩

theorem WorkInv.beginDrain {p : Process} (h : WorkInv p) (b : Behaviour) (failed : Bool) :
    WorkInv (p.beginDrain b failed) := by
  have hs : SameWork p { p with
      handler := { p.handler with
        shutdownFailed := if failed then true else p.handler.shutdownFailed }.quiesce b
      work := p.work.quiesce p.now } :=
    ⟨rfl, p.work.quiesce_tasks p.now, fun _ => p.work.quiesce_drainingAt p.now,
      fun hf => (p.work.quiesce_failed p.now).trans hf, rfl, fun _ => id⟩
  have hq := h.same hs
  refine ⟨⟨hq.tracked.known, hq.tracked.request, hq.tracked.work, hq.tracked.left,
    hq.tracked.kind⟩, ?_, hq.recorded⟩
  intro l hl
  have hl' := (awaited_afterDrain _).symm.trans hl
  obtain rfl := Option.some.inj hl'
  exact ⟨p.work.quiesce_drainingAt p.now, fun i hi hd => pending_covers hi hd⟩

/-- A round of a drain that awaits every tracked task which is not done keeps awaiting them:
    the loop looks again, what it gives up it gathers. -/
theorem wake_spec {p : Process} {d : Drain} {r : Process × Option Drain} (hr : p.wake d = some r) :
    r.1.tasks = p.tasks ∧ r.1.work.tasks = p.work.tasks ∧ r.1.lifespan = p.lifespan ∧
      (Recorded p → Recorded r.1) ∧
      ((∀ i ∈ p.work.tasks, p.done i = false → i ∈ Drain.awaited (some d)) →
        ∀ i ∈ p.work.tasks, p.done i = false → i ∈ Drain.awaited r.2) := by
  unfold wake at hr
  split at hr
  · next pending due =>
    split at hr
    · obtain rfl := Option.some.inj hr
      exact ⟨rfl, rfl, rfl, id, fun _ i hi hd => pending_covers hi hd⟩
    · next j rest hrest =>
      split at hr
      · obtain rfl := Option.some.inj hr
        refine ⟨rfl, rfl, rfl, fun _ _ => rfl, fun hcov i hi hd => ?_⟩
        show i ∈ j :: rest
        rw [← hrest, List.mem_filter]
        exact ⟨hcov i hi hd, by rw [hd]; rfl⟩
      · cases hr
  · next unfinished =>
    split at hr
    · next hall =>
      obtain rfl := Option.some.inj hr
      refine ⟨rfl, rfl, rfl, id, fun hcov i hi hd => ?_⟩
      exact absurd (hd.symm.trans (List.all_eq_true.mp hall i (hcov i hi hd))) nofun
    · cases hr

theorem Tracked.congr {p q : Process} (h : Tracked p) (ht : q.tasks = p.tasks)
    (hw : q.work.tasks = p.work.tasks) : Tracked q := by
  refine ⟨?_, ?_, ?_, ?_, ?_⟩
  · rw [ht, hw]
    exact h.known
  · rw [ht, hw]
    exact h.request
  · rw [ht, hw]
    exact h.work
  · rw [ht]
    exact h.left
  · rw [ht]
    exact h.kind

theorem WorkInv.drainWake {p : Process} {d : Drain} {r : Process × Option Drain} (h : WorkInv p)
    (hd : p.lifespan = .draining d) (hr : p.wake d = some r) :
    WorkInv { r.1 with lifespan := Lifespan.afterDrain r.2 } := by
  obtain ⟨htasks, htracked, -, hrec, hcov⟩ := wake_spec hr
  obtain ⟨hopen, hall⟩ := h.covered (Drain.awaited (some d)) (by rw [hd]; rfl)
  refine ⟨h.tracked.congr htasks htracked, ?_, hrec h.recorded⟩
  intro l hl
  obtain rfl := Option.some.inj ((awaited_afterDrain r.2).symm.trans hl)
  refine ⟨(frame_wake hr).draining hopen, ?_⟩
  show ∀ i ∈ r.1.work.tasks, r.1.done i = false → _
  rw [htracked, done_congr htasks]
  exact hcov hall

theorem WorkInv.serverWake {p : Process} {d : Drain} {r : Process × Option Drain} (h : WorkInv p)
    (hr : p.wake d = some r) : WorkInv { r.1 with serverDrain := r.2 } := by
  obtain ⟨htasks, htracked, hlife, hrec, -⟩ := wake_spec hr
  refine ⟨h.tracked.congr htasks htracked, ?_, hrec h.recorded⟩
  intro l hl
  obtain ⟨hopen, hall⟩ := h.covered l (hlife ▸ hl)
  refine ⟨(frame_wake hr).draining hopen, ?_⟩
  show ∀ i ∈ r.1.work.tasks, r.1.done i = false → i ∈ l
  rw [htracked, done_congr htasks]
  exact hall

-- ============================================================================
-- Steps and runs
-- ============================================================================

/-- A step of the lifespan outside its drain. -/
theorem SameWork.of_lifespan {p q : Process} (ht : q.tasks = p.tasks) (hw : q.work = p.work)
    (hc : q.drainCancelled = p.drainCancelled) (hl : Lifespan.awaited q.lifespan = none) :
    SameWork p q := by
  refine ⟨ht, by rw [hw], ?_, ?_, hc, ?_⟩
  · rw [hw]
    exact id
  · rw [hw]
    exact id
  · rw [hl]
    exact nofun

theorem WorkInv.step {p q : Process} {e : Event} (h : WorkInv p) (hnext : p.next e = some q) :
    WorkInv q := by
  cases e with
  | tick t =>
      rw [next] at hnext
      split at hnext <;> cases hnext
      exact h.same ⟨rfl, rfl, id, id, rfl, fun _ => id⟩
  | stop b =>
      obtain rfl := Option.some.inj hnext
      exact h.same ⟨rfl, p.work.quiesce_tasks p.now, fun _ => p.work.quiesce_drainingAt p.now,
        fun hf => (p.work.quiesce_failed p.now).trans hf, rfl, fun _ => id⟩
  | arrive forwarded =>
      obtain rfl := Option.some.inj hnext
      exact h.arrive forwarded
  | leaveAdmission i => exact h.leaveAdmission hnext
  | finish i => exact h.finish hnext
  | discard i =>
      rw [next] at hnext
      split at hnext
      · next hdone =>
        obtain rfl := Option.some.inj hnext
        exact h.discard hdone
      · cases hnext
  | resume =>
      rw [next] at hnext
      split at hnext
      · split at hnext
        · next work hwork =>
          obtain rfl := Option.some.inj hnext
          obtain ⟨hall, rfl⟩ := RequestWork.resume_eq_some_iff.mp hwork
          -- Everything that was tracked is done, so nothing has to be tracked any more.
          refine ⟨⟨List.forall_mem_nil _, ?_, ?_, h.tracked.left, h.tracked.kind⟩, ?_,
            fun hne => absurd rfl hne⟩
          · intro i t ht hin
            exact absurd ((h.tracked.quiet hall i t ht).1.symm.trans hin) Bool.false_ne_true
          · intro i t ht hk hd
            exact absurd (hd.symm.trans ((h.tracked.quiet hall i t ht).2 hk)) Bool.false_ne_true
          · intro l hl
            cases hl
        · cases hnext
          exact h.same (.of_lifespan rfl rfl rfl rfl)
      · cases hnext
  | startup =>
      rw [next] at hnext
      split at hnext
      · split at hnext <;> cases hnext <;> exact h.same (.of_lifespan rfl rfl rfl rfl)
      · cases hnext
  | serviceStart ok =>
      rw [next] at hnext
      split at hnext
      · split at hnext <;> cases hnext <;> exact h.same (.of_lifespan rfl rfl rfl rfl)
      · cases hnext
  | startCancelled =>
      rw [next] at hnext
      split at hnext <;> cases hnext
      exact h.same (.of_lifespan rfl rfl rfl rfl)
  | startupDone =>
      rw [next] at hnext
      split at hnext <;> cases hnext
      exact h.same (.of_lifespan rfl rfl rfl rfl)
  | rollback b =>
      rw [next] at hnext
      split at hnext
      · next hl _ =>
        cases hnext
        exact h.same ⟨rfl, rfl, id, id, rfl, fun _ => id⟩
      · cases hnext
        exact h.same (.of_lifespan rfl rfl rfl rfl)
      · cases hnext
  | leave failed =>
      rw [next] at hnext
      split at hnext <;> cases hnext
      exact h.same (.of_lifespan rfl rfl rfl rfl)
  | beginDrain b =>
      rw [next] at hnext
      split at hnext <;> cases hnext
      exact h.beginDrain b _
  | drainWake =>
      rw [next] at hnext
      split at hnext
      · next d hd =>
        obtain ⟨r, hr, rfl⟩ := Option.map_eq_some_iff.mp hnext
        exact h.drainWake hd hr
      · cases hnext
  | shutdown b =>
      rw [next] at hnext
      split at hnext
      · next hl =>
        split at hnext <;> cases hnext
        · exact h.same (.of_lifespan rfl rfl rfl rfl)
        · exact h.same ⟨rfl, rfl, id, id, rfl, fun _ hs => by rw [hl]; exact hs⟩
      · cases hnext
  | stopService b =>
      rw [next] at hnext
      split at hnext
      · cases hnext
        exact h.same ⟨rfl, rfl, id, id, rfl, fun _ => id⟩
      · cases hnext
        exact h.same (.of_lifespan rfl rfl rfl rfl)
      · cases hnext
  | serverDrain =>
      obtain rfl := Option.some.inj hnext
      exact h.same ⟨rfl, p.work.quiesce_tasks p.now, fun _ => p.work.quiesce_drainingAt p.now,
        fun hf => (p.work.quiesce_failed p.now).trans hf, rfl, fun _ => id⟩
  | serverWake =>
      rw [next] at hnext
      split at hnext
      · obtain ⟨r, hr, rfl⟩ := Option.map_eq_some_iff.mp hnext
        exact h.serverWake hr
      · cases hnext
  | serverGivesUp =>
      rw [next] at hnext
      split at hnext <;> cases hnext
      exact h.same ⟨rfl, rfl, id, fun _ => rfl, rfl, fun _ => id⟩

theorem workInv_invariant : processSystem.Invariant WorkInv where
  init p hp := by
    obtain ⟨services, drainSeconds, now, rfl⟩ := hp
    refine ⟨⟨?_, ?_, ?_, ?_, ?_⟩, nofun, fun hne => absurd rfl hne⟩ <;> simp [created, RequestWork.new]
  step _ _ _ h hnext := h.step hnext

/-- Once the tasks that the lifespan's drain awaits are done, its loop ends. -/
theorem WorkInv.drain_ends {p : Process} (h : WorkInv p) {d : Drain}
    (hl : p.lifespan = .draining d) (hdone : ∀ i ∈ Drain.awaited (some d), p.done i = true) :
    p.next .drainWake = some { p with lifespan := .drained } := by
  obtain ⟨-, hcov⟩ := h.covered (Drain.awaited (some d)) (by rw [hl]; rfl)
  simp only [next, hl]
  cases d with
  | waiting pending due =>
      have hnone : p.work.pending p.done = [] := by
        rw [List.eq_nil_iff_forall_not_mem]
        intro i hi
        obtain ⟨hi, hd⟩ := RequestWork.mem_pending.mp hi
        exact absurd (hd.symm.trans (hdone i (hcov i hi hd))) Bool.false_ne_true
      have hall : (pending.filter fun i => !p.done i) = [] := by
        rw [List.filter_eq_nil_iff]
        intro i hi
        rw [hdone i hi]
        exact Bool.false_ne_true
      have hloop : p.drainLoop = none := by
        unfold drainLoop
        rw [hnone]
      simp only [wake, hall, hloop]
      rfl
  | gathering unfinished =>
      have hall : unfinished.all p.done = true := List.all_eq_true.mpr hdone
      simp only [wake, hall]
      rfl

/-- In every reachable state: where the lifespan stops services behind its drain, no request is
    inside `RequestAdmission` and every work task is done; work that a drain had to cancel is on
    record as failed; and the tracked tasks that are pending are among those the lifespan's drain
    awaits, which ends once these are done. -/
theorem services_stop_after_requests {p : Process} (hp : processSystem.Reachable p) :
    (p.lifespan = .drained ∨ p.lifespan = .stopping → Quiet p) ∧
    (p.drainCancelled ≠ [] → p.work.failed = true) ∧
    (∀ d, p.lifespan = .draining d →
      (∀ i ∈ p.work.pending p.done, i ∈ Drain.awaited (some d)) ∧
      ((∀ i ∈ Drain.awaited (some d), p.done i = true) →
        p.next .drainWake = some { p with lifespan := .drained })) := by
  have h := workInv_invariant.of_reachable hp
  refine ⟨?_, h.recorded, ?_⟩
  · intro hl
    have hnil : Lifespan.awaited p.lifespan = some [] := by
      rcases hl with hl | hl <;> rw [hl] <;> rfl
    refine h.tracked.quiet fun i hi => ?_
    cases hd : p.done i with
    | true => rfl
    | false => exact absurd ((h.covered [] hnil).2 i hi hd) List.not_mem_nil
  · intro d hl
    refine ⟨fun i hi => ?_, h.drain_ends hl⟩
    obtain ⟨hi, hd⟩ := RequestWork.mem_pending.mp hi
    exact (h.covered (Drain.awaited (some d)) (by rw [hl]; rfl)).2 i hi hd

/-- A request leaves `RequestAdmission` while its work goes on; the drain gives the work up when
    its budget is spent, and the services stop behind it. -/
theorem services_stop_after_requests_expired :
    ∃ p, processSystem.run (.created [⟨0, "database", false⟩] 30 0)
      [.resume, .startup, .serviceStart true, .startupDone, .arrive true, .leaveAdmission 0,
        .finish 0, .leave false, .beginDrain returning, .tick 30, .drainWake, .finish 1,
        .drainWake, .shutdown returning] = some p ∧
      p.lifespan = .stopping ∧ p.drainCancelled = [1] ∧ Quiet p ∧ p.work.failed = true := by
  have hrun : (processSystem.run (.created [⟨0, "database", false⟩] 30 0)
      [.resume, .startup, .serviceStart true, .startupDone, .arrive true, .leaveAdmission 0,
        .finish 0, .leave false, .beginDrain returning, .tick 30, .drainWake, .finish 1,
        .drainWake, .shutdown returning]).map (fun p => (p.lifespan, p.drainCancelled)) =
      some (.stopping, [1]) := by decide +kernel
  obtain ⟨p, hrun, hp⟩ := Option.map_eq_some_iff.mp hrun
  obtain ⟨hl, hc⟩ := Prod.mk.inj hp
  have hspec := services_stop_after_requests
    ⟨_, _, ⟨[⟨0, "database", false⟩], 30, 0, rfl⟩, hrun⟩
  refine ⟨p, hrun, hl, hc, hspec.1 (.inr hl), hspec.2.1 ?_⟩
  rw [hc]
  exact nofun

end Process

end QuickApi.Lifecycle
