/-
  QuickApi.Lib.SharedSlot

  A slot that several users share for one job at a time.  A user joins the job
  in the slot or launches one into the empty slot; a user that leaves a
  finished job takes it out.  So at most one job runs, the one in the slot
  (`Sound.running`), and a finished job is in the slot until some user has left
  it (`Sound.finished`).
-/

import Mathlib.Data.List.Basic

namespace QuickApi.Lib

theorem getElem?_set_of_some {α : Type*} {xs : List α} {i : Nat} {x y : α}
    (h : xs[i]? = some x) : (xs.set i y)[i]? = some y :=
  List.getElem?_set_self (List.getElem?_eq_some_iff.mp h).1

/-- One use of the slot. -/
structure SlotUse where
  /-- the job, if the user was not turned away -/
  job : Option Nat
  /-- the user has left a job that was finished -/
  settled : Bool

/-- The slot, the outcomes of the jobs launched so far (`none` while a job runs), and the
    uses.  Jobs and uses are named by their place in the order of creation. -/
structure SharedSlot (ρ : Type*) where
  slot : Option Nat
  jobs : List (Option ρ)
  uses : List SlotUse

namespace SharedSlot

variable {ρ : Type*}

def Running (s : SharedSlot ρ) (p : Nat) : Prop := s.jobs[p]? = some none

def Finished (s : SharedSlot ρ) (p : Nat) : Prop := ∃ r, s.jobs[p]? = some (some r)

/-- Some user has left the job after its end. -/
def Settled (s : SharedSlot ρ) (p : Nat) : Prop :=
  ∃ u ∈ s.uses, u.job = some p ∧ u.settled = true

/-- What can happen to a slot. -/
inductive Move (s : SharedSlot ρ) : SharedSlot ρ → Prop
  | refuse : Move s { s with uses := s.uses ++ [⟨none, false⟩] }
  | launch (hslot : s.slot = none) :
      Move s ⟨some s.jobs.length, s.jobs ++ [none], s.uses ++ [⟨some s.jobs.length, false⟩]⟩
  | join (p : Nat) (hslot : s.slot = some p) (hrunning : s.Running p) :
      Move s { s with uses := s.uses ++ [⟨some p, false⟩] }
  /-- A user finds a finished job and leaves with it at once. -/
  | collect (p : Nat) (hslot : s.slot = some p) (hfinished : s.Finished p) :
      Move s ⟨none, s.jobs, s.uses ++ [⟨some p, true⟩]⟩
  | finish (p : Nat) (r : ρ) (hrunning : s.Running p) :
      Move s { s with jobs := s.jobs.set p (some r) }
  | leave (c p : Nat) (u : SlotUse) (hu : s.uses[c]? = some u) (hjob : u.job = some p)
      (hfinished : s.Finished p) :
      Move s
        ⟨if s.slot = some p then none else s.slot, s.jobs, s.uses.set c ⟨some p, true⟩⟩

theorem not_finished_of_running {s : SharedSlot ρ} {p : Nat} (h : s.Running p) :
    ¬ s.Finished p := by
  rintro ⟨r, hr⟩
  rw [Running, hr] at h
  cases h

theorem lt_of_finished {s : SharedSlot ρ} {p : Nat} (h : s.Finished p) : p < s.jobs.length := by
  obtain ⟨r, hr⟩ := h
  exact (List.getElem?_eq_some_iff.mp hr).1

theorem settled_append {slot : Option Nat} {jobs : List (Option ρ)} {uses : List SlotUse}
    {u : SlotUse} {p : Nat} :
    Settled ⟨slot, jobs, uses ++ [u]⟩ p ↔
      Settled ⟨slot, jobs, uses⟩ p ∨ u.job = some p ∧ u.settled = true := by
  unfold Settled
  simp [or_and_right, exists_or]

/-- A user that leaves settles its job and no other. -/
theorem settled_set {slot : Option Nat} {jobs : List (Option ρ)} {uses : List SlotUse}
    {c p q : Nat} {u : SlotUse} (hu : uses[c]? = some u) (hjob : u.job = some p) :
    Settled ⟨slot, jobs, uses.set c ⟨some p, true⟩⟩ q ↔
      Settled ⟨slot, jobs, uses⟩ q ∨ q = p := by
  have hlt := (List.getElem?_eq_some_iff.mp hu).1
  constructor
  · rintro ⟨v, hv, hq, hsettled⟩
    obtain hmem | rfl := List.mem_or_eq_of_mem_set hv
    · exact .inl ⟨v, hmem, hq, hsettled⟩
    · exact .inr (Option.some.inj hq).symm
  · rintro (⟨v, hv, hq, hsettled⟩ | rfl)
    · obtain ⟨i, hi⟩ := List.mem_iff_getElem?.mp hv
      by_cases hic : i = c
      · rw [hic, hu] at hi
        obtain rfl := Option.some.inj hi
        rw [hjob] at hq
        obtain rfl := Option.some.inj hq
        exact ⟨⟨some p, true⟩, List.mem_set hlt _, rfl, rfl⟩
      · refine ⟨v, List.mem_iff_getElem?.mpr ⟨i, ?_⟩, hq, hsettled⟩
        rw [List.getElem?_set_ne (Ne.symm hic)]
        exact hi
    · exact ⟨⟨some q, true⟩, List.mem_set hlt _, rfl, rfl⟩

-- ============================================================================
-- The invariant
-- ============================================================================

structure Sound (s : SharedSlot ρ) : Prop where
  valid : ∀ p, s.slot = some p → p < s.jobs.length
  running : ∀ p, s.Running p → s.slot = some p
  settled : ∀ p, s.Settled p → s.Finished p
  finished : ∀ p, s.Finished p → (s.slot = some p ↔ ¬ s.Settled p)

theorem sound_empty : Sound (⟨none, [], []⟩ : SharedSlot ρ) where
  valid p h := by cases h
  running p h := by cases h
  settled p h := by
    obtain ⟨u, hu, -⟩ := h
    cases hu
  finished p h := by
    obtain ⟨r, hr⟩ := h
    cases hr

/-- A use that settles nothing changes nothing. -/
theorem Sound.use {s : SharedSlot ρ} (h : Sound s) (job : Option Nat) :
    Sound { s with uses := s.uses ++ [⟨job, false⟩] } := by
  have hsettled (p : Nat) :
      Settled { s with uses := s.uses ++ [⟨job, false⟩] } p ↔ s.Settled p := by
    rw [settled_append]
    simp
  refine ⟨h.valid, h.running, fun p hp => h.settled p ((hsettled p).mp hp), ?_⟩
  intro p hp
  rw [hsettled]
  exact h.finished p hp

theorem Sound.launch {s : SharedSlot ρ} (h : Sound s) (hslot : s.slot = none) :
    Sound ⟨some s.jobs.length, s.jobs ++ [none], s.uses⟩ := by
  refine ⟨?_, ?_, ?_, ?_⟩
  · intro p hp
    obtain rfl := Option.some.inj hp
    simp
  · intro p hp
    rw [Running, List.getElem?_append] at hp
    split at hp
    · have hold := h.running p hp
      rw [hslot] at hold
      cases hold
    · have hzero : p - s.jobs.length < 1 := (List.getElem?_eq_some_iff.mp hp).1
      show some s.jobs.length = some p
      rw [show p = s.jobs.length by omega]
  · intro p hp
    obtain ⟨r, hr⟩ := h.settled p hp
    refine ⟨r, ?_⟩
    show (s.jobs ++ [none])[p]? = some (some r)
    rw [List.getElem?_append_left (List.getElem?_eq_some_iff.mp hr).1]
    exact hr
  · rintro p ⟨r, hr⟩
    change (s.jobs ++ [none])[p]? = some (some r) at hr
    rw [List.getElem?_append] at hr
    split at hr
    · next hlt =>
        have hsettled : s.Settled p := by
          by_contra hnot
          have hold := (h.finished p ⟨r, hr⟩).mpr hnot
          rw [hslot] at hold
          cases hold
        refine iff_of_false ?_ (fun hnot => hnot hsettled)
        intro hp
        have heq : s.jobs.length = p := Option.some.inj hp
        omega
    · obtain ⟨hlt, hget⟩ := List.getElem?_eq_some_iff.mp hr
      simp at hget

/-- A finished job leaves the slot with the first user that settles it. -/
theorem Sound.retire {s : SharedSlot ρ} (h : Sound s) {p : Nat} (hp : s.Finished p)
    {uses : List SlotUse}
    (hsettled : ∀ q, Settled ⟨s.slot, s.jobs, uses⟩ q ↔ s.Settled q ∨ q = p) :
    Sound ⟨if s.slot = some p then none else s.slot, s.jobs, uses⟩ := by
  refine ⟨?_, ?_, ?_, ?_⟩
  · intro q hq
    change (if s.slot = some p then none else s.slot) = some q at hq
    split at hq
    · cases hq
    · exact h.valid q hq
  · intro q hq
    have hslot := h.running q hq
    have hne : s.slot ≠ some p := by
      intro heq
      obtain rfl : q = p := Option.some.inj (hslot.symm.trans heq)
      exact not_finished_of_running hq hp
    show (if s.slot = some p then none else s.slot) = some q
    rw [if_neg hne, hslot]
  · intro q hq
    obtain hold | rfl := (hsettled q).mp hq
    · exact h.settled q hold
    · exact hp
  · intro q hq
    have hiff := h.finished q hq
    have hnew : ¬ Settled ⟨s.slot, s.jobs, uses⟩ q ↔ s.slot = some q ∧ q ≠ p := by
      rw [hsettled q, not_or, hiff]
    show (if s.slot = some p then none else s.slot) = some q ↔ _
    refine Iff.trans ?_ hnew.symm
    split
    · next hslot =>
        rw [hslot]
        simp [eq_comm]
    · next hslot =>
        constructor
        · intro heq
          exact ⟨heq, fun hqp => hslot (hqp ▸ heq)⟩
        · exact And.left

theorem Sound.finish {s : SharedSlot ρ} (h : Sound s) {p : Nat} (hp : s.Running p) (r : ρ) :
    Sound { s with jobs := s.jobs.set p (some r) } := by
  have hlt : p < s.jobs.length := (List.getElem?_eq_some_iff.mp hp).1
  have hother {q : Nat} (hq : q ≠ p) : (s.jobs.set p (some r))[q]? = s.jobs[q]? :=
    List.getElem?_set_ne (Ne.symm hq)
  have hself : (s.jobs.set p (some r))[p]? = some (some r) := getElem?_set_of_some hp
  refine ⟨?_, ?_, ?_, ?_⟩
  · intro q hq
    show q < (s.jobs.set p (some r)).length
    rw [List.length_set]
    exact h.valid q hq
  · intro q hq
    have hne : q ≠ p := by
      rintro rfl
      rw [Running, hself] at hq
      cases hq
    rw [Running, hother hne] at hq
    exact h.running q hq
  · intro q hq
    obtain ⟨r', hr'⟩ := h.settled q hq
    have hne : q ≠ p := by
      rintro rfl
      exact not_finished_of_running hp ⟨r', hr'⟩
    exact ⟨r', (hother hne).trans hr'⟩
  · intro q hq
    by_cases hqp : q = p
    · subst hqp
      refine iff_of_true (h.running q hp) ?_
      intro hsettled
      exact not_finished_of_running hp (h.settled q hsettled)
    · obtain ⟨r', hr'⟩ := hq
      exact h.finished q ⟨r', (hother hqp).symm.trans hr'⟩

theorem Sound.move {s s' : SharedSlot ρ} (h : Sound s) (hmove : Move s s') : Sound s' := by
  cases hmove with
  | refuse => exact h.use none
  | launch hslot => exact (h.launch hslot).use _
  | join p hslot hrunning => exact h.use (some p)
  | collect p hslot hfinished =>
      have hsettled (q : Nat) : Settled ⟨s.slot, s.jobs, s.uses ++ [⟨some p, true⟩]⟩ q ↔
          s.Settled q ∨ q = p := by
        rw [settled_append]
        simp [eq_comm]
      have hretire := h.retire hfinished hsettled
      rw [if_pos hslot] at hretire
      exact hretire
  | finish p r hrunning => exact h.finish hrunning r
  | leave c p u hu hjob hfinished =>
      exact h.retire hfinished fun q => settled_set hu hjob

end SharedSlot

end QuickApi.Lib
