/-
  QuickApi.Lib.Transition

  Transition systems whose step is a partial function of a state and an event;
  every choice of the environment is part of the event, so that a run is a list
  of events and can be evaluated.  The rules derive what holds of every run
  from what one step does.
-/

import Mathlib.Logic.Basic

namespace QuickApi.Lib

/-- Initial states, and the state an event leads to where it is enabled. -/
structure System (σ ε : Type*) where
  init : σ → Prop
  next : σ → ε → Option σ

namespace System

variable {σ ε : Type*} {S : System σ ε}

/-- The state after a list of events, if each is enabled in turn. -/
def run (S : System σ ε) : σ → List ε → Option σ
  | s, [] => some s
  | s, e :: es => (S.next s e).bind fun s' => S.run s' es

@[simp] theorem run_nil (s : σ) : S.run s [] = some s := rfl

theorem run_cons_eq_some_iff {s s' : σ} {e : ε} {es : List ε} :
    S.run s (e :: es) = some s' ↔ ∃ m, S.next s e = some m ∧ S.run m es = some s' := by
  rw [run, Option.bind_eq_some_iff]

theorem run_append {s s' : σ} {es fs : List ε} :
    S.run s (es ++ fs) = some s' ↔ ∃ m, S.run s es = some m ∧ S.run m fs = some s' := by
  induction es generalizing s with
  | nil => simp
  | cons e es ih =>
      rw [List.cons_append, run_cons_eq_some_iff]
      constructor
      · rintro ⟨m, hm, hrest⟩
        obtain ⟨m', hm', hrest'⟩ := ih.mp hrest
        exact ⟨m', run_cons_eq_some_iff.mpr ⟨m, hm, hm'⟩, hrest'⟩
      · rintro ⟨m', hm', hrest'⟩
        obtain ⟨m, hm, hrest⟩ := run_cons_eq_some_iff.mp hm'
        exact ⟨m, hm, ih.mpr ⟨m', hrest, hrest'⟩⟩

theorem run_snoc {s s' m : σ} {es : List ε} {e : ε} (hrun : S.run s es = some m)
    (hnext : S.next m e = some s') : S.run s (es ++ [e]) = some s' :=
  run_append.mpr ⟨m, hrun, run_cons_eq_some_iff.mpr ⟨s', hnext, run_nil s'⟩⟩

/-- Some run from an initial state ends in `s`. -/
def Reachable (S : System σ ε) (s : σ) : Prop :=
  ∃ s₀ es, S.init s₀ ∧ S.run s₀ es = some s

theorem Reachable.run {s s' : σ} {es : List ε} (hs : S.Reachable s)
    (hrun : S.run s es = some s') : S.Reachable s' := by
  obtain ⟨s₀, fs, hinit, hfs⟩ := hs
  exact ⟨s₀, fs ++ es, hinit, run_append.mpr ⟨s, hfs, hrun⟩⟩

theorem Reachable.next {s s' : σ} {e : ε} (hs : S.Reachable s)
    (hnext : S.next s e = some s') : S.Reachable s' :=
  hs.run (run_cons_eq_some_iff.mpr ⟨s', hnext, run_nil s'⟩)

/-- What a run preserves when every step does. -/
theorem run_preserves {P : σ → Prop} (step : ∀ s e s', P s → S.next s e = some s' → P s')
    {s s' : σ} {es : List ε} (hs : P s) (hrun : S.run s es = some s') : P s' := by
  induction es generalizing s with
  | nil =>
      obtain rfl := Option.some.inj hrun
      exact hs
  | cons e es ih =>
      obtain ⟨m, hnext, hrest⟩ := run_cons_eq_some_iff.mp hrun
      exact ih (step s e m hs hnext) hrest

/-- Where a run comes to meet `P`, one of its events has led to it. -/
theorem run_reaches {P : σ → Prop} {s s' : σ} {es : List ε} (hs : ¬ P s)
    (hrun : S.run s es = some s') (hP : P s') :
    ∃ pre e post m m', es = pre ++ e :: post ∧ S.run s pre = some m ∧ S.next m e = some m' ∧
      ¬ P m ∧ P m' := by
  induction es generalizing s with
  | nil =>
      obtain rfl := Option.some.inj hrun
      exact absurd hP hs
  | cons e es ih =>
      obtain ⟨m, hnext, hrest⟩ := run_cons_eq_some_iff.mp hrun
      by_cases hm : P m
      · exact ⟨[], e, es, s, m, rfl, rfl, hnext, hs, hm⟩
      · obtain ⟨pre, e', post, n, n', rfl, hpre, hstep⟩ := ih hm hrest
        exact ⟨e :: pre, e', post, n, n', rfl, run_cons_eq_some_iff.mpr ⟨m, hnext, hpre⟩, hstep⟩

/-- A property of the initial states that every step preserves. -/
structure Invariant (S : System σ ε) (P : σ → Prop) : Prop where
  init : ∀ s, S.init s → P s
  step : ∀ s e s', P s → S.next s e = some s' → P s'

theorem Invariant.of_reachable {P : σ → Prop} (hP : S.Invariant P) {s : σ}
    (hs : S.Reachable s) : P s := by
  obtain ⟨s₀, es, hinit, hrun⟩ := hs
  exact run_preserves hP.step (hP.init s₀ hinit) hrun

/-- Every event of a list meets `C` in the state it finds. -/
def Along (S : System σ ε) (C : σ → ε → Prop) : σ → List ε → Prop
  | _, [] => True
  | s, e :: es => C s e ∧ ∀ m, S.next s e = some m → S.Along C m es

theorem Along.cons {C : σ → ε → Prop} {s m : σ} {e : ε} {es : List ε} (hC : C s e)
    (hnext : S.next s e = some m) (hrest : S.Along C m es) : S.Along C s (e :: es) := by
  refine ⟨hC, fun m' hm' => ?_⟩
  obtain rfl := Option.some.inj (hnext.symm.trans hm')
  exact hrest

theorem along_append {C : σ → ε → Prop} {s : σ} {es fs : List ε} :
    S.Along C s (es ++ fs) ↔ S.Along C s es ∧ ∀ m, S.run s es = some m → S.Along C m fs := by
  induction es generalizing s with
  | nil => simp [Along]
  | cons e es ih =>
      simp only [List.cons_append, Along, run_cons_eq_some_iff, ih]
      constructor
      · rintro ⟨hC, hrest⟩
        exact ⟨⟨hC, fun m hm => (hrest m hm).1⟩, fun s' ⟨m, hm, hs'⟩ => (hrest m hm).2 s' hs'⟩
      · rintro ⟨⟨hC, hrest⟩, hfs⟩
        exact ⟨hC, fun m hm => ⟨hrest m hm, fun s' hs' => hfs s' ⟨m, hm, hs'⟩⟩⟩

instance decidableAlong {C : σ → ε → Prop} [∀ s e, Decidable (C s e)] :
    ∀ (s : σ) (es : List ε), Decidable (S.Along C s es)
  | _, [] => isTrue trivial
  | s, e :: es =>
      match h : S.next s e with
      | none => decidable_of_iff (C s e) (by simp [Along, h])
      | some m =>
          have : Decidable (S.Along C m es) := decidableAlong m es
          decidable_of_iff (C s e ∧ S.Along C m es) (by simp [Along, h])

/-- What a run preserves when every step that meets `C` does, and the run meets `C`. -/
theorem run_preserves_along {P : σ → Prop} {C : σ → ε → Prop}
    (step : ∀ s e s', P s → C s e → S.next s e = some s' → P s')
    {s s' : σ} {es : List ε} (hs : P s) (hC : S.Along C s es) (hrun : S.run s es = some s') :
    P s' := by
  induction es generalizing s with
  | nil =>
      obtain rfl := Option.some.inj hrun
      exact hs
  | cons e es ih =>
      obtain ⟨m, hnext, hrest⟩ := run_cons_eq_some_iff.mp hrun
      exact ih (step s e m hs hC.1 hnext) (hC.2 m hnext) hrest

/-- Where a step keeps `Q` exactly if it meets `C`, a run does so exactly if it meets `C`
    throughout. -/
theorem Invariant.along_iff {P Q : σ → Prop} (hP : S.Invariant P) {C : σ → ε → Prop}
    (step : ∀ s e s', P s → S.next s e = some s' → (Q s' ↔ Q s ∧ C s e))
    {s s' : σ} {es : List ε} (hs : P s) (hrun : S.run s es = some s') :
    Q s' ↔ Q s ∧ S.Along C s es := by
  induction es generalizing s with
  | nil =>
      obtain rfl := Option.some.inj hrun
      exact (and_iff_left trivial).symm
  | cons e es ih =>
      obtain ⟨m, hnext, hrest⟩ := run_cons_eq_some_iff.mp hrun
      rw [ih (hP.step s e m hs hnext) hrest, step s e m hs hnext, and_assoc]
      refine and_congr_right fun _ => ⟨fun h => Along.cons h.1 hnext h.2, ?_⟩
      exact fun h => ⟨h.1, h.2 m hnext⟩

end System

end QuickApi.Lib
