/-
  QuickApi.Lib.Coroutine

  Programs that suspend at operations.  A program takes the state it starts in
  to a tree: the tree ends with an outcome, or stops at an operation, shows its
  state, and goes on with the answer in the state it finds then.

  A contract says which operations a program may perform in which state of a
  ghost, what others may do to the shared state meanwhile, and what the ghost
  becomes behind an answer.  `Program.wp` is the weakest precondition of a
  program under a contract, whatever the answers are, and `Program.Triple` the
  Hoare triple it gives; there is one rule for each way to build a program.
-/

import Mathlib.Logic.Basic

namespace QuickApi.Lib

-- ============================================================================
-- Trees
-- ============================================================================

/-- A run of a program as far as the operations go. -/
inductive Coro (Op : Type) (Ans : Op → Type) (σ ρ : Type) where
  | ret (s : σ) (r : ρ)
  | call (s : σ) (op : Op) (k : Ans op → σ → Coro Op Ans σ ρ)

namespace Coro

variable {Op : Type} {Ans : Op → Type} {σ ρ ρ' : Type}

/-- The state the tree shows. -/
def state : Coro Op Ans σ ρ → σ
  | .ret s _ => s
  | .call s _ _ => s

/-- The operation the tree has stopped at. -/
def pending : Coro Op Ans σ ρ → Option Op
  | .ret _ _ => none
  | .call _ op _ => some op

/-- The outcome of a tree that has ended. -/
def outcome : Coro Op Ans σ ρ → Option ρ
  | .ret _ r => some r
  | .call _ _ _ => none

def bind : Coro Op Ans σ ρ → (σ → ρ → Coro Op Ans σ ρ') → Coro Op Ans σ ρ'
  | .ret s r, f => f s r
  | .call s op k, f => .call s op fun a s' => (k a s').bind f

end Coro

/-- Which operations are allowed, what others may do to the state during one, and the ghost
    behind its answer in the state found then. -/
structure Contract (Op : Type) (Ans : Op → Type) (σ γ : Type) where
  allowed : γ → σ → Op → Prop
  rely : Op → σ → σ → Prop
  after : γ → (op : Op) → Ans op → σ → γ

namespace Coro

variable {Op : Type} {Ans : Op → Type} {σ γ ρ ρ' : Type}

/-- Under every answer the tree performs allowed operations only, and ends in `Q`. -/
def Conforms (C : Contract Op Ans σ γ) : Coro Op Ans σ ρ → γ → (γ → σ → ρ → Prop) → Prop
  | .ret s r, g, Q => Q g s r
  | .call s op k, g, Q =>
      C.allowed g s op ∧ ∀ a s', C.rely op s s' → (k a s').Conforms C (C.after g op a s') Q

variable {C : Contract Op Ans σ γ}

theorem Conforms.mono {t : Coro Op Ans σ ρ} {g : γ} {Q Q' : γ → σ → ρ → Prop}
    (h : t.Conforms C g Q) (hQ : ∀ g s r, Q g s r → Q' g s r) : t.Conforms C g Q' := by
  induction t generalizing g with
  | ret s r => exact hQ g s r h
  | call s op k ih => exact ⟨h.1, fun a s' hs => ih a s' (h.2 a s' hs)⟩

theorem conforms_bind {t : Coro Op Ans σ ρ} {f : σ → ρ → Coro Op Ans σ ρ'} {g : γ}
    {Q : γ → σ → ρ' → Prop} :
    (t.bind f).Conforms C g Q ↔ t.Conforms C g fun g s r => (f s r).Conforms C g Q := by
  induction t generalizing g with
  | ret s r => exact Iff.rfl
  | call s op k ih =>
      exact and_congr_right fun _ =>
        forall_congr' fun a => forall_congr' fun s' => imp_congr_right fun _ => ih a s'

end Coro

-- ============================================================================
-- Programs
-- ============================================================================

/-- A program over the state `σ` that returns an `α` or raises an `ε`. -/
def Program (Op : Type) (Ans : Op → Type) (σ ε α : Type) : Type :=
  σ → Coro Op Ans σ (Except ε α)

namespace Program

variable {Op : Type} {Ans : Op → Type} {σ γ ε α β : Type}

protected def pure (a : α) : Program Op Ans σ ε α := fun s => .ret s (.ok a)

protected def bind (p : Program Op Ans σ ε α) (f : α → Program Op Ans σ ε β) :
    Program Op Ans σ ε β := fun s =>
  (p s).bind fun s r =>
    match r with
    | .ok a => f a s
    | .error e => .ret s (.error e)

instance : Monad (Program Op Ans σ ε) where
  pure := Program.pure
  bind := Program.bind

/-- The state. -/
def get : Program Op Ans σ ε σ := fun s => .ret s (.ok s)

def modify (f : σ → σ) : Program Op Ans σ ε Unit := fun s => .ret (f s) (.ok ())

def raise (e : ε) : Program Op Ans σ ε α := fun s => .ret s (.error e)

/-- The answer to an operation. -/
def perform (op : Op) : Program Op Ans σ ε (Ans op) := fun s =>
  .call s op fun a s' => .ret s' (.ok a)

/-- The outcome of `p` as a value. -/
def attempt (p : Program Op Ans σ ε α) : Program Op Ans σ ε (Except ε α) := fun s =>
  (p s).bind fun s r => .ret s (.ok r)

/-- `p`, with a handler for whatever it raises. -/
def handle (p : Program Op Ans σ ε α) (h : ε → Program Op Ans σ ε α) : Program Op Ans σ ε α :=
  fun s =>
    (p s).bind fun s r =>
      match r with
      | .ok a => .ret s (.ok a)
      | .error e => h e s

/-- `p` and then, whatever its outcome, `q`; an exception of `q` replaces the outcome. -/
def finallyDo (p : Program Op Ans σ ε α) (q : Except ε α → Program Op Ans σ ε Unit) :
    Program Op Ans σ ε α := fun s =>
  (p s).bind fun s r =>
    (q r s).bind fun s r' =>
      match r' with
      | .ok () => .ret s r
      | .error e => .ret s (.error e)

-- ============================================================================
-- Weakest preconditions
-- ============================================================================

variable {C : Contract Op Ans σ γ} {g : γ} {s : σ}

/-- From the ghost `g` and the state `s` the program keeps the contract and ends in `Q`. -/
def wp (C : Contract Op Ans σ γ) (p : Program Op Ans σ ε α) (g : γ) (s : σ)
    (Q : γ → σ → Except ε α → Prop) : Prop := (p s).Conforms C g Q

theorem wp_mono {p : Program Op Ans σ ε α} {Q Q' : γ → σ → Except ε α → Prop}
    (h : p.wp C g s Q) (hQ : ∀ g s r, Q g s r → Q' g s r) : p.wp C g s Q' :=
  Coro.Conforms.mono h hQ

@[simp] theorem wp_pure {a : α} {Q : γ → σ → Except ε α → Prop} :
    (pure a : Program Op Ans σ ε α).wp C g s Q ↔ Q g s (.ok a) := Iff.rfl

@[simp] theorem wp_get {Q : γ → σ → Except ε σ → Prop} :
    (get : Program Op Ans σ ε σ).wp C g s Q ↔ Q g s (.ok s) := Iff.rfl

@[simp] theorem wp_modify {f : σ → σ} {Q : γ → σ → Except ε Unit → Prop} :
    (modify f : Program Op Ans σ ε Unit).wp C g s Q ↔ Q g (f s) (.ok ()) := Iff.rfl

@[simp] theorem wp_raise {e : ε} {Q : γ → σ → Except ε α → Prop} :
    (raise e : Program Op Ans σ ε α).wp C g s Q ↔ Q g s (.error e) := Iff.rfl

theorem wp_perform {op : Op} {Q : γ → σ → Except ε (Ans op) → Prop} :
    (perform op : Program Op Ans σ ε (Ans op)).wp C g s Q ↔
      C.allowed g s op ∧ ∀ a s', C.rely op s s' → Q (C.after g op a s') s' (.ok a) := Iff.rfl

@[simp] theorem wp_bind {p : Program Op Ans σ ε α} {f : α → Program Op Ans σ ε β}
    {Q : γ → σ → Except ε β → Prop} :
    (p >>= f).wp C g s Q ↔
      p.wp C g s fun g s r =>
        match r with
        | .ok a => (f a).wp C g s Q
        | .error e => Q g s (.error e) := by
  refine Coro.conforms_bind.trans ⟨fun h => h.mono ?_, fun h => h.mono ?_⟩
  all_goals
    rintro g s (e | a) h
    · exact h
    · exact h

@[simp] theorem wp_attempt {p : Program Op Ans σ ε α}
    {Q : γ → σ → Except ε (Except ε α) → Prop} :
    p.attempt.wp C g s Q ↔ p.wp C g s fun g s r => Q g s (.ok r) := Coro.conforms_bind

@[simp] theorem wp_handle {p : Program Op Ans σ ε α} {h : ε → Program Op Ans σ ε α}
    {Q : γ → σ → Except ε α → Prop} :
    (p.handle h).wp C g s Q ↔
      p.wp C g s fun g s r =>
        match r with
        | .ok a => Q g s (.ok a)
        | .error e => (h e).wp C g s Q := by
  refine Coro.conforms_bind.trans ⟨fun h => h.mono ?_, fun h => h.mono ?_⟩
  all_goals
    rintro g s (e | a) h
    · exact h
    · exact h

@[simp] theorem wp_finallyDo {p : Program Op Ans σ ε α}
    {q : Except ε α → Program Op Ans σ ε Unit} {Q : γ → σ → Except ε α → Prop} :
    (p.finallyDo q).wp C g s Q ↔
      p.wp C g s fun g s r =>
        (q r).wp C g s fun g s r' =>
          match r' with
          | .ok () => Q g s r
          | .error e => Q g s (.error e) := by
  refine Coro.conforms_bind.trans ⟨fun h => h.mono ?_, fun h => h.mono ?_⟩
  · intro g s r hq
    refine (Coro.conforms_bind.mp hq).mono ?_
    rintro g s (e | a) h
    · exact h
    · exact h
  · intro g s r hq
    refine Coro.conforms_bind.mpr (Coro.Conforms.mono hq ?_)
    rintro g s (e | a) h
    · exact h
    · exact h

-- ============================================================================
-- Triples
-- ============================================================================

/-- From every ghost and state in `P` the program keeps the contract; where it returns `a` it
    ends in `Q a`, and where it raises `e`, in `E e`. -/
def Triple (C : Contract Op Ans σ γ) (P : γ → σ → Prop) (p : Program Op Ans σ ε α)
    (Q : α → γ → σ → Prop) (E : ε → γ → σ → Prop) : Prop :=
  ∀ g s, P g s → p.wp C g s fun g s r =>
    match r with
    | .ok a => Q a g s
    | .error e => E e g s

section Rules

variable {P P' : γ → σ → Prop} {Q S : α → γ → σ → Prop} {E F : ε → γ → σ → Prop}
  {p : Program Op Ans σ ε α}

theorem Triple.conseq (h : Triple C P p Q E) (hP : ∀ g s, P' g s → P g s)
    (hQ : ∀ a g s, Q a g s → S a g s) (hE : ∀ e g s, E e g s → F e g s) :
    Triple C P' p S F := by
  intro g s hs
  refine wp_mono (h g s (hP g s hs)) ?_
  rintro g s (e | a) hr
  · exact hE e g s hr
  · exact hQ a g s hr

theorem Triple.pre (h : Triple C P p Q E) (hP : ∀ g s, P' g s → P g s) : Triple C P' p Q E :=
  h.conseq hP (fun _ _ _ h => h) fun _ _ _ h => h

theorem Triple.post (h : Triple C P p Q E) (hQ : ∀ a g s, Q a g s → S a g s) :
    Triple C P p S E := h.conseq (fun _ _ h => h) hQ fun _ _ _ h => h

/-- A condition that does not depend on the state may be assumed. -/
theorem Triple.of_cond {c : Prop} (h : c → Triple C P p Q E) (hP : ∀ g s, P g s → c) :
    Triple C P p Q E := fun g s hs => h (hP g s hs) g s hs

theorem triple_pure {a : α} (h : ∀ g s, P g s → Q a g s) :
    Triple C P (pure a : Program Op Ans σ ε α) Q E := h

theorem triple_raise {e : ε} (h : ∀ g s, P g s → E e g s) :
    Triple C P (raise e : Program Op Ans σ ε α) Q E := h

theorem triple_modify {f : σ → σ} {Q : Unit → γ → σ → Prop} (h : ∀ g s, P g s → Q () g (f s)) :
    Triple C P (modify f : Program Op Ans σ ε Unit) Q E := h

theorem Triple.bind {f : α → Program Op Ans σ ε β} {R : β → γ → σ → Prop}
    (hp : Triple C P p Q E) (hf : ∀ a, Triple C (Q a) (f a) R E) :
    Triple C P (p >>= f) R E := by
  intro g s hs
  refine wp_bind.mpr (wp_mono (hp g s hs) ?_)
  rintro g s (e | a) hr
  · exact hr
  · exact hf a g s hr

theorem Triple.attempt {R : Except ε α → γ → σ → Prop} (hp : Triple C P p Q F)
    (hok : ∀ a g s, Q a g s → R (.ok a) g s) (herr : ∀ e g s, F e g s → R (.error e) g s) :
    Triple C P p.attempt R E := by
  intro g s hs
  refine wp_attempt.mpr (wp_mono (hp g s hs) ?_)
  rintro g s (e | a) hr
  · exact herr e g s hr
  · exact hok a g s hr

theorem Triple.handle {h : ε → Program Op Ans σ ε α} (hp : Triple C P p Q F)
    (hh : ∀ e, Triple C (F e) (h e) Q E) : Triple C P (p.handle h) Q E := by
  intro g s hs
  refine wp_handle.mpr (wp_mono (hp g s hs) ?_)
  rintro g s (e | a) hr
  · exact hh e g s hr
  · exact hr

theorem Triple.finallyDo {q : Except ε α → Program Op Ans σ ε Unit}
    (hp : Triple C P p S F) (hok : ∀ a, Triple C (S a) (q (.ok a)) (fun _ => Q a) E)
    (herr : ∀ e, Triple C (F e) (q (.error e)) (fun _ => E e) E) :
    Triple C P (p.finallyDo q) Q E := by
  intro g s hs
  refine wp_finallyDo.mpr (wp_mono (hp g s hs) ?_)
  rintro g s (e | a) hr
  · refine wp_mono (herr e g s hr) ?_
    rintro g s (e' | u) hr'
    · exact hr'
    · exact hr'
  · refine wp_mono (hok a g s hr) ?_
    rintro g s (e' | u) hr'
    · exact hr'
    · exact hr'

end Rules

end Program

end QuickApi.Lib
