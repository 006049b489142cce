/-
  QuickApi.Lib.Interposition

  Layers around a program: every operation that the program performs is handled
  by the layer, which keeps a state of its own and performs operations outside.
  A layer that simulates an inner contract under an outer one takes every
  program that keeps the inner contract to one that keeps the outer
  (`Program.wp_through`).
-/

import QuickApi.Lib.Coroutine

namespace QuickApi.Lib

variable {Op : Type} {Ans : Op → Type} {σ τ γ γ' ρ ε ε' α : Type}

/-- How an operation is handled in a state of the layer: the answer, and the state behind it. -/
def Layer (Op : Type) (Ans : Op → Type) (σ τ : Type) : Type :=
  τ → (op : Op) → σ → Coro Op Ans σ (Ans op × τ)

/-- The tree with its operations handled by the layer. -/
def Coro.through (L : Layer Op Ans σ τ) : τ → Coro Op Ans σ ρ → Coro Op Ans σ (ρ × τ)
  | t, .ret s r => .ret s (r, t)
  | t, .call s op k => (L t op s).bind fun s' a => Coro.through L a.2 (k a.1 s')

/-- Where `R` relates the ghosts, the layer performs an operation that is allowed inside by
    operations that are allowed outside, and its answer relates the ghosts again. -/
def Layer.Simulates (L : Layer Op Ans σ τ) (inner : Contract Op Ans σ γ')
    (outer : Contract Op Ans σ γ) (R : γ' → τ → γ → Prop) : Prop :=
  ∀ g' t g s op, R g' t g → inner.allowed g' s op →
    (L t op s).Conforms outer g fun g s' a =>
      inner.rely op s s' ∧ R (inner.after g' op a.1 s') a.2 g

variable {L : Layer Op Ans σ τ} {inner : Contract Op Ans σ γ'} {outer : Contract Op Ans σ γ}
  {R : γ' → τ → γ → Prop}

/-- Trees that keep the inner contract keep the outer one through the layer. -/
theorem Coro.Conforms.through (hL : L.Simulates inner outer R) {tree : Coro Op Ans σ ρ} {g' : γ'}
    {t : τ} {g : γ} {Q : γ' → σ → ρ → Prop} (htree : tree.Conforms inner g' Q) (hR : R g' t g) :
    (tree.through L t).Conforms outer g fun g s r => ∃ g', R g' r.2 g ∧ Q g' s r.1 := by
  induction tree generalizing g' t g with
  | ret s r => exact ⟨g', hR, htree⟩
  | call s op k ih =>
      obtain ⟨hallowed, hrest⟩ := htree
      apply Coro.conforms_bind.mpr
      apply (hL g' t g s op hR hallowed).mono
      rintro g s' a ⟨hrely, hR'⟩
      exact ih a.1 s' (hrest a.1 s' hrely) hR'

/-- Where `R` relates the ghosts, what is allowed under the inner contract is allowed under the
    outer one, and the answers relate the ghosts again. -/
def Contract.Refines (outer : Contract Op Ans σ γ) (inner : Contract Op Ans σ γ')
    (R : γ' → γ → Prop) : Prop :=
  ∀ g' g s op, R g' g → inner.allowed g' s op → outer.allowed g s op ∧
    ∀ a s', outer.rely op s s' →
      inner.rely op s s' ∧ R (inner.after g' op a s') (outer.after g op a s')

/-- Without a layer in between. -/
theorem Coro.Conforms.refines {R : γ' → γ → Prop} (hR : outer.Refines inner R)
    {tree : Coro Op Ans σ ρ} {g' : γ'} {g : γ} {Q : γ' → σ → ρ → Prop}
    (htree : tree.Conforms inner g' Q) (h : R g' g) :
    tree.Conforms outer g fun g s r => ∃ g', R g' g ∧ Q g' s r := by
  induction tree generalizing g' g with
  | ret s r => exact ⟨g', h, htree⟩
  | call s op k ih =>
      obtain ⟨hallowed, hrest⟩ := htree
      obtain ⟨houter, hanswers⟩ := hR g' g s op h hallowed
      refine ⟨houter, ?_⟩
      intro a s' hrely
      obtain ⟨hrely', h'⟩ := hanswers a s' hrely
      exact ih a s' (hrest a s' hrely') h'

namespace Program

/-- The program inside the layer: its outcome, and the state that the layer is left in. -/
def through (L : Layer Op Ans σ τ) (t : τ) (p : Program Op Ans σ ε α) :
    Program Op Ans σ ε' (Except ε α × τ) := fun s =>
  ((p s).through L t).bind fun s r => .ret s (.ok r)

theorem wp_through (hL : L.Simulates inner outer R) {p : Program Op Ans σ ε α} {g' : γ'} {t : τ}
    {g : γ} {s : σ} {Q : γ' → σ → Except ε α → Prop} (hp : p.wp inner g' s Q) (hR : R g' t g) :
    (p.through L t : Program Op Ans σ ε' _).wp outer g s fun g s r =>
      ∃ result t' g', r = .ok (result, t') ∧ R g' t' g ∧ Q g' s result := by
  apply Coro.conforms_bind.mpr
  apply (hp.through hL hR).mono
  rintro g s ⟨result, t'⟩ ⟨g', hR', hQ⟩
  exact ⟨result, t', g', rfl, hR', hQ⟩

theorem wp_refines {R : γ' → γ → Prop} (hR : outer.Refines inner R) {p : Program Op Ans σ ε α}
    {g' : γ'} {g : γ} {s : σ} {Q : γ' → σ → Except ε α → Prop} (hp : p.wp inner g' s Q)
    (h : R g' g) : p.wp outer g s fun g s r => ∃ g', R g' g ∧ Q g' s r :=
  Coro.Conforms.refines hR hp h

end Program

end QuickApi.Lib
