/-
  QuickApi.Lib.Checked

  Computations that stop at the first error, and loops over them: a loop that
  does not stop has treated every element in turn.
-/

import Mathlib.Data.List.Forall2

namespace QuickApi.Lib

namespace Checked

universe u v
variable {ε : Type v} {α β : Type u}

theorem bind_eq_ok_iff {x : Except ε α} {f : α → Except ε β} {b : β} :
    (x >>= f) = .ok b ↔ ∃ a, x = .ok a ∧ f a = .ok b := by
  cases x with
  | error e => simp [bind, Except.bind]
  | ok a => simp [bind, Except.bind]

theorem bind_eq_error_iff {x : Except ε α} {f : α → Except ε β} {e : ε} :
    (x >>= f) = .error e ↔ x = .error e ∨ ∃ a, x = .ok a ∧ f a = .error e := by
  cases x with
  | error e' => simp [bind, Except.bind]
  | ok a => simp [bind, Except.bind]

theorem map_eq_ok_iff {x : Except ε α} {f : α → β} {b : β} :
    (f <$> x) = .ok b ↔ ∃ a, x = .ok a ∧ f a = b := by
  cases x with
  | error e => simp [Functor.map, Except.map]
  | ok a => simp [Functor.map, Except.map]

/-- A check in front of a computation. -/
theorem guard_eq_ok_iff {c : Prop} [Decidable c] {e : ε} {x : Except ε α} {a : α} :
    (if c then Except.error e else x) = .ok a ↔ ¬ c ∧ x = .ok a := by
  by_cases hc : c <;> simp [hc]

theorem mapM_eq_ok_iff {f : α → Except ε β} {xs : List α} {ys : List β} :
    xs.mapM f = .ok ys ↔ List.Forall₂ (fun x y => f x = .ok y) xs ys := by
  induction xs generalizing ys with
  | nil => simp [pure, Except.pure, eq_comm]
  | cons x xs ih =>
      rw [List.mapM_cons, bind_eq_ok_iff]
      constructor
      · rintro ⟨y, hy, h⟩
        obtain ⟨ys', hys, h⟩ := bind_eq_ok_iff.mp h
        obtain rfl := Except.ok.inj h
        exact .cons hy (ih.mp hys)
      · rintro (_ | ⟨hy, hys⟩)
        exact ⟨_, hy, bind_eq_ok_iff.mpr ⟨_, ih.mpr hys, rfl⟩⟩

/-- A search that finds nothing has looked at everything. -/
theorem anyM_eq_ok_false {p : α → Except ε Bool} {xs : List α}
    (h : xs.anyM p = .ok false) : ∀ x ∈ xs, p x = .ok false := by
  induction xs with
  | nil => simp
  | cons x xs ih =>
      rw [List.anyM] at h
      cases hx : p x with
      | error e => simp [hx, bind, Except.bind] at h
      | ok found =>
          cases found with
          | true => simp [hx, bind, Except.bind, pure, Except.pure] at h
          | false =>
              simp only [hx, bind, Except.bind] at h
              exact List.forall_mem_cons.mpr ⟨hx, ih h⟩

/-- A loop that only checks has checked everything. -/
theorem forM_eq_ok {f : α → Except ε PUnit} {xs : List α} {u : PUnit} (h : xs.forM f = .ok u) :
    ∀ x ∈ xs, f x = .ok ⟨⟩ := by
  induction xs with
  | nil => simp
  | cons x xs ih =>
      obtain ⟨_, hx, hxs⟩ := bind_eq_ok_iff.mp h
      exact List.forall_mem_cons.mpr ⟨hx, ih hxs⟩

/-- A loop whose steps commute with `g` commutes with it. -/
theorem foldlM_hom {γ : Type u} {g : β → γ} {f : β → α → Except ε β} {f' : γ → α → Except ε γ}
    (h : ∀ b x, f' (g b) x = g <$> f b x) (xs : List α) (b : β) :
    xs.foldlM f' (g b) = g <$> xs.foldlM f b := by
  induction xs generalizing b with
  | nil => rfl
  | cons x xs ih =>
      rw [List.foldlM_cons, List.foldlM_cons, h, map_bind, bind_map_left]
      exact bind_congr fun b' => ih b'

/-- What the errors of the steps satisfy, those of the loop do. -/
theorem foldlM_error {P : ε → Prop} {f : β → α → Except ε β} {xs : List α}
    (h : ∀ b, ∀ x ∈ xs, ∀ e, f b x = .error e → P e) {b : β} {e : ε}
    (hfold : xs.foldlM f b = .error e) : P e := by
  induction xs generalizing b with
  | nil => cases hfold
  | cons x xs ih =>
      rw [List.foldlM_cons] at hfold
      cases hx : f b x with
      | error e' =>
          rw [hx] at hfold
          obtain rfl := Except.error.inj hfold
          exact h b x List.mem_cons_self e' hx
      | ok b' =>
          rw [hx] at hfold
          exact ih (fun b x hx => h b x (List.mem_cons_of_mem _ hx)) hfold

end Checked

end QuickApi.Lib
