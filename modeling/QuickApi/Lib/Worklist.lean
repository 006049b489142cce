/-
  QuickApi.Lib.Worklist

  A check of a whole tree by a worklist: a node is taken off the list, checked,
  and its children are put on it, until the list is empty or a check fails.
-/

import QuickApi.Lib.Checked
import Mathlib.Algebra.GroupWithZero.Nat

namespace QuickApi.Lib

universe u v
variable {α : Type u} {ε : Type v}

/-- Nodes with children, each of which is smaller than its parent. -/
structure Branching (α : Type u) where
  children : α → List α
  size : α → Nat
  size_children : ∀ a, ((children a).map size).sum < size a

namespace Branching

variable (T : Branching α)

/-- The second node is the first one or a descendant of it. -/
inductive Descends : α → α → Prop where
  | refl (a : α) : Descends a a
  | child {a b c : α} : b ∈ T.children a → Descends b c → Descends a c

/-- The loop over a worklist, of which the end stands first: `pop` takes the first node and
    `extend` puts the children in front, in reverse. -/
def visit (check : α → Except ε PUnit.{u + 1}) : List α → Except ε PUnit.{u + 1}
  | [] => .ok ⟨⟩
  | a :: pending => check a >>= fun _ => visit check ((T.children a).reverse ++ pending)
termination_by pending => (pending.map T.size).sum
decreasing_by
  have hsize := T.size_children a
  simp only [List.unattach_reverse, List.unattach_attach, List.map_append, List.map_reverse,
    List.sum_append, List.sum_reverse, List.map_cons, List.sum_cons]
  omega

theorem visit_cons (check : α → Except ε PUnit) (a : α) (pending : List α) :
    T.visit check (a :: pending) =
      check a >>= fun _ => T.visit check ((T.children a).reverse ++ pending) := by
  rw [visit]

/-- The loop succeeds if every node of every tree on the list passes. -/
theorem visit_eq_ok_iff {check : α → Except ε PUnit} {pending : List α} :
    T.visit check pending = .ok ⟨⟩ ↔
      ∀ a ∈ pending, ∀ b, T.Descends a b → check b = .ok ⟨⟩ := by
  induction pending using visit.induct T with
  | case1 => simp [visit]
  | case2 a pending ih =>
      rw [List.unattach_reverse, List.unattach_attach] at ih
      rw [visit_cons, Checked.bind_eq_ok_iff, List.forall_mem_cons]
      simp only [ih, List.mem_append, List.mem_reverse]
      constructor
      · rintro ⟨_, hcheck, hrest⟩
        refine ⟨?_, fun b hb => hrest b (.inr hb)⟩
        rintro b (_ | ⟨hchild, hdescends⟩)
        · exact hcheck
        · exact hrest _ (.inl hchild) b hdescends
      · rintro ⟨htree, hrest⟩
        refine ⟨⟨⟩, htree a (.refl a), ?_⟩
        rintro b (hchild | hpending)
        · exact fun c hdescends => htree c (.child hchild hdescends)
        · exact hrest b hpending

end Branching

end QuickApi.Lib
