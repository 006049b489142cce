/-
  QuickApi.Lib.SortedList

  Lists whose elements appear in nondecreasing order of a key: what lies at or
  below a cutoff is a prefix, so dropping from the front and filtering agree.
-/

import Mathlib.Data.List.Basic
import Mathlib.Order.Lattice
import Mathlib.Order.CompleteLattice.Defs

namespace QuickApi.Lib

variable {α τ : Type*} [LinearOrder τ]

/-- Dropping the leading elements at or below a cutoff keeps exactly those above it. -/
theorem dropWhile_le_eq_filter_lt {f : α → τ} {l : List α} (cutoff : τ)
    (hsorted : l.Pairwise (fun a b => f a ≤ f b)) :
    l.dropWhile (fun a => decide (f a ≤ cutoff)) = l.filter (fun a => decide (cutoff < f a)) := by
  induction l with
  | nil => rfl
  | cons a l ih =>
      obtain ⟨hle, hrest⟩ := List.pairwise_cons.mp hsorted
      by_cases ha : f a ≤ cutoff
      · simp only [List.dropWhile_cons, ha, decide_true, if_true, List.filter_cons,
          not_lt.mpr ha, decide_false, ih hrest]
        simp
      · have habove : ∀ b ∈ a :: l, cutoff < f b := by
          intro b hb
          rcases List.mem_cons.mp hb with rfl | hb
          · exact not_le.mp ha
          · exact lt_of_lt_of_le (not_le.mp ha) (hle b hb)
        rw [List.dropWhile_cons_of_neg (by simpa using ha),
          List.filter_eq_self.mpr fun b hb => decide_eq_true (habove b hb)]

/-- The last element of a sorted list bounds all of them. -/
theorem le_getLast_of_sorted {l : List τ} {a b : τ} (hsorted : l.Pairwise (· ≤ ·))
    (hlast : l.getLast? = some b) (ha : a ∈ l) : a ≤ b := by
  obtain ⟨front, rfl⟩ := List.getLast?_eq_some_iff.mp hlast
  rcases List.mem_append.mp ha with ha | ha
  · exact (List.pairwise_append.mp hsorted).2.2 a ha b (List.mem_singleton_self b)
  · exact le_of_eq (List.mem_singleton.mp ha)

/-- Dropping from the front keeps the last element as long as something is kept. -/
theorem getLast?_dropWhile {l : List α} {p : α → Bool} (hkeep : l.dropWhile p ≠ []) :
    (l.dropWhile p).getLast? = l.getLast? := by
  conv_rhs => rw [← List.takeWhile_append_dropWhile (p := p) (l := l)]
  rw [List.getLast?_append_of_ne_nil _ hkeep]

end QuickApi.Lib
