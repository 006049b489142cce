/-
  QuickApi.Lib.Ring

  A circular buffer read as a list.  `ringContents cell capacity head count`
  is the queue held by a buffer of `capacity` cells whose oldest element sits
  at `head`: popping advances `head`, pushing writes the cell behind the
  youngest element.  The buffer itself is any function from indices to cells,
  so arrays, vectors and memories all instantiate it.
-/

import Mathlib.Data.Nat.ModEq
import Mathlib.Data.List.Range
import Mathlib.Tactic.Ring

namespace QuickApi.Lib

variable {α : Type*}

/-- The `count` cells of a circular buffer, oldest first. -/
def ringContents (cell : Nat → α) (capacity head count : Nat) : List α :=
  (List.range count).map fun k => cell ((head + k) % capacity)

@[simp] theorem ringContents_zero (cell : Nat → α) (capacity head : Nat) :
    ringContents cell capacity head 0 = [] := rfl

@[simp] theorem ringContents_length (cell : Nat → α) (capacity head count : Nat) :
    (ringContents cell capacity head count).length = count := by
  simp [ringContents]

/-- Two offsets below the capacity never share a cell. -/
theorem ringIndex_injective {capacity head i j : Nat} (hi : i < capacity) (hj : j < capacity)
    (h : (head + i) % capacity = (head + j) % capacity) : i = j := by
  have hmod : i ≡ j [MOD capacity] := Nat.ModEq.add_left_cancel' head h
  exact Nat.ModEq.eq_of_lt_of_lt hmod hi hj

/-- Popping: the queue is its head cell followed by the queue read from the next cell. -/
theorem ringContents_succ (cell : Nat → α) {capacity head : Nat} (count : Nat)
    (hhead : head < capacity) :
    ringContents cell capacity head (count + 1)
      = cell head :: ringContents cell capacity ((head + 1) % capacity) count := by
  have htail : ∀ k, (head + (k + 1)) % capacity = ((head + 1) % capacity + k) % capacity := by
    intro k
    rw [Nat.mod_add_mod, Nat.add_right_comm, Nat.add_assoc]
  unfold ringContents
  rw [List.range_succ_eq_map, List.map_cons, List.map_map, Nat.add_zero, Nat.mod_eq_of_lt hhead]
  congr 1
  apply List.map_congr_left
  intro k _
  exact congrArg cell (htail k)

/-- Pushing: writing the cell behind the youngest element appends it, as long as the
    buffer has a free cell and no other cell changes. -/
theorem ringContents_push {cell cell' : Nat → α} {capacity head count : Nat} {v : α}
    (hroom : count < capacity)
    (htail : cell' ((head + count) % capacity) = v)
    (hframe : ∀ j, j ≠ (head + count) % capacity → cell' j = cell j) :
    ringContents cell' capacity head (count + 1)
      = ringContents cell capacity head count ++ [v] := by
  simp only [ringContents, List.range_succ, List.map_append, List.map_cons, List.map_nil, htail]
  congr 1
  apply List.map_congr_left
  intro k hk
  have hk : k < count := List.mem_range.mp hk
  apply hframe
  intro heq
  have := ringIndex_injective (by omega) hroom heq
  omega

end QuickApi.Lib
