/-
  QuickApi.Lib.Pages

  A list cut into pages of one size.  The pages one after the other are the
  list, all but the last are full, and their number is the rounded-up quotient.
-/

import Mathlib.Data.List.Basic

namespace QuickApi.Lib

variable {α : Type*}

/-- The page behind `i` others. -/
def pageOf (size : Nat) (l : List α) (i : Nat) : List α := (l.drop (i * size)).take size

/-- How many pages `total` elements fill. -/
def pageCount (size total : Nat) : Nat := (total + size - 1) / size

theorem length_pageOf (size : Nat) (l : List α) (i : Nat) :
    (pageOf size l i).length = min size (l.length - i * size) := by
  rw [pageOf, List.length_take, List.length_drop]

/-- The first pages are the front of the list. -/
theorem flatMap_pageOf (size : Nat) (l : List α) (n : Nat) :
    (List.range n).flatMap (pageOf size l) = l.take (n * size) := by
  induction n with
  | zero => simp
  | succ n ih =>
      rw [List.range_succ, List.flatMap_append, ih, List.flatMap_singleton, pageOf,
        Nat.succ_mul, ← List.take_add]

theorem lt_pageCount_iff {size : Nat} (hsize : 0 < size) {total i : Nat} :
    i < pageCount size total ↔ i * size < total := by
  rw [pageCount, Nat.lt_iff_add_one_le, Nat.le_div_iff_mul_le hsize, Nat.succ_mul]
  omega

/-- All pages are the list. -/
theorem flatMap_pageOf_all {size : Nat} (hsize : 0 < size) (l : List α) {n : Nat}
    (h : pageCount size l.length ≤ n) : (List.range n).flatMap (pageOf size l) = l := by
  have hall : l.length ≤ n * size := by
    have hlast : ¬ n < pageCount size l.length := Nat.not_lt.mpr h
    rw [lt_pageCount_iff hsize] at hlast
    exact Nat.le_of_not_lt hlast
  rw [flatMap_pageOf, List.take_of_length_le hall]

/-- A page with another behind it is full. -/
theorem length_pageOf_of_lt {size : Nat} (hsize : 0 < size) {l : List α} {i : Nat}
    (h : i + 1 < pageCount size l.length) : (pageOf size l i).length = size := by
  have hnext := (lt_pageCount_iff hsize).mp h
  rw [Nat.succ_mul] at hnext
  rw [length_pageOf]
  omega

/-- Behind the last page there is nothing. -/
theorem pageOf_eq_nil {size : Nat} (hsize : 0 < size) {l : List α} {i : Nat}
    (h : pageCount size l.length ≤ i) : pageOf size l i = [] := by
  have hbeyond := (lt_pageCount_iff hsize).not.mp (Nat.not_lt.mpr h)
  rw [pageOf, List.drop_eq_nil_of_le (Nat.le_of_not_lt hbeyond), List.take_nil]

end QuickApi.Lib
