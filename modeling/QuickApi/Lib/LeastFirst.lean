/-
  QuickApi.Lib.LeastFirst

  A finite set of records in the order of a key, from which the first are taken
  away: what is left, in the same order, is the rest of the list
  (`leastFirst_remove`).
-/

import Mathlib.Data.List.Sort
import Mathlib.Data.List.Nodup

namespace QuickApi.Lib

variable {α τ : Type*} [LinearOrder τ]

/-- The records in the order of their keys. -/
def leastFirst (key : α → τ) (records : List α) : List α :=
  records.insertionSort fun a b => key a ≤ key b

variable {key : α → τ} {records : List α}

theorem leastFirst_perm (key : α → τ) (records : List α) : (leastFirst key records).Perm records :=
  List.perm_insertionSort _ records

theorem mem_leastFirst {a : α} : a ∈ leastFirst key records ↔ a ∈ records :=
  (leastFirst_perm key records).mem_iff

theorem leastFirst_pairwise_le (key : α → τ) (records : List α) :
    (leastFirst key records).Pairwise fun a b => key a ≤ key b :=
  List.pairwise_insertionSort _ records

/-- Records with distinct keys stand in strict order. -/
theorem leastFirst_pairwise_lt (h : (records.map key).Nodup) :
    (leastFirst key records).Pairwise fun a b => key a < key b := by
  have hnodup : ((leastFirst key records).map key).Nodup :=
    ((leastFirst_perm key records).map key).nodup_iff.mpr h
  exact (leastFirst_pairwise_le key records).imp₂ (fun a b hle hne => lt_of_le_of_ne hle hne)
    (List.pairwise_map.mp hnodup)

/-- The order of records with distinct keys is determined. -/
theorem leastFirst_unique {others : List α} (hperm : others.Perm records)
    (hordered : others.Pairwise fun a b => key a < key b) : leastFirst key records = others := by
  have hnodup : (records.map key).Nodup := by
    refine (hperm.map key).nodup_iff.mp (List.pairwise_map.mpr ?_)
    exact hordered.imp fun hlt => ne_of_lt hlt
  exact List.Perm.eq_of_pairwise (fun a b _ _ hab hba => absurd hba (lt_asymm hab))
    (leastFirst_pairwise_lt hnodup) hordered ((leastFirst_perm key records).trans hperm.symm)

/-- Taking the first records away leaves the rest, in the same order. -/
theorem leastFirst_remove [DecidableEq α] (h : (records.map key).Nodup) (n : Nat) :
    leastFirst key (records.filter fun a => a ∉ (leastFirst key records).take n) =
      (leastFirst key records).drop n := by
  have hordered := leastFirst_pairwise_lt h
  have hnodup : (leastFirst key records).Nodup := hordered.imp fun hlt heq => by
    subst heq
    exact lt_irrefl _ hlt
  refine leastFirst_unique ?_ (hordered.sublist (List.drop_sublist n _))
  have hsplit := List.take_append_drop n (leastFirst key records)
  have hdisjoint : ∀ a ∈ (leastFirst key records).drop n,
      a ∉ (leastFirst key records).take n := by
    intro a hdrop htake
    rw [← hsplit, List.nodup_append] at hnodup
    exact hnodup.2.2 a htake a hdrop rfl
  have hfilter : (leastFirst key records).filter
      (fun a => a ∉ (leastFirst key records).take n) = (leastFirst key records).drop n := by
    conv_lhs => arg 2; rw [← hsplit]
    rw [List.filter_append, List.filter_eq_nil_iff.mpr, List.nil_append, List.filter_eq_self.mpr]
    · exact fun a ha => decide_eq_true (hdisjoint a ha)
    · exact fun a ha => by simpa using ha
  rw [← hfilter]
  exact (leastFirst_perm key records).filter _

end QuickApi.Lib
