/-
  QuickApi.Lib.Distinct

  Lists without repetitions: what is left of a list when only the first of equal
  elements stays.  And values by name that are there all or not at all (`gather`).
-/

import Mathlib.Data.Fintype.Basic
import Mathlib.Data.List.Nodup
import Mathlib.Data.List.Perm.Subperm

namespace QuickApi.Lib

-- ============================================================================
-- First occurrences
-- ============================================================================

section FirstOccurrences

variable {α : Type*} [BEq α] [LawfulBEq α]

/-- Only the first of equal elements stays. -/
theorem nodup_eraseDups (l : List α) : l.eraseDups.Nodup := by
  induction hn : l.length using Nat.strongRecOn generalizing l with
  | ind n ih =>
      cases l with
      | nil => exact List.nodup_nil
      | cons a l =>
          rw [List.eraseDups_cons, List.nodup_cons]
          have hshort : (l.filter fun b => !b == a).length < n := by
            have hle := List.length_filter_le (fun b => !b == a) l
            rw [List.length_cons] at hn
            omega
          refine ⟨?_, ih _ hshort _ rfl⟩
          rw [List.mem_eraseDups, List.mem_filter]
          rintro ⟨-, hne⟩
          simp at hne

/-- A list without repetitions stays as it is. -/
theorem eraseDups_of_nodup {l : List α} (h : l.Nodup) : l.eraseDups = l := by
  induction l with
  | nil => rfl
  | cons a l ih =>
      obtain ⟨hmem, hrest⟩ := List.nodup_cons.mp h
      have hfilter : l.filter (fun b => !b == a) = l := by
        rw [List.filter_eq_self]
        intro b hb
        have hne : b ≠ a := by
          rintro rfl
          exact hmem hb
        simpa using hne
      rw [List.eraseDups_cons, hfilter, ih hrest]

theorem length_eraseDups_le (l : List α) : l.eraseDups.length ≤ l.length :=
  (List.subperm_of_subset (nodup_eraseDups l) fun _ ha => List.mem_eraseDups.mp ha).length_le

end FirstOccurrences

-- ============================================================================
-- Values by name
-- ============================================================================

section Gather

variable {ι α : Type*} [Fintype ι]

/-- The values of all names, where each has one. -/
def gather (read : ι → Option α) : Option (ι → α) :=
  if h : ∀ i, (read i).isSome then some fun i => (read i).get (h i) else none

theorem gather_eq_some {read : ι → Option α} {values : ι → α} :
    gather read = some values ↔ ∀ i, read i = some (values i) := by
  unfold gather
  constructor
  · intro h i
    split at h
    · next hall =>
        obtain rfl := Option.some.inj h
        exact (Option.some_get (hall i)).symm
    · cases h
  · intro h
    have hall : ∀ i, (read i).isSome := by
      intro i
      rw [h i]
      rfl
    rw [dif_pos hall]
    congr
    funext i
    exact Option.get_of_eq_some (hall i) (h i)

end Gather

end QuickApi.Lib
