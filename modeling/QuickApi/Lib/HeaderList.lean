/-
  QuickApi.Lib.HeaderList

  A list of entries in which a name may occur more than once, and the
  assignment that leaves one entry of a name, where its first one was.
-/

import Mathlib.Data.List.Basic

namespace QuickApi.Lib

variable {N V : Type*} [DecidableEq N]

/-- The values of the entries of `name`, in order. -/
def valuesOf (entries : List (N × V)) (name : N) : List V :=
  (entries.filter fun e => e.1 = name).map Prod.snd

/-- `entries[name] = value`: the first entry of `name` gets the value, its others go; without
    one, an entry is appended. -/
def assign (entries : List (N × V)) (name : N) (value : V) : List (N × V) :=
  match entries with
  | [] => [(name, value)]
  | e :: rest =>
      if e.1 = name then (name, value) :: rest.filter fun e => e.1 ≠ name
      else e :: assign rest name value

@[simp] theorem valuesOf_nil (name : N) : valuesOf ([] : List (N × V)) name = [] := rfl

theorem valuesOf_cons (e : N × V) (entries : List (N × V)) (name : N) :
    valuesOf (e :: entries) name =
      if e.1 = name then e.2 :: valuesOf entries name else valuesOf entries name := by
  rw [valuesOf, List.filter_cons]
  by_cases he : e.1 = name
  · simp [he, valuesOf]
  · simp [he, valuesOf]

theorem valuesOf_filter_ne_self (entries : List (N × V)) (name : N) :
    valuesOf (entries.filter fun e => e.1 ≠ name) name = [] := by
  rw [valuesOf, List.filter_filter, List.map_eq_nil_iff, List.filter_eq_nil_iff]
  intro e _ he
  simp at he

theorem valuesOf_filter_ne {name other : N} (h : other ≠ name) (entries : List (N × V)) :
    valuesOf (entries.filter fun e => e.1 ≠ name) other = valuesOf entries other := by
  rw [valuesOf, List.filter_filter, valuesOf]
  refine congrArg _ (List.filter_congr fun e _ => ?_)
  by_cases he : e.1 = other
  · simp [he, h]
  · simp [he]

@[simp] theorem valuesOf_assign_self (entries : List (N × V)) (name : N) (value : V) :
    valuesOf (assign entries name value) name = [value] := by
  induction entries with
  | nil => simp [assign, valuesOf]
  | cons e rest ih =>
      rw [assign]
      split
      · rw [valuesOf_cons, if_pos rfl, valuesOf_filter_ne_self]
      · next he => rw [valuesOf_cons, if_neg he, ih]

theorem valuesOf_assign_ne {name other : N} (h : other ≠ name) (entries : List (N × V))
    (value : V) : valuesOf (assign entries name value) other = valuesOf entries other := by
  induction entries with
  | nil => simp [assign, valuesOf, Ne.symm h]
  | cons e rest ih =>
      rw [assign]
      split
      · next he =>
          rw [valuesOf_cons, if_neg (Ne.symm h), valuesOf_filter_ne h, valuesOf_cons,
            if_neg (he.trans_ne (Ne.symm h))]
      · rw [valuesOf_cons, valuesOf_cons, ih]

/-- Assigning the one value that a name has changes nothing. -/
theorem assign_of_valuesOf {entries : List (N × V)} {name : N} {value : V}
    (h : valuesOf entries name = [value]) : assign entries name value = entries := by
  induction entries with
  | nil => cases h
  | cons e rest ih =>
      rw [valuesOf_cons] at h
      rw [assign]
      split
      · next he =>
          rw [if_pos he] at h
          obtain ⟨hvalue, hrest⟩ := List.cons.inj h
          have hfilter : (rest.filter fun e => e.1 ≠ name) = rest := by
            rw [valuesOf, List.map_eq_nil_iff, List.filter_eq_nil_iff] at hrest
            exact List.filter_eq_self.mpr fun e' he' => by simpa using hrest e' he'
          rw [hfilter, ← he, ← hvalue]
      · next he =>
          rw [if_neg he] at h
          rw [ih h]

/-- Assignments in a row. -/
def assignAll (entries : List (N × V)) (assigned : List (N × V)) : List (N × V) :=
  assigned.foldl (fun entries e => assign entries e.1 e.2) entries

theorem valuesOf_assignAll_notMem {name : N} {assigned : List (N × V)}
    (h : name ∉ assigned.map Prod.fst) (entries : List (N × V)) :
    valuesOf (assignAll entries assigned) name = valuesOf entries name := by
  induction assigned generalizing entries with
  | nil => rfl
  | cons e assigned ih =>
      rw [List.map_cons, List.mem_cons, not_or] at h
      exact (ih h.2 _).trans (valuesOf_assign_ne h.1 entries e.2)

theorem valuesOf_assignAll_mem {assigned : List (N × V)} (h : (assigned.map Prod.fst).Nodup)
    {e : N × V} (he : e ∈ assigned) (entries : List (N × V)) :
    valuesOf (assignAll entries assigned) e.1 = [e.2] := by
  induction assigned generalizing entries with
  | nil => cases he
  | cons first assigned ih =>
      rw [List.map_cons, List.nodup_cons] at h
      obtain rfl | he := List.mem_cons.mp he
      · exact (valuesOf_assignAll_notMem h.1 _).trans (valuesOf_assign_self entries e.1 e.2)
      · exact ih h.2 he _

theorem assignAll_of_valuesOf {assigned : List (N × V)} {entries : List (N × V)}
    (h : ∀ e ∈ assigned, valuesOf entries e.1 = [e.2]) : assignAll entries assigned = entries := by
  induction assigned with
  | nil => rfl
  | cons e assigned ih =>
      obtain ⟨he, hrest⟩ := List.forall_mem_cons.mp h
      show assignAll (assign entries e.1 e.2) assigned = entries
      rw [assign_of_valuesOf he]
      exact ih hrest

end QuickApi.Lib
