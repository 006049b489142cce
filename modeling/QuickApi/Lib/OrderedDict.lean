/-
  QuickApi.Lib.OrderedDict

  An insertion-ordered dictionary: a list of entries, oldest first, that
  carries the distinctness of its keys as a field.  Assignment keeps the
  position of an existing key, `moveToEnd` makes a key the youngest one, and
  `popWhile` drops entries from the front.
-/

import Mathlib.Data.List.Nodup
import Mathlib.Data.List.Basic

namespace QuickApi.Lib

/-- A dictionary that remembers the order of its keys. -/
@[ext]
structure OrderedDict (K V : Type*) where
  entries : List (K × V)
  nodupKeys : (entries.map Prod.fst).Nodup

namespace OrderedDict

variable {K V : Type*}

/-- The dictionary without entries. -/
def empty : OrderedDict K V := ⟨[], List.nodup_nil⟩

/-- The number of keys. -/
def size (d : OrderedDict K V) : Nat := d.entries.length

/-- The keys, oldest first. -/
def keys (d : OrderedDict K V) : List K := d.entries.map Prod.fst

/-- Drop entries from the front as long as they satisfy `p`. -/
def popWhile (d : OrderedDict K V) (p : K × V → Bool) : OrderedDict K V where
  entries := d.entries.dropWhile p
  nodupKeys := d.nodupKeys.sublist ((List.dropWhile_sublist p).map _)

section
variable [DecidableEq K]

/-- The value stored under `k`. -/
def get? (d : OrderedDict K V) (k : K) : Option V := d.entries.lookup k

/-- Entries of a list with the value of `k` replaced; the order does not change. -/
def replaceValue (k : K) (v : V) (entries : List (K × V)) : List (K × V) :=
  entries.map fun e => if e.1 = k then (k, v) else e

theorem replaceValue_keys (k : K) (v : V) (entries : List (K × V)) :
    (replaceValue k v entries).map Prod.fst = entries.map Prod.fst := by
  simp only [replaceValue, List.map_map]
  apply List.map_congr_left
  intro e _
  by_cases h : e.1 = k <;> simp [h]

/-- `d[k] = v`: an existing key keeps its place, a new one becomes the youngest. -/
def set (d : OrderedDict K V) (k : K) (v : V) : OrderedDict K V where
  entries := if k ∈ d.keys then replaceValue k v d.entries else d.entries ++ [(k, v)]
  nodupKeys := by
    split
    · rw [replaceValue_keys]
      exact d.nodupKeys
    · next h =>
      rw [List.map_append, List.nodup_append]
      refine ⟨d.nodupKeys, by simp, ?_⟩
      intro a ha b hb
      have hb : b = k := by simpa using hb
      subst hb
      exact fun hab => h (hab ▸ ha)

theorem get?_eq_some_iff {d : OrderedDict K V} {k : K} {v : V} :
    d.get? k = some v ↔ (k, v) ∈ d.entries := by
  obtain ⟨entries, hnodup⟩ := d
  simp only [get?]
  induction entries with
  | nil => simp
  | cons e entries ih =>
      obtain ⟨k', v'⟩ := e
      simp only [List.map_cons, List.nodup_cons] at hnodup
      by_cases h : k = k'
      · subst h
        have hnot : (k, v) ∉ entries := fun hm => hnodup.1 (List.mem_map_of_mem (f := Prod.fst) hm)
        simp [hnot, eq_comm]
      · have hne : (k == k') = false := by simpa using h
        simp [List.lookup_cons, hne, h, ih hnodup.2]

theorem get?_eq_none_iff {d : OrderedDict K V} {k : K} : d.get? k = none ↔ k ∉ d.keys := by
  rw [Option.eq_none_iff_forall_not_mem]
  simp only [Option.mem_def, get?_eq_some_iff, keys, List.mem_map, Prod.exists, not_exists,
    not_and]
  exact ⟨fun h k' v hm hk => h v (hk ▸ hm), fun h v hm => h k v hm rfl⟩

theorem get?_eq_find? (d : OrderedDict K V) (k : K) :
    d.get? k = (d.entries.find? fun e => e.1 = k).map Prod.snd := by
  rw [get?]
  induction d.entries with
  | nil => rfl
  | cons e entries ih =>
      obtain ⟨k', v'⟩ := e
      by_cases h : k = k'
      · simp [h]
      · have hne : (k == k') = false := by simpa using h
        simp [List.lookup_cons, hne, Ne.symm h, ih]

/-- Make the entry of `k`, if there is one, the youngest. -/
def moveToEnd (d : OrderedDict K V) (k : K) : OrderedDict K V where
  entries := match d.get? k with
    | some v => d.entries.filter (fun e => e.1 ≠ k) ++ [(k, v)]
    | none => d.entries
  nodupKeys := by
    cases d.get? k with
    | none => exact d.nodupKeys
    | some v =>
      simp only [List.map_append, List.map_cons, List.map_nil, List.nodup_append]
      refine ⟨d.nodupKeys.sublist (List.filter_sublist.map _), by simp, ?_⟩
      intro a ha b hb
      obtain ⟨e, he, rfl⟩ := List.mem_map.mp ha
      have hne : e.1 ≠ k := by simpa using (List.mem_filter.mp he).2
      have hb : b = k := by simpa using hb
      exact hb ▸ hne

@[simp] theorem get?_set_self (d : OrderedDict K V) (k : K) (v : V) :
    (d.set k v).get? k = some v := by
  rw [get?_eq_some_iff]
  simp only [set]
  split
  · next h =>
    obtain ⟨e, he, hek⟩ := List.mem_map.mp h
    exact List.mem_map.mpr ⟨e, he, if_pos hek⟩
  · simp

/-- Assignment changes no entry of another key. -/
theorem set_filter_ne (d : OrderedDict K V) (k : K) (v : V) :
    (d.set k v).entries.filter (fun e => e.1 ≠ k) = d.entries.filter (fun e => e.1 ≠ k) := by
  simp only [set]
  split
  · generalize d.entries = entries
    induction entries with
    | nil => rfl
    | cons e entries ih =>
        simp only [replaceValue, List.map_cons] at ih ⊢
        by_cases h : e.1 = k <;> simp_all
  · simp

/-- Assigning a key and making it the youngest appends its entry to the others. -/
theorem set_entries_of_new {d : OrderedDict K V} {k : K} (hk : k ∉ d.keys) (v : V) :
    (d.set k v).entries = d.entries ++ [(k, v)] :=
  if_neg hk

/-- Assignment adds no entry but the one assigned. -/
theorem mem_set {d : OrderedDict K V} {k : K} {v : V} {e : K × V} (h : e ∈ (d.set k v).entries) :
    e = (k, v) ∨ e ∈ d.entries := by
  simp only [set] at h
  split at h
  · obtain ⟨e', he', rfl⟩ := List.mem_map.mp h
    by_cases hk : e'.1 = k
    · exact .inl (if_pos hk)
    · exact .inr ((if_neg hk : (if e'.1 = k then (k, v) else e') = e').symm ▸ he')
  · rcases List.mem_append.mp h with h | h
    · exact .inr h
    · exact .inl (List.mem_singleton.mp h)

/-- The entries of other keys stay. -/
theorem mem_set_of_ne {d : OrderedDict K V} {k k' : K} (h : k' ≠ k) {v v' : V} :
    (k', v') ∈ (d.set k v).entries ↔ (k', v') ∈ d.entries := by
  have hfilter : ∀ entries : List (K × V),
      (k', v') ∈ entries.filter (fun e => e.1 ≠ k) ↔ (k', v') ∈ entries := by simp [h]
  rw [← hfilter, set_filter_ne, hfilter]

theorem get?_set_of_ne {k k' : K} (h : k' ≠ k) (d : OrderedDict K V) (v : V) :
    (d.set k v).get? k' = d.get? k' :=
  Option.ext fun v' => by rw [get?_eq_some_iff, get?_eq_some_iff, mem_set_of_ne h]

/-- Assigning what is stored already changes nothing. -/
theorem set_entries_of_mem {d : OrderedDict K V} {k : K} {v : V} (h : (k, v) ∈ d.entries) :
    (d.set k v).entries = d.entries := by
  have hkey : k ∈ d.keys := List.mem_map_of_mem h
  simp only [set]
  rw [if_pos hkey, replaceValue]
  refine (List.map_congr_left fun e he => ?_).trans (List.map_id _)
  by_cases hek : e.1 = k
  · rw [if_pos hek]
    exact List.inj_on_of_nodup_map d.nodupKeys h he hek.symm
  · exact if_neg hek

/-- A key that is stored is one entry among the others. -/
theorem filter_ne_perm {d : OrderedDict K V} {k : K} {v : V} (h : (k, v) ∈ d.entries) :
    d.entries.Perm ((k, v) :: d.entries.filter (fun e => e.1 ≠ k)) := by
  obtain ⟨before, after, hsplit⟩ := List.append_of_mem h
  have hnodup := d.nodupKeys
  rw [hsplit, List.map_append, List.map_cons, List.nodup_middle, List.nodup_cons] at hnodup
  have hne : ∀ e ∈ before ++ after, decide (e.1 ≠ k) = true := by
    intro e he
    refine decide_eq_true fun hek => hnodup.1 ?_
    rw [← List.map_append]
    exact List.mem_map.mpr ⟨e, he, hek⟩
  have hfilter : d.entries.filter (fun e => e.1 ≠ k) = before ++ after := by
    rw [hsplit, List.filter_append, List.filter_cons_of_neg (by simp), ← List.filter_append]
    exact List.filter_eq_self.mpr hne
  rw [hfilter, hsplit]
  exact List.perm_middle

/-- Assignments in a row. -/
def update (d : OrderedDict K V) (entries : List (K × V)) : OrderedDict K V :=
  entries.foldl (fun d e => d.set e.1 e.2) d

/-- `{key: value for …}` -/
def ofList (entries : List (K × V)) : OrderedDict K V := empty.update entries

theorem mem_update {d : OrderedDict K V} {entries : List (K × V)} {e : K × V}
    (h : e ∈ (d.update entries).entries) : e ∈ entries ∨ e ∈ d.entries := by
  induction entries generalizing d with
  | nil => exact .inr h
  | cons e' entries ih =>
      rcases ih (d := d.set e'.1 e'.2) h with h | h
      · exact .inl (List.mem_cons_of_mem _ h)
      · rcases mem_set h with rfl | h
        · exact .inl List.mem_cons_self
        · exact .inr h

theorem mem_ofList {entries : List (K × V)} {e : K × V} (h : e ∈ (ofList entries).entries) :
    e ∈ entries :=
  (mem_update h).resolve_right (List.not_mem_nil)

/-- Entries with new keys are appended. -/
theorem update_entries_of_nodup {d : OrderedDict K V} {entries : List (K × V)}
    (h : (d.keys ++ entries.map Prod.fst).Nodup) :
    (d.update entries).entries = d.entries ++ entries := by
  induction entries generalizing d with
  | nil => simp [update]
  | cons e entries ih =>
      have hnew : e.1 ∉ d.keys := fun hmem =>
        (List.nodup_append.mp h).2.2 _ hmem _ List.mem_cons_self rfl
      have hset := set_entries_of_new hnew e.2
      have hkeys : (d.set e.1 e.2).keys = d.keys ++ [e.1] := by
        simp only [keys, hset, List.map_append, List.map_singleton]
      have hnodup : ((d.set e.1 e.2).keys ++ entries.map Prod.fst).Nodup := by
        rw [hkeys, List.append_assoc]
        exact h
      have htail := ih hnodup
      rw [hset, List.append_assoc] at htail
      exact htail

theorem ofList_entries_of_nodup {entries : List (K × V)} (h : (entries.map Prod.fst).Nodup) :
    (ofList entries).entries = entries := by
  rw [ofList, update_entries_of_nodup (d := empty) h]
  rfl

theorem mem_keys_set {d : OrderedDict K V} {k k' : K} {v : V} :
    k' ∈ (d.set k v).keys ↔ k' ∈ d.keys ∨ k' = k := by
  by_cases hk : k ∈ d.keys
  · have hkeys : (d.set k v).keys = d.keys := by
      have hentries : (d.set k v).entries = replaceValue k v d.entries := if_pos hk
      rw [keys, hentries, replaceValue_keys, keys]
    rw [hkeys]
    exact ⟨.inl, fun h => h.elim id fun h => h ▸ hk⟩
  · rw [keys, set_entries_of_new hk]
    simp [keys]

/-- A key is there after the assignments when it was there or is assigned. -/
theorem mem_keys_update {d : OrderedDict K V} {entries : List (K × V)} {k : K} :
    k ∈ (d.update entries).keys ↔ k ∈ d.keys ∨ k ∈ entries.map Prod.fst := by
  induction entries generalizing d with
  | nil => simp [update]
  | cons e entries ih =>
      show k ∈ ((d.set e.1 e.2).update entries).keys ↔ _
      rw [ih, mem_keys_set, List.map_cons, List.mem_cons, or_assoc]

/-- `d.setdefault(k, v)` -/
def setDefault (d : OrderedDict K V) (k : K) (v : V) : OrderedDict K V :=
  if k ∈ d.keys then d else d.set k v

/-- Defaults in a row. -/
def setDefaults (d : OrderedDict K V) (entries : List (K × V)) : OrderedDict K V :=
  entries.foldl (fun d e => d.setDefault e.1 e.2) d

theorem setDefaults_of_mem {d : OrderedDict K V} {entries : List (K × V)}
    (h : ∀ e ∈ entries, e.1 ∈ d.keys) : d.setDefaults entries = d := by
  induction entries with
  | nil => rfl
  | cons e entries ih =>
      obtain ⟨he, hrest⟩ := List.forall_mem_cons.mp h
      show (d.setDefault e.1 e.2).setDefaults entries = d
      rw [setDefault, if_pos he, ih hrest]

/-- Defaults come behind what was there, and none of their keys is missing. -/
theorem setDefaults_entries (d : OrderedDict K V) (entries : List (K × V)) :
    ∃ added, (d.setDefaults entries).entries = d.entries ++ added ∧ (∀ e ∈ added, e ∈ entries) ∧
      ∀ e ∈ entries, e.1 ∈ (d.setDefaults entries).keys := by
  induction entries generalizing d with
  | nil => exact ⟨[], by simp [setDefaults], by simp, by simp⟩
  | cons e entries ih =>
      obtain ⟨added, hadded, hfrom, hall⟩ := ih (d.setDefault e.1 e.2)
      have hstart : ∃ first, (d.setDefault e.1 e.2).entries = d.entries ++ first ∧
          (∀ e' ∈ first, e' = e) ∧ e.1 ∈ (d.setDefault e.1 e.2).keys := by
        rw [setDefault]
        split
        · next he => exact ⟨[], by simp, by simp, he⟩
        · next he =>
            refine ⟨[e], set_entries_of_new he e.2, by simp, ?_⟩
            rw [keys, set_entries_of_new he]
            simp
      obtain ⟨first, hfirst, hfirstFrom, hmem⟩ := hstart
      have hkeys : e.1 ∈ ((d.setDefault e.1 e.2).setDefaults entries).keys := by
        rw [keys, hadded, List.map_append, List.mem_append]
        exact .inl hmem
      refine ⟨first ++ added, ?_, ?_, ?_⟩
      · rw [← List.append_assoc, ← hfirst]
        exact hadded
      · intro e' he'
        rcases List.mem_append.mp he' with he' | he'
        · exact List.mem_cons.mpr (.inl (hfirstFrom e' he'))
        · exact List.mem_cons_of_mem _ (hfrom e' he')
      · exact List.forall_mem_cons.mpr ⟨hkeys, hall⟩

theorem set_moveToEnd_entries (d : OrderedDict K V) (k : K) (v : V) :
    ((d.set k v).moveToEnd k).entries = d.entries.filter (fun e => e.1 ≠ k) ++ [(k, v)] := by
  simp only [moveToEnd, get?_set_self, set_filter_ne]

end

end OrderedDict

end QuickApi.Lib
