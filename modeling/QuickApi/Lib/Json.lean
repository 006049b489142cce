/-
  QuickApi.Lib.Json

  JSON documents as Python reads them: texts are lists of characters, dicts
  keep their entries, and `==` compares numbers by value, with booleans among
  them, and dicts without regard to order.
-/

import Mathlib.Algebra.Field.Rat
import Mathlib.Data.List.Basic

namespace QuickApi.Lib

inductive Json where
  | null
  | bool (b : Bool)
  | int (n : Int)
  | float (q : ℚ)
  /-- a float too large for any number -/
  | infinity (negative : Bool)
  | str (s : List Char)
  | list (items : List Json)
  | dict (entries : List (List Char × Json))

namespace Json

/-- `value.get(key)`; an absent key and `null` are told apart by `get?`. -/
def get? : Json → String → Option Json
  | .dict entries, key => entries.lookup key.toList
  | _, _ => none

/-- `value.get(key)` of a dict -/
def get (value : Json) (key : String) : Json := (value.get? key).getD .null

/-- `value.get(key, default)` of a dict -/
def getD (value : Json) (key : String) (default : Json) : Json := (value.get? key).getD default

/-- The items of a list. -/
def items : Json → List Json
  | .list items => items
  | _ => []

/-- The values of a dict. -/
def values : Json → List Json
  | .dict entries => entries.map Prod.snd
  | _ => []

/-- `value is None` -/
def isNull : Json → Bool
  | .null => true
  | _ => false

/-- `bool(value)` -/
def truthy : Json → Bool
  | .null => false
  | .bool b => b
  | .int n => n != 0
  | .float q => q != 0
  | .infinity _ => true
  | .str s => !s.isEmpty
  | .list items => !items.isEmpty
  | .dict entries => !entries.isEmpty

/-- `hash(value)` returns, as it does not for lists and dicts. -/
def hashable : Json → Bool
  | .list _ => false
  | .dict _ => false
  | _ => true

/-- The number that a value stands for in comparisons. -/
def number? : Json → Option ℚ
  | .bool b => some (if b then 1 else 0)
  | .int n => some n
  | .float q => some q
  | _ => none

mutual
/-- `a == b` -/
def eq : Json → Json → Bool
  | .null, .null => true
  | .infinity a, .infinity b => a == b
  | .str s, .str t => s == t
  | .list xs, .list ys => eqItems xs ys
  | .dict es, .dict fs => eqEntries es fs && fs.all fun f => (es.lookup f.1).isSome
  | a, b =>
      match a.number?, b.number? with
      | some p, some q => p == q
      | _, _ => false

/-- Equality of lists, item by item. -/
def eqItems : List Json → List Json → Bool
  | [], [] => true
  | x :: xs, y :: ys => eq x y && eqItems xs ys
  | _, _ => false

/-- Every key of the first dict has an equal value in the second. -/
def eqEntries : List (List Char × Json) → List (List Char × Json) → Bool
  | [], _ => true
  | (key, value) :: es, fs =>
      (match fs.lookup key with
        | some other => eq value other
        | none => false) && eqEntries es fs
end

/-- A field of a dict that is empty where it is absent. -/
theorem getD_get (value : Json) (key field : String) :
    (value.getD key (.dict [])).get field = (value.get key).get field := by
  unfold getD get
  cases value.get? key <;> rfl

@[simp] theorem eq_str (s t : List Char) : eq (.str s) (.str t) = (s == t) := by
  rw [eq]

/-- Only a text equals a text. -/
theorem eq_str_right_iff {value : Json} {t : List Char} :
    eq value (.str t) = true ↔ value = .str t := by
  cases value <;> simp [eq, number?]

-- ============================================================================
-- Equality of dicts
-- ============================================================================

theorem eqEntries_iff {es fs : List (List Char × Json)} :
    eqEntries es fs = true ↔ ∀ e ∈ es, ∃ other, fs.lookup e.1 = some other ∧ eq e.2 other := by
  induction es with
  | nil => simp [eqEntries]
  | cons e es ih =>
      rw [eqEntries, Bool.and_eq_true, ih, List.forall_mem_cons]
      refine and_congr_left fun _ => ?_
      cases fs.lookup e.1 with
      | none => simp
      | some other => simp

/-- Two dicts are equal if they have the same keys, with equal values. -/
theorem eq_dict_iff {es fs : List (List Char × Json)} :
    eq (.dict es) (.dict fs) = true ↔
      (∀ e ∈ es, ∃ other, fs.lookup e.1 = some other ∧ eq e.2 other) ∧
        ∀ f ∈ fs, (es.lookup f.1).isSome := by
  rw [eq, Bool.and_eq_true, eqEntries_iff, List.all_eq_true]

/-- Only a dict equals a dict. -/
theorem exists_of_eq_dict {value : Json} {fs : List (List Char × Json)}
    (h : eq value (.dict fs) = true) : ∃ es, value = .dict es := by
  cases value with
  | dict es => exact ⟨es, rfl⟩
  | _ => simp [eq, number?] at h

theorem mem_of_lookup_eq_some {es : List (List Char × Json)} {key : List Char} {value : Json}
    (h : es.lookup key = some value) : (key, value) ∈ es := by
  obtain ⟨before, behind, rfl, -⟩ := List.lookup_eq_some_iff.mp h
  simp

/-- A key that is there once has its value. -/
theorem lookup_eq_some_of_mem {es : List (List Char × Json)} (hnodup : (es.map Prod.fst).Nodup)
    {key : List Char} {value : Json} (h : (key, value) ∈ es) : es.lookup key = some value := by
  induction es with
  | nil => cases h
  | cons e es ih =>
      obtain ⟨hnew, hnodup⟩ := List.nodup_cons.mp hnodup
      rcases List.mem_cons.mp h with rfl | h
      · simp
      · have hne : key ≠ e.1 := by
          rintro rfl
          exact hnew (List.mem_map.mpr ⟨_, h, rfl⟩)
        have hbeq : (key == e.1) = false := beq_eq_false_iff_ne.mpr hne
        rw [List.lookup_cons, hbeq]
        exact ih hnodup h

/-- What equals a value that equals a dict of texts, equals that dict. -/
theorem eq_trans_texts {a b : Json} {texts : List (List Char × Json)}
    (htexts : ∀ e ∈ texts, ∃ s, e.2 = .str s) (hab : eq a b = true)
    (hb : eq b (.dict texts) = true) : eq a (.dict texts) = true := by
  obtain ⟨fs, rfl⟩ := exists_of_eq_dict hb
  obtain ⟨es, rfl⟩ := exists_of_eq_dict hab
  obtain ⟨hsub, hkeys⟩ := eq_dict_iff.mp hab
  obtain ⟨hsub', hkeys'⟩ := eq_dict_iff.mp hb
  refine eq_dict_iff.mpr ⟨fun e he => ?_, fun f hf => ?_⟩
  · obtain ⟨mid, hmid, hemid⟩ := hsub e he
    obtain ⟨last, hlast, hmidlast⟩ := hsub' _ (mem_of_lookup_eq_some hmid)
    obtain ⟨s, hs⟩ := htexts _ (mem_of_lookup_eq_some hlast)
    have hs : last = .str s := hs
    subst hs
    obtain rfl : mid = .str s := eq_str_right_iff.mp hmidlast
    exact ⟨.str s, hlast, hemid⟩
  · obtain ⟨mid, hmid⟩ := Option.isSome_iff_exists.mp (hkeys' f hf)
    exact hkeys (f.1, mid) (mem_of_lookup_eq_some hmid)

/-- Equal dicts have equal fields. -/
theorem eq_get {a b : Json} {key : String} {fs : List (List Char × Json)} (hab : eq a b = true)
    (hb : b.get key = .dict fs) : eq (a.get key) (b.get key) = true := by
  cases b with
  | dict gs =>
      obtain ⟨es, rfl⟩ := exists_of_eq_dict hab
      obtain ⟨hsub, hkeys⟩ := eq_dict_iff.mp hab
      simp only [get, get?] at hb ⊢
      cases hgs : gs.lookup key.toList with
      | none => simp [hgs] at hb
      | some other =>
          have hes := hkeys (key.toList, other) (mem_of_lookup_eq_some hgs)
          obtain ⟨value, hvalue⟩ := Option.isSome_iff_exists.mp hes
          obtain ⟨other', hother', heq⟩ := hsub _ (mem_of_lookup_eq_some hvalue)
          obtain rfl := Option.some.inj (hother'.symm.trans hgs)
          simpa only [hvalue, Option.getD_some] using heq
  | _ => simp [get, get?] at hb

-- ============================================================================
-- Dicts without repeated keys
-- ============================================================================

mutual
/-- No dict in the value has a key twice. -/
def unique : Json → Bool
  | .list items => uniqueItems items
  | .dict entries => (entries.map Prod.fst).Nodup && uniqueEntries entries
  | _ => true

def uniqueItems : List Json → Bool
  | [] => true
  | item :: items => unique item && uniqueItems items

def uniqueEntries : List (List Char × Json) → Bool
  | [] => true
  | (_, value) :: entries => unique value && uniqueEntries entries
end

mutual
theorem eq_refl : ∀ value : Json, value.unique = true → eq value value = true
  | .null, _ => by simp [eq]
  | .bool b, _ => by simp [eq, number?]
  | .int n, _ => by simp [eq, number?]
  | .float q, _ => by simp [eq, number?]
  | .infinity b, _ => by simp [eq]
  | .str s, _ => by simp
  | .list items, h => by
      rw [eq]
      exact eqItems_refl items (by simpa [unique] using h)
  | .dict entries, h => by
      simp only [unique, Bool.and_eq_true, decide_eq_true_eq] at h
      obtain ⟨hnodup, hvalues⟩ := h
      have hlookup : ∀ e ∈ entries, entries.lookup e.1 = some e.2 := fun e he =>
        lookup_eq_some_of_mem hnodup he
      refine eq_dict_iff.mpr ⟨fun e he => ⟨e.2, hlookup e he, ?_⟩, fun e he => ?_⟩
      · exact eqEntries_refl entries hvalues e he
      · rw [hlookup e he]
        rfl

theorem eqItems_refl : ∀ items : List Json, uniqueItems items = true → eqItems items items = true
  | [], _ => by rw [eqItems]
  | item :: items, h => by
      simp only [uniqueItems, Bool.and_eq_true] at h
      rw [eqItems, eq_refl item h.1, eqItems_refl items h.2]
      rfl

theorem eqEntries_refl : ∀ entries : List (List Char × Json), uniqueEntries entries = true →
    ∀ e ∈ entries, eq e.2 e.2 = true
  | [], _ => by simp
  | (_, value) :: entries, h => by
      simp only [uniqueEntries, Bool.and_eq_true] at h
      exact List.forall_mem_cons.mpr ⟨eq_refl value h.1, eqEntries_refl entries h.2⟩
end

theorem unique_of_mem {items : List Json} (h : uniqueItems items = true) {item : Json}
    (hmem : item ∈ items) : item.unique = true := by
  induction items with
  | nil => cases hmem
  | cons head items ih =>
      obtain ⟨hhead, htail⟩ := Bool.and_eq_true_iff.mp h
      rcases List.mem_cons.mp hmem with rfl | hmem
      · exact hhead
      · exact ih htail hmem

theorem unique_of_mem_entries {entries : List (List Char × Json)}
    (h : uniqueEntries entries = true) {e : List Char × Json} (hmem : e ∈ entries) :
    e.2.unique = true := by
  induction entries with
  | nil => cases hmem
  | cons head entries ih =>
      obtain ⟨hhead, htail⟩ := Bool.and_eq_true_iff.mp h
      rcases List.mem_cons.mp hmem with rfl | hmem
      · exact hhead
      · exact ih htail hmem

theorem unique_get {value : Json} (h : value.unique = true) (key : String) :
    (value.get key).unique = true := by
  cases value with
  | dict entries =>
      obtain ⟨-, hentries⟩ := Bool.and_eq_true_iff.mp h
      simp only [get, get?]
      cases hlookup : entries.lookup key.toList with
      | none => rfl
      | some field => exact unique_of_mem_entries hentries (mem_of_lookup_eq_some hlookup)
  | _ => rfl

end Json

end QuickApi.Lib
