/-
  QuickApi.Fingerprint.Value

  The JSON-like values a fingerprint is taken of: what `normalized` hands to
  `_encode` in `app/common/models/idempotency_model.py`.  A Python string
  without lone surrogates is the list of its code points; a dict is the list of
  its entries in insertion order, with distinct keys.
-/

import Mathlib.Data.List.Nodup
import Mathlib.Data.Rat.Defs
import Mathlib.Algebra.Order.Field.Rat
import Mathlib.Algebra.Field.Rat

namespace QuickApi.Fingerprint

/-- A Python `str` without lone surrogates. -/
abbrev Text := List Char

-- ============================================================================
-- Numbers
-- ============================================================================

/-- `decimal.Decimal`: a sign, a coefficient without leading zeros, and an exponent. -/
inductive Decimal where
  | finite (negative : Bool) (coefficient : Nat) (exponent : Int)
  | infinity (negative : Bool)
  | nan
deriving DecidableEq, Repr

/-- The exact value of a finite decimal. -/
def Decimal.value? : Decimal → Option ℚ
  | .finite negative coefficient exponent =>
      some ((if negative then -1 else 1) * (coefficient * 10 ^ exponent))
  | .infinity _ => none
  | .nan => none

/-- The numbers `_encode` accepts.  A float is the decimal that its `repr` spells, which is
    all `Decimal(str(value))` sees of it. -/
inductive Number where
  | int (n : Int)
  | float (repr : Decimal)
  | decimal (d : Decimal)
deriving DecidableEq, Repr

/-- The exact numeric value, if the number is finite. -/
def Number.value? : Number → Option ℚ
  | .int n => some n
  | .float repr => repr.value?
  | .decimal d => d.value?

-- ============================================================================
-- Values
-- ============================================================================

/-- A JSON-like value. -/
inductive Value where
  | null
  | bool (b : Bool)
  | number (n : Number)
  | str (s : Text)
  | list (items : List Value)
  | dict (entries : List (Text × Value))

/-- Induction that reaches the elements of lists and the values of dicts. -/
theorem Value.induction {motive : Value → Prop} (null : motive .null)
    (bool : ∀ b, motive (.bool b)) (number : ∀ n, motive (.number n))
    (str : ∀ s, motive (.str s))
    (list : ∀ items, (∀ v ∈ items, motive v) → motive (.list items))
    (dict : ∀ entries : List (Text × Value), (∀ e ∈ entries, motive e.2) → motive (.dict entries))
    (v : Value) : motive v :=
  Value.rec (motive_1 := motive) (motive_2 := fun items => ∀ v ∈ items, motive v)
    (motive_3 := fun entries => ∀ e ∈ entries, motive e.2) (motive_4 := fun e => motive e.2)
    null bool number str (fun items h => list items h) (fun entries h => dict entries h)
    (fun _ hv => absurd hv List.not_mem_nil)
    (fun v vs hv hvs w hw => by
      rcases List.mem_cons.mp hw with rfl | hw
      · exact hv
      · exact hvs w hw)
    (fun _ he => absurd he List.not_mem_nil)
    (fun e es he hes d hd => by
      rcases List.mem_cons.mp hd with rfl | hd
      · exact he
      · exact hes d hd)
    (fun _ _ h => h) v

namespace Value

mutual
/-- Every dict inside the value has distinct keys. -/
def DistinctKeys : Value → Prop
  | .list items => DistinctKeysItems items
  | .dict entries => (entries.map Prod.fst).Nodup ∧ DistinctKeysEntries entries
  | _ => True

def DistinctKeysItems : List Value → Prop
  | [] => True
  | v :: vs => DistinctKeys v ∧ DistinctKeysItems vs

def DistinctKeysEntries : List (Text × Value) → Prop
  | [] => True
  | (_, v) :: es => DistinctKeys v ∧ DistinctKeysEntries es
end

theorem distinctKeysItems_iff {items : List Value} :
    DistinctKeysItems items ↔ ∀ v ∈ items, DistinctKeys v := by
  induction items with
  | nil => simp [DistinctKeysItems]
  | cons v vs ih => simp [DistinctKeysItems, ih]

theorem distinctKeysEntries_iff {entries : List (Text × Value)} :
    DistinctKeysEntries entries ↔ ∀ e ∈ entries, DistinctKeys e.2 := by
  induction entries with
  | nil => simp [DistinctKeysEntries]
  | cons e es ih =>
      obtain ⟨k, v⟩ := e
      simp [DistinctKeysEntries, ih]

mutual
/-- Equality up to exact numeric value and dict insertion order. -/
def same : Value → Value → Bool
  | .null, .null => true
  | .bool a, .bool b => a == b
  | .number m, .number n =>
      match m.value?, n.value? with
      | some p, some q => p == q
      | _, _ => false
  | .str s, .str t => s == t
  | .list xs, .list ys => sameItems xs ys
  | .dict es, .dict fs => es.length == fs.length && sameEntries es fs
  | _, _ => false

/-- Elementwise equality of lists. -/
def sameItems : List Value → List Value → Bool
  | [], [] => true
  | x :: xs, y :: ys => same x y && sameItems xs ys
  | _, _ => false

/-- Every key of the first dict has an equal value in the second. -/
def sameEntries : List (Text × Value) → List (Text × Value) → Bool
  | [], _ => true
  | (k, v) :: es, fs =>
      (match fs.lookup k with
        | some w => same v w
        | none => false) && sameEntries es fs
end

theorem sameItems_iff {xs ys : List Value} :
    sameItems xs ys = true ↔ List.Forall₂ (fun x y => same x y = true) xs ys := by
  induction xs generalizing ys with
  | nil => cases ys <;> simp [sameItems]
  | cons x xs ih => cases ys <;> simp [sameItems, ih]

theorem sameEntries_iff {es fs : List (Text × Value)} :
    sameEntries es fs = true ↔
      ∀ e ∈ es, ∃ w, fs.lookup e.1 = some w ∧ same e.2 w = true := by
  induction es with
  | nil => simp [sameEntries]
  | cons e es ih =>
      obtain ⟨k, v⟩ := e
      simp only [sameEntries, Bool.and_eq_true, ih, List.forall_mem_cons]
      apply and_congr_left'
      cases fs.lookup k <;> simp

end Value

/-- A value whose dicts really are dicts. -/
structure JsonValue where
  value : Value
  distinctKeys : value.DistinctKeys

end QuickApi.Fingerprint
