/-
  QuickApi.Items.Model

  Items, the payloads of their mutations, and the checks and statements that
  `ItemService` and `ItemRepository` make of them.  Left out: timestamps, which
  the database sets and no mutation reads.
-/

import Mathlib.Data.Rat.Defs

namespace QuickApi.Items

-- ============================================================================
-- Versions
-- ============================================================================

/-- `MAX_VERSION` -/
def maxVersion : Nat := 4294967295

/-- `Version`: `Field(strict=True, ge=1, le=MAX_VERSION)` -/
structure Version where
  value : Nat
  one_le : 1 ≤ value
  le_max : value ≤ maxVersion
deriving DecidableEq, Repr

-- ============================================================================
-- Items and payloads
-- ============================================================================

/-- A row of `items` without its key. -/
structure Item where
  version : Nat
  name : String
  price : ℚ
  description : Option String
deriving DecidableEq, Repr

/-- `ItemUpdateData`, a dictionary that need not have all keys. -/
structure ItemUpdateData where
  name : Option String
  description : Option (Option String)
  price : Option ℚ
deriving DecidableEq, Repr

/-- `UpdateItemRequest`: a field is `none` when it was not set. -/
structure UpdateItemRequest where
  expectedVersion : Version
  name : Option String
  price : Option ℚ
  description : Option (Option String)
deriving DecidableEq, Repr

/-- `ReplaceItemRequest`; an absent description has its default, null. -/
structure ReplaceItemRequest where
  expectedVersion : Version
  name : String
  price : ℚ
  description : Option String
deriving DecidableEq, Repr

/-- `model_to(ItemUpdateData, payload, exclude_unset=True, exclude={'expected_version'})` -/
def UpdateItemRequest.toData (payload : UpdateItemRequest) : ItemUpdateData :=
  ⟨payload.name, payload.description, payload.price⟩

/-- `model_to(ItemUpdateData, payload, exclude_unset=False, exclude={'expected_version'})` -/
def ReplaceItemRequest.toData (payload : ReplaceItemRequest) : ItemUpdateData :=
  ⟨some payload.name, some payload.description, some payload.price⟩

/-- `.values(**new_data)` -/
def ItemUpdateData.values (data : ItemUpdateData) (row : Item) : Item where
  version := row.version
  name := data.name.getD row.name
  price := data.price.getD row.price
  description := data.description.getD row.description

/-- A mutation of one item: `update` (PATCH), `replace` (PUT) or `delete`. -/
inductive Mutation where
  | update (payload : UpdateItemRequest)
  | replace (payload : ReplaceItemRequest)
  | delete (expectedVersion : Version)
deriving DecidableEq, Repr

/-- `payload.expected_version` -/
def Mutation.expectedVersion : Mutation → Version
  | .update payload => payload.expectedVersion
  | .replace payload => payload.expectedVersion
  | .delete expectedVersion => expectedVersion

/-- The data an update or a replacement hands to the repository. -/
def Mutation.data? : Mutation → Option ItemUpdateData
  | .update payload => some payload.toData
  | .replace payload => some payload.toData
  | .delete _ => none

-- ============================================================================
-- Refusals
-- ============================================================================

structure HTTPException where
  statusCode : Nat
  detail : String
deriving DecidableEq, Repr

def notFound : HTTPException := ⟨404, "No item exists with the provided identifier."⟩

def versionConflict : HTTPException :=
  ⟨409, "Item version conflict; reload the item before retrying."⟩

-- ============================================================================
-- Statements and checks
-- ============================================================================

/-- `_mutation_item` behind its locking read. -/
def mutationItem (row : Option Item) (expectedVersion : Version) : Except HTTPException Item :=
  match row with
  | none => .error notFound
  | some item =>
      if item.version ≠ expectedVersion.value then .error versionConflict else .ok item

/-- The `UPDATE` of the repository: the number of rows it changed, and the row. -/
def updateStatement (data : ItemUpdateData) (expectedVersion : Version) (row : Option Item) :
    Nat × Option Item :=
  match row with
  | none => (0, none)
  | some item =>
      if item.version = expectedVersion.value ∧ item.version < maxVersion then
        (1, some { data.values item with version := item.version + 1 })
      else (0, some item)

/-- The `DELETE` of the repository: the number of rows it removed, and the row. -/
def deleteStatement (expectedVersion : Version) (row : Option Item) : Nat × Option Item :=
  match row with
  | none => (0, none)
  | some item => if item.version = expectedVersion.value then (1, none) else (0, some item)

/-- The conditional statement of a mutation. -/
def Mutation.statement (m : Mutation) (row : Option Item) : Nat × Option Item :=
  match m.data? with
  | some data => updateStatement data m.expectedVersion row
  | none => deleteStatement m.expectedVersion row

-- ============================================================================
-- What a mutation is for
-- ============================================================================

/-- The mutation as one atomic step on the row: a refusal, or the row it leaves.  This states
    the purpose of the service; the model of its code is in `QuickApi.Items.Transactions`. -/
def Mutation.apply (m : Mutation) (row : Option Item) : Except HTTPException (Option Item) :=
  match row with
  | none => .error notFound
  | some item =>
      if item.version ≠ m.expectedVersion.value then .error versionConflict
      else
        match m.data? with
        | none => .ok none
        | some data =>
            if item.version = maxVersion then .error versionConflict
            else .ok (some { data.values item with version := item.version + 1 })

theorem mutationItem_ok {row : Option Item} {v : Version} {item : Item}
    (h : mutationItem row v = .ok item) : row = some item ∧ item.version = v.value := by
  cases row with
  | none => cases h
  | some i =>
      simp only [mutationItem] at h
      split at h
      · cases h
      · next hv =>
        obtain rfl := Except.ok.inj h
        exact ⟨rfl, not_not.mp hv⟩

/-- The check behind the locking read refuses as the atomic mutation does. -/
theorem apply_of_mutationItem_error {row : Option Item} {m : Mutation} {e : HTTPException}
    (h : mutationItem row m.expectedVersion = .error e) : m.apply row = .error e := by
  cases row with
  | none => exact congrArg Except.error (Except.error.inj h)
  | some item =>
      simp only [mutationItem] at h
      split at h
      · next hv =>
        rw [Mutation.apply, if_pos hv, ← Except.error.inj h]
      · cases h

/-- Behind the check the statement decides what is left: it misses its row exactly when the
    atomic mutation is refused. -/
theorem statement_of_checked {m : Mutation} {item : Item}
    (hv : item.version = m.expectedVersion.value) :
    (m.apply (some item) = .error versionConflict ∧ m.statement (some item) = (0, some item)) ∨
    (∃ row, m.apply (some item) = .ok row ∧ m.statement (some item) = (1, row)) := by
  have hle := m.expectedVersion.le_max
  dsimp only [Mutation.apply, Mutation.statement]
  rw [if_neg (not_not.mpr hv)]
  cases m.data? with
  | none =>
      refine Or.inr ⟨none, rfl, ?_⟩
      simp only [deleteStatement, if_pos hv]
  | some data =>
      simp only [updateStatement]
      by_cases hmax : item.version = maxVersion
      · exact Or.inl ⟨if_pos hmax, if_neg (by omega)⟩
      · exact Or.inr ⟨_, if_neg hmax, if_pos (by omega)⟩

end QuickApi.Items
