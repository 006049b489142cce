/-
  QuickApi.Items.Payload

  The bodies of PATCH and PUT on their way to the row: their validation
  (`item_update_model.py`, `item_replace_model.py`), `model_dump`, and the
  conversion to `ItemUpdateData` (`app/common/models/converter.py`).  A key that
  is absent, a null and a default are three states up to the `UPDATE`.
-/

import QuickApi.Items.Model
import QuickApi.Price.Exact

namespace QuickApi.Items

open QuickApi.Fingerprint QuickApi.Lib QuickApi.Price

-- ============================================================================
-- Models
-- ============================================================================

/-- The fields of `UpdateItemRequest` and of `ReplaceItemRequest`. -/
inductive FieldName where
  | expectedVersion
  | name
  | price
  | description
deriving DecidableEq, Repr

namespace FieldName

def all : List FieldName := [.expectedVersion, .name, .price, .description]

theorem mem_all (f : FieldName) : f ∈ all := by
  cases f <;> decide

/-- What an attribute of the model holds; `none` is Python's `None`. -/
abbrev Attribute : FieldName → Type
  | .expectedVersion => Version
  | .name => Option String
  | .price => Option Decimal
  | .description => Option String

end FieldName

/-- A JSON object; other keys than those of the fields are ignored. -/
abbrev Body := FieldName → Option Value

/-- A dictionary with the names of fields as keys. -/
abbrev Dump := (f : FieldName) → Option f.Attribute

/-- Why a field is refused: what pydantic reports by its type, and the errors of the source. -/
inductive FieldError where
  | missing
  | intType
  | greaterThanEqual
  | lessThanEqual
  | stringType
  | stringTooShort
  | stringTooLong
  | price (error : PriceError)
  /-- `PydanticCustomError(code, message)` -/
  | custom (code message : String)
deriving DecidableEq, Repr

/-- An entry of `ValidationError.errors()`; the error of a model has no field in its place. -/
structure ErrorDetails where
  loc : Option FieldName
  error : FieldError
deriving DecidableEq, Repr

/-- `Field(default, …)` with the validators of the annotation; a required field has no default. -/
structure FieldInfo (f : FieldName) where
  default : Option f.Attribute
  validate : Value → Except FieldError f.Attribute

/-- An instance: its attributes and `model_fields_set`. -/
structure BaseModel where
  value : (f : FieldName) → f.Attribute
  isSet : FieldName → Bool

/-- A default is not validated. -/
def FieldInfo.read {f : FieldName} (info : FieldInfo f) : Option Value →
    Except FieldError f.Attribute
  | some value => info.validate value
  | none =>
      match info.default with
      | some default => .ok default
      | none => .error .missing

/-- The errors of all fields, in their order. -/
def fieldErrors (fields : (f : FieldName) → FieldInfo f) (body : Body) : List ErrorDetails :=
  FieldName.all.filterMap fun f =>
    match (fields f).read (body f) with
    | .ok _ => none
    | .error e => some ⟨some f, e⟩

theorem read_of_fieldErrors {fields : (f : FieldName) → FieldInfo f} {body : Body}
    (h : fieldErrors fields body = []) (f : FieldName) :
    ∃ value, (fields f).read (body f) = .ok value := by
  have hnone := List.filterMap_eq_nil_iff.mp h f f.mem_all
  cases hread : (fields f).read (body f) with
  | ok value => exact ⟨value, rfl⟩
  | error e =>
      rw [hread] at hnone
      cases hnone

/-- `BaseModel.model_validate`, up to the validators of the model. -/
def modelValidate (fields : (f : FieldName) → FieldInfo f) (body : Body) :
    Except (List ErrorDetails) BaseModel :=
  if h : fieldErrors fields body = [] then
    .ok {
      value := fun f =>
        match hread : (fields f).read (body f) with
        | .ok value => value
        | .error _ => absurd (read_of_fieldErrors h f) (by simp [hread])
      isSet := fun f => (body f).isSome }
  else .error (fieldErrors fields body)

/-- `model_dump(exclude_unset=…, exclude=…)`; prices stay decimals outside JSON. -/
def BaseModel.modelDump (m : BaseModel) (excludeUnset : Bool) (exclude : List FieldName) : Dump :=
  fun f =>
    if f ∈ exclude then none
    else if excludeUnset && !m.isSet f then none
    else some (m.value f)

theorem modelValidate_ok {fields : (f : FieldName) → FieldInfo f} {body : Body} {m : BaseModel}
    (h : modelValidate fields body = .ok m) (f : FieldName) :
    (fields f).read (body f) = .ok (m.value f) ∧ m.isSet f = (body f).isSome := by
  rw [modelValidate] at h
  split at h
  · obtain rfl := Except.ok.inj h
    refine ⟨?_, rfl⟩
    dsimp only
    split
    · next hread => exact hread
    · next herror => exact absurd (read_of_fieldErrors ‹_› f) (by simp [herror])
  · cases h

/-- An instance that reads as the body does is what the validation returns. -/
theorem modelValidate_eq {fields : (f : FieldName) → FieldInfo f} {body : Body} {m : BaseModel}
    (h : ∀ f, (fields f).read (body f) = .ok (m.value f) ∧ m.isSet f = (body f).isSome) :
    modelValidate fields body = .ok m := by
  have hnil : fieldErrors fields body = [] := by
    rw [fieldErrors, List.filterMap_eq_nil_iff]
    intro f _
    rw [(h f).1]
  cases hm : modelValidate fields body with
  | error errors =>
      rw [modelValidate, dif_pos hnil] at hm
      cases hm
  | ok m' =>
      obtain ⟨value, isSet⟩ := m
      obtain ⟨value', isSet'⟩ := m'
      have hvalue : value' = value := funext fun f =>
        Except.ok.inj ((modelValidate_ok hm f).1.symm.trans (h f).1)
      have hset : isSet' = isSet := funext fun f =>
        (modelValidate_ok hm f).2.trans (h f).2.symm
      rw [hvalue, hset]

-- ============================================================================
-- The validators
-- ============================================================================

/-- `normalize_revision_number`.  The text of a float is exact for the revisions that are
    accepted. -/
def normalizeRevisionNumber : Value → Value
  | .number (.float repr) =>
      match repr.value? with
      | some q => if q.den = 1 then .number (.int q.num) else .number (.float repr)
      | none => .number (.float repr)
  | value => value

/-- `Version` -/
def validateVersion (value : Value) : Except FieldError Version :=
  match normalizeRevisionNumber value with
  | .number (.int n) =>
      if hmin : n < 1 then .error .greaterThanEqual
      else if hmax : maxVersion < n then .error .lessThanEqual
      else .ok ⟨n.toNat, by omega, by omega⟩
  | _ => .error .intType

/-- `str` with `min_length` and `max_length` -/
def validateStr (minLength maxLength : Nat) : Value → Except FieldError String
  | .str text =>
      if text.length < minLength then .error .stringTooShort
      else if maxLength < text.length then .error .stringTooLong
      else .ok (String.ofList text)
  | _ => .error .stringType

/-- A value as `validate_price` tells it apart. -/
def priceInput : Value → PriceInput
  | .str text => .str text
  | .bool b => .bool b
  | .number n => .number n
  | .null | .list _ | .dict _ => .other 0

/-- `Price` -/
def validatePriceField (context : DecimalContext) (value : Value) : Except FieldError Decimal :=
  match validatePrice context (priceInput value) with
  | .ok cents => .ok cents
  | .error e => .error (.price e)

/-- `str | None` with `max_length=500` -/
def validateDescription : Value → Except FieldError (Option String)
  | .null => .ok none
  | value => some <$> validateStr 0 500 value

/-- `reject_explicit_nulls` -/
def rejectExplicitNulls : Value → Except FieldError Value
  | .null =>
      .error (.custom "null_forbidden" "Field cannot be null (omit the field to skip updating it)")
  | value => .ok value

namespace UpdateItemRequest

def fields (context : DecimalContext) : (f : FieldName) → FieldInfo f
  | .expectedVersion => ⟨none, validateVersion⟩
  | .name => ⟨some none, fun value => do
      let value ← rejectExplicitNulls value
      some <$> validateStr 1 120 value⟩
  | .price => ⟨some none, fun value => do
      let value ← rejectExplicitNulls value
      some <$> validatePriceField context value⟩
  | .description => ⟨some none, validateDescription⟩

/-- `reject_empty_payload` -/
def rejectEmptyPayload (m : BaseModel) : Except (List ErrorDetails) BaseModel :=
  let provided := FieldName.all.filter fun f => (m.modelDump true [] f).isSome
  if provided.filter (· ≠ .expectedVersion) = [] then
    .error [⟨none, .custom "empty_body" "At least one field must be provided"⟩]
  else .ok m

def validate (context : DecimalContext) (body : Body) : Except (List ErrorDetails) BaseModel := do
  let m ← modelValidate (fields context) body
  rejectEmptyPayload m

end UpdateItemRequest

namespace ReplaceItemRequest

def fields (context : DecimalContext) : (f : FieldName) → FieldInfo f
  | .expectedVersion => ⟨none, validateVersion⟩
  | .name => ⟨none, fun value => some <$> validateStr 1 120 value⟩
  | .price => ⟨none, fun value => some <$> validatePriceField context value⟩
  | .description => ⟨some none, validateDescription⟩

def validate (context : DecimalContext) (body : Body) : Except (List ErrorDetails) BaseModel :=
  modelValidate (fields context) body

end ReplaceItemRequest

-- ============================================================================
-- The conversion
-- ============================================================================

/-- `HTTPException(500, …)` of `model_to(ItemUpdateData, …)` -/
def conversionFailed : HTTPException :=
  ⟨500, "Internal model conversion failed for 'ItemUpdateData'."⟩

/-- The key `name` of the `TypedDict`, which need not be there but must hold a `str`. -/
def convertName : Option (Option String) → Except HTTPException (Option String)
  | none => .ok none
  | some (some name) => .ok (some name)
  | some none => .error conversionFailed

/-- The key `price`, which must hold a finite `Decimal`; the column keeps its value. -/
def convertPrice : Option (Option Decimal) → Except HTTPException (Option ℚ)
  | none => .ok none
  | some (some price) =>
      match price.value? with
      | some value => .ok (some value)
      | none => .error conversionFailed
  | some none => .error conversionFailed

/-- `_adapter(ItemUpdateData).validate_python(data)`; other keys are dropped. -/
def modelTo (data : Dump) : Except HTTPException ItemUpdateData := do
  let name ← convertName (data .name)
  let price ← convertPrice (data .price)
  return ⟨name, data .description, price⟩

-- ============================================================================
-- The service
-- ============================================================================

/-- `repo.update`: the statement, the check of its row count, and the row as it is read back. -/
def repoUpdate (row : Option Item) (newData : ItemUpdateData) (expectedVersion : Version) :
    Except HTTPException Item :=
  match updateStatement newData expectedVersion row with
  | (1, some updated) => .ok updated
  | _ => .error versionConflict

/-- What `update` and `replace` share, over the row of the item under its lock. -/
def serviceMutate (excludeUnset : Bool) (row : Option Item) (payload : BaseModel) :
    Except HTTPException Item := do
  let item ← mutationItem row (payload.value .expectedVersion)
  let data ← modelTo (payload.modelDump excludeUnset [.expectedVersion])
  repoUpdate (some item) data (payload.value .expectedVersion)

/-- `ItemService.update` -/
def serviceUpdate : Option Item → BaseModel → Except HTTPException Item := serviceMutate true

/-- `ItemService.replace` -/
def serviceReplace : Option Item → BaseModel → Except HTTPException Item := serviceMutate false

end QuickApi.Items
