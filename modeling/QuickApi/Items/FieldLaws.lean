/-
  QuickApi.Items.FieldLaws

  What PATCH and PUT do to the fields of an item: an accepted body determines
  every field of the row, by what it supplies or by what the row had.  Patches
  compose by overriding, and a replacement is the patch that supplies all
  three fields.
-/

import QuickApi.Items.Payload

namespace QuickApi.Items

open QuickApi.Fingerprint QuickApi.Lib QuickApi.Price

-- ============================================================================
-- Data
-- ============================================================================

/-- The entries of `p`, overridden by those of `q`. -/
def ItemUpdateData.override (p q : ItemUpdateData) : ItemUpdateData :=
  ⟨q.name.or p.name, q.description.or p.description, q.price.or p.price⟩

theorem getD_or {α : Type} (a b : Option α) (c : α) : (a.or b).getD c = a.getD (b.getD c) := by
  cases a <;> rfl

theorem values_override (p q : ItemUpdateData) (row : Item) :
    (p.override q).values row = q.values (p.values row) := by
  simp only [ItemUpdateData.override, ItemUpdateData.values, getD_or]

-- ============================================================================
-- What the validators accept
-- ============================================================================

theorem validateStr_ok {minLength maxLength : Nat} {value : Value} {s : String}
    (h : validateStr minLength maxLength value = .ok s) :
    ∃ text, value = .str text ∧ s = String.ofList text := by
  cases value with
  | str text =>
      rw [validateStr] at h
      split at h
      · cases h
      · split at h
        · cases h
        · exact ⟨text, rfl, (Except.ok.inj h).symm⟩
  | _ => cases h

theorem map_some_ok {α : Type} {result : Except FieldError α} {value : Option α}
    (h : some <$> result = .ok value) : ∃ a, result = .ok a ∧ value = some a := by
  cases result with
  | error e => cases h
  | ok a => exact ⟨a, rfl, (Except.ok.inj h).symm⟩

theorem validateDescription_ok {value : Value} {description : Option String}
    (h : validateDescription value = .ok description) :
    (value = .null ∧ description = none) ∨
      ∃ text, value = .str text ∧ description = some (String.ofList text) := by
  by_cases hnull : value = .null
  · subst hnull
    exact .inl ⟨rfl, (Except.ok.inj h).symm⟩
  · have hstr : validateDescription value = some <$> validateStr 0 500 value := by
      cases value with
      | null => exact absurd rfl hnull
      | _ => rfl
    obtain ⟨s, hs, rfl⟩ := map_some_ok (hstr.symm.trans h)
    obtain ⟨text, rfl, rfl⟩ := validateStr_ok hs
    exact .inr ⟨text, rfl, rfl⟩

theorem validatePriceField_ok {context : DecimalContext} {value : Value} {cents : Decimal}
    (h : validatePriceField context value = .ok cents) :
    validatePrice context (priceInput value) = .ok cents ∧ ∃ p, cents.value? = some p := by
  rw [validatePriceField] at h
  split at h
  · next hprice =>
      obtain rfl := Except.ok.inj h
      obtain ⟨m, -, -, -, rfl⟩ := validatePrice_eq_ok_iff.mp hprice
      exact ⟨hprice, _, cents_value m⟩
  · cases h

theorem rejectExplicitNulls_bind {α : Type} {value : Value} {f : Value → Except FieldError α}
    {a : α} (h : (do let v ← rejectExplicitNulls value; f v) = .ok a) :
    value ≠ .null ∧ f value = .ok a := by
  cases value with
  | null => cases h
  | _ => exact ⟨nofun, h⟩

theorem rejectExplicitNulls_of_ne {value : Value} (h : value ≠ .null) :
    rejectExplicitNulls value = .ok value := by
  cases value with
  | null => exact absurd rfl h
  | _ => rfl

/-- A null is no price. -/
theorem validatePriceField_null (context : DecimalContext) (cents : Decimal) :
    validatePriceField context .null ≠ .ok cents := by
  intro h
  obtain ⟨m, hm, -⟩ := validatePrice_eq_ok_iff.mp (validatePriceField_ok h).1
  exact hm

-- ============================================================================
-- Accepted patches
-- ============================================================================

theorem update_validate_ok_iff {context : DecimalContext} {body : Body} {m : BaseModel} :
    UpdateItemRequest.validate context body = .ok m ↔
      modelValidate (UpdateItemRequest.fields context) body = .ok m ∧
        ∃ f, f ≠ .expectedVersion ∧ (body f).isSome = true := by
  have hprovided (m : BaseModel)
      (hm : modelValidate (UpdateItemRequest.fields context) body = .ok m) :
      UpdateItemRequest.rejectEmptyPayload m = .ok m ↔
        ∃ f, f ≠ .expectedVersion ∧ (body f).isSome = true := by
    have hdump (f : FieldName) : (m.modelDump true [] f).isSome = (body f).isSome := by
      rw [BaseModel.modelDump, if_neg List.not_mem_nil, (modelValidate_ok hm f).2]
      cases body f <;> rfl
    rw [UpdateItemRequest.rejectEmptyPayload]
    simp only [hdump]
    constructor
    · intro h
      split at h
      · cases h
      · next hne =>
          obtain ⟨f, hf⟩ := List.exists_mem_of_ne_nil _ hne
          rw [List.mem_filter, List.mem_filter] at hf
          exact ⟨f, by simpa using hf.2, hf.1.2⟩
    · rintro ⟨f, hf, hsome⟩
      rw [if_neg]
      refine List.ne_nil_of_mem (a := f) ?_
      rw [List.mem_filter, List.mem_filter]
      exact ⟨⟨f.mem_all, hsome⟩, by simpa using hf⟩
  rw [UpdateItemRequest.validate]
  cases hm : modelValidate (UpdateItemRequest.fields context) body with
  | error errors => simp [bind, Except.bind]
  | ok m' =>
      have hbind : (Except.ok m' >>= UpdateItemRequest.rejectEmptyPayload) =
          UpdateItemRequest.rejectEmptyPayload m' := rfl
      constructor
      · intro h
        have hm' : m' = m := by
          rw [hbind, UpdateItemRequest.rejectEmptyPayload] at h
          split at h
          · cases h
          · exact Except.ok.inj h
        subst hm'
        exact ⟨rfl, (hprovided m' hm).mp h⟩
      · rintro ⟨hm', hsome⟩
        obtain rfl := Except.ok.inj hm'
        exact (hprovided m' hm).mpr hsome

/-- What a body supplies for a field, if anything, and what an instance holds of it. -/
structure UpdateRead (context : DecimalContext) (body : Body) (m : BaseModel) : Prop where
  isSet : ∀ f, m.isSet f = (body f).isSome
  name : (body .name = none ∧ m.value .name = none) ∨
    ∃ text, body .name = some (.str text) ∧ m.value .name = some (String.ofList text)
  price : (body .price = none ∧ m.value .price = none) ∨
    ∃ value cents, body .price = some value ∧ m.value .price = some cents ∧
      validatePrice context (priceInput value) = .ok cents ∧ ∃ p, cents.value? = some p
  description : (body .description = none ∧ m.value .description = none) ∨
    (body .description = some .null ∧ m.value .description = none) ∨
    ∃ text, body .description = some (.str text) ∧
      m.value .description = some (String.ofList text)

theorem updateRead_of_validate {context : DecimalContext} {body : Body} {m : BaseModel}
    (h : modelValidate (UpdateItemRequest.fields context) body = .ok m) :
    UpdateRead context body m where
  isSet f := (modelValidate_ok h f).2
  name := by
    have hread := (modelValidate_ok h .name).1
    cases hbody : body .name with
    | none =>
        rw [hbody] at hread
        exact .inl ⟨rfl, (Except.ok.inj hread).symm⟩
    | some value =>
        rw [hbody] at hread
        obtain ⟨-, hread⟩ := rejectExplicitNulls_bind hread
        obtain ⟨s, hs, hvalue⟩ := map_some_ok hread
        obtain ⟨text, rfl, rfl⟩ := validateStr_ok hs
        exact .inr ⟨text, rfl, hvalue⟩
  price := by
    have hread := (modelValidate_ok h .price).1
    cases hbody : body .price with
    | none =>
        rw [hbody] at hread
        exact .inl ⟨rfl, (Except.ok.inj hread).symm⟩
    | some value =>
        rw [hbody] at hread
        obtain ⟨-, hread⟩ := rejectExplicitNulls_bind hread
        obtain ⟨cents, hcents, hvalue⟩ := map_some_ok hread
        obtain ⟨hprice, hfinite⟩ := validatePriceField_ok hcents
        exact .inr ⟨value, cents, rfl, hvalue, hprice, hfinite⟩
  description := by
    have hread := (modelValidate_ok h .description).1
    cases hbody : body .description with
    | none =>
        rw [hbody] at hread
        exact .inl ⟨rfl, (Except.ok.inj hread).symm⟩
    | some value =>
        rw [hbody] at hread
        obtain ⟨rfl, hvalue⟩ | ⟨text, rfl, hvalue⟩ := validateDescription_ok hread
        · exact .inr (.inl ⟨rfl, hvalue⟩)
        · exact .inr (.inr ⟨text, rfl, hvalue⟩)

-- ============================================================================
-- The statement
-- ============================================================================

theorem modelDump_expectedVersion (m : BaseModel) (excludeUnset : Bool) :
    m.modelDump excludeUnset [.expectedVersion] .expectedVersion = none :=
  if_pos (List.mem_singleton.mpr rfl)

theorem modelDump_unset (m : BaseModel) {f : FieldName} (hf : f ≠ .expectedVersion) :
    m.modelDump true [.expectedVersion] f = if m.isSet f then some (m.value f) else none := by
  rw [BaseModel.modelDump, if_neg (by simpa using hf)]
  cases m.isSet f <;> rfl

theorem modelDump_full (m : BaseModel) {f : FieldName} (hf : f ≠ .expectedVersion) :
    m.modelDump false [.expectedVersion] f = some (m.value f) := by
  rw [BaseModel.modelDump, if_neg (by simpa using hf)]
  rfl

/-- The keys that a patch hands to the statement: those that were set. -/
def BaseModel.updateData (m : BaseModel) : ItemUpdateData where
  name := if m.isSet .name then m.value .name else none
  description := if m.isSet .description then some (m.value .description) else none
  price := if m.isSet .price then (m.value .price).bind Decimal.value? else none

/-- The conversion of an accepted patch does not fail. -/
theorem UpdateRead.modelTo {context : DecimalContext} {body : Body} {m : BaseModel}
    (h : UpdateRead context body m) :
    modelTo (m.modelDump true [.expectedVersion]) = .ok m.updateData := by
  have hname : convertName (m.modelDump true [.expectedVersion] .name) = .ok m.updateData.name := by
    rw [modelDump_unset m (by decide), BaseModel.updateData]
    dsimp only
    obtain ⟨hbody, -⟩ | ⟨text, hbody, hvalue⟩ := h.name
    · rw [h.isSet, hbody]
      rfl
    · rw [h.isSet, hbody, hvalue]
      rfl
  have hprice : convertPrice (m.modelDump true [.expectedVersion] .price) =
      .ok m.updateData.price := by
    rw [modelDump_unset m (by decide), BaseModel.updateData]
    dsimp only
    obtain ⟨hbody, -⟩ | ⟨value, cents, hbody, hvalue, -, p, hp⟩ := h.price
    · rw [h.isSet, hbody]
      rfl
    · rw [h.isSet, hbody, hvalue]
      simp [convertPrice, hp]
  rw [Items.modelTo, hname, hprice, modelDump_unset m (by decide)]
  rfl

/-- A mutation is accepted over the version it expects, and leaves the row with its data and the
    next version. -/
theorem serviceMutate_ok_iff {excludeUnset : Bool} {item item' : Item} {m : BaseModel}
    {data : ItemUpdateData}
    (h : modelTo (m.modelDump excludeUnset [.expectedVersion]) = .ok data) :
    serviceMutate excludeUnset (some item) m = .ok item' ↔
      (item.version = (m.value .expectedVersion).value ∧ item.version < maxVersion) ∧
        item' = { data.values item with version := item.version + 1 } := by
  rw [serviceMutate, mutationItem]
  by_cases hv : item.version = (m.value .expectedVersion).value
  · rw [if_neg (not_not.mpr hv), h]
    simp only [bind, Except.bind, repoUpdate, updateStatement]
    by_cases hmax : item.version < maxVersion
    · rw [if_pos ⟨hv, hmax⟩]
      constructor
      · intro heq
        exact ⟨⟨hv, hmax⟩, (Except.ok.inj heq).symm⟩
      · rintro ⟨-, rfl⟩
        rfl
    · rw [if_neg (fun h => hmax h.2)]
      simp [hmax]
  · rw [if_pos hv]
    simp [bind, Except.bind, hv]

/-- The service does what the mutation of the typed payload is for. -/
theorem serviceMutate_eq_apply {excludeUnset : Bool} {row : Option Item} {m : BaseModel}
    {data : ItemUpdateData} (mutation : Mutation)
    (h : modelTo (m.modelDump excludeUnset [.expectedVersion]) = .ok data)
    (hversion : mutation.expectedVersion = m.value .expectedVersion)
    (hdata : mutation.data? = some data) :
    some <$> serviceMutate excludeUnset row m = mutation.apply row := by
  cases row with
  | none => rfl
  | some item =>
      rw [Mutation.apply, hversion, hdata, serviceMutate, mutationItem]
      by_cases hv : item.version = (m.value .expectedVersion).value
      · rw [if_neg (not_not.mpr hv), if_neg (not_not.mpr hv), h]
        have hle := (m.value .expectedVersion).le_max
        simp only [bind, Except.bind, repoUpdate, updateStatement]
        by_cases hmax : item.version = maxVersion
        · rw [if_neg (fun hlt => absurd hlt.2 (by omega)), if_pos hmax]
          rfl
        · rw [if_pos ⟨hv, by omega⟩, if_neg hmax]
          rfl
      · rw [if_pos hv, if_pos hv]
        rfl

-- ============================================================================
-- Fields of the row
-- ============================================================================

/-- The fields behind an accepted patch: what the body supplies, and otherwise what was there;
    an explicit null clears the description. -/
structure Patched (context : DecimalContext) (body : Body) (before after : Item) : Prop where
  version : after.version = before.version + 1
  name : (body .name = none ∧ after.name = before.name) ∨
    ∃ text, body .name = some (.str text) ∧ after.name = String.ofList text
  price : (body .price = none ∧ after.price = before.price) ∨
    ∃ value cents, body .price = some value ∧
      validatePrice context (priceInput value) = .ok cents ∧ cents.value? = some after.price
  description : (body .description = none ∧ after.description = before.description) ∨
    (body .description = some .null ∧ after.description = none) ∨
    ∃ text, body .description = some (.str text) ∧ after.description = some (String.ofList text)

/-- The fields behind an accepted replacement, by the body alone: an absent description is a
    null. -/
structure Replaced (context : DecimalContext) (body : Body) (after : Item) : Prop where
  name : ∃ text, body .name = some (.str text) ∧ after.name = String.ofList text
  price : ∃ value cents, body .price = some value ∧
    validatePrice context (priceInput value) = .ok cents ∧ cents.value? = some after.price
  description : ((body .description = none ∨ body .description = some .null) ∧
      after.description = none) ∨
    ∃ text, body .description = some (.str text) ∧ after.description = some (String.ofList text)

theorem UpdateRead.patched {context : DecimalContext} {body : Body} {m : BaseModel}
    (h : UpdateRead context body m) (item : Item) :
    Patched context body item { m.updateData.values item with version := item.version + 1 } where
  version := rfl
  name := by
    dsimp only [BaseModel.updateData, ItemUpdateData.values]
    obtain ⟨hbody, -⟩ | ⟨text, hbody, hvalue⟩ := h.name
    · rw [h.isSet, hbody]
      exact .inl ⟨rfl, rfl⟩
    · rw [h.isSet, hbody, hvalue]
      exact .inr ⟨text, rfl, rfl⟩
  price := by
    dsimp only [BaseModel.updateData, ItemUpdateData.values]
    obtain ⟨hbody, -⟩ | ⟨value, cents, hbody, hvalue, hprice, p, hp⟩ := h.price
    · rw [h.isSet, hbody]
      exact .inl ⟨rfl, rfl⟩
    · rw [h.isSet, hbody, hvalue]
      exact .inr ⟨value, cents, rfl, hprice, by simp [hp]⟩
  description := by
    dsimp only [BaseModel.updateData, ItemUpdateData.values]
    obtain ⟨hbody, -⟩ | ⟨hbody, hvalue⟩ | ⟨text, hbody, hvalue⟩ := h.description
    · rw [h.isSet, hbody]
      exact .inl ⟨rfl, rfl⟩
    · rw [h.isSet, hbody, hvalue]
      exact .inr (.inl ⟨rfl, rfl⟩)
    · rw [h.isSet, hbody, hvalue]
      exact .inr (.inr ⟨text, rfl, rfl⟩)

-- ============================================================================
-- Patches one after the other
-- ============================================================================

/-- The fields of `p`, overridden by those of `q`, over the version that `p` expects. -/
def Body.override (p q : Body) : Body
  | .expectedVersion => p .expectedVersion
  | f => (q f).or (p f)

theorem Body.override_field (p q : Body) {f : FieldName} (hf : f ≠ .expectedVersion) :
    p.override q f = (q f).or (p f) := by
  cases f with
  | expectedVersion => exact absurd rfl hf
  | _ => rfl

def BaseModel.override (m n : BaseModel) : BaseModel where
  value
    | .expectedVersion => m.value .expectedVersion
    | f => if n.isSet f then n.value f else m.value f
  isSet
    | .expectedVersion => m.isSet .expectedVersion
    | f => n.isSet f || m.isSet f

theorem BaseModel.override_value (m n : BaseModel) {f : FieldName} (hf : f ≠ .expectedVersion) :
    (m.override n).value f = if n.isSet f then n.value f else m.value f := by
  cases f with
  | expectedVersion => exact absurd rfl hf
  | _ => rfl

theorem BaseModel.override_isSet (m n : BaseModel) {f : FieldName} (hf : f ≠ .expectedVersion) :
    (m.override n).isSet f = (n.isSet f || m.isSet f) := by
  cases f with
  | expectedVersion => exact absurd rfl hf
  | _ => rfl

theorem modelValidate_override {fields : (f : FieldName) → FieldInfo f} {p q : Body}
    {m n : BaseModel} (hm : modelValidate fields p = .ok m) (hn : modelValidate fields q = .ok n) :
    modelValidate fields (p.override q) = .ok (m.override n) := by
  refine modelValidate_eq fun f => ?_
  obtain ⟨hread, hset⟩ := modelValidate_ok hm f
  obtain ⟨hread', hset'⟩ := modelValidate_ok hn f
  by_cases hf : f = .expectedVersion
  · subst hf
    exact ⟨hread, hset⟩
  · rw [Body.override_field p q hf, BaseModel.override_value m n hf,
      BaseModel.override_isSet m n hf, hset, hset']
    cases hq : q f with
    | none => exact ⟨hread, rfl⟩
    | some value =>
        rw [hq] at hread'
        exact ⟨hread', rfl⟩

theorem updateData_override {context : DecimalContext} {q : Body} (m : BaseModel) {n : BaseModel}
    (hn : UpdateRead context q n) :
    (m.override n).updateData = m.updateData.override n.updateData := by
  have hname : (m.override n).updateData.name = n.updateData.name.or m.updateData.name := by
    dsimp only [BaseModel.updateData]
    rw [BaseModel.override_value m n (by decide), BaseModel.override_isSet m n (by decide)]
    obtain ⟨hbody, -⟩ | ⟨text, hbody, hvalue⟩ := hn.name
    · simp [hn.isSet, hbody]
    · simp [hn.isSet, hbody, hvalue]
  have hprice : (m.override n).updateData.price = n.updateData.price.or m.updateData.price := by
    dsimp only [BaseModel.updateData]
    rw [BaseModel.override_value m n (by decide), BaseModel.override_isSet m n (by decide)]
    obtain ⟨hbody, -⟩ | ⟨value, cents, hbody, hvalue, -, price, hprice⟩ := hn.price
    · simp [hn.isSet, hbody]
    · simp [hn.isSet, hbody, hvalue, hprice]
  have hdescription : (m.override n).updateData.description =
      n.updateData.description.or m.updateData.description := by
    dsimp only [BaseModel.updateData]
    rw [BaseModel.override_value m n (by decide), BaseModel.override_isSet m n (by decide)]
    cases n.isSet .description <;> simp
  rw [ItemUpdateData.override, ← hname, ← hprice, ← hdescription]

-- ============================================================================
-- Replacements
-- ============================================================================

structure ReplaceRead (context : DecimalContext) (body : Body) (m : BaseModel) : Prop where
  name : ∃ text, body .name = some (.str text) ∧ m.value .name = some (String.ofList text)
  price : ∃ value cents, body .price = some value ∧ m.value .price = some cents ∧
    validatePrice context (priceInput value) = .ok cents ∧ ∃ p, cents.value? = some p
  description : ((body .description = none ∨ body .description = some .null) ∧
      m.value .description = none) ∨
    ∃ text, body .description = some (.str text) ∧
      m.value .description = some (String.ofList text)

theorem replaceRead_of_validate {context : DecimalContext} {body : Body} {m : BaseModel}
    (h : ReplaceItemRequest.validate context body = .ok m) : ReplaceRead context body m where
  name := by
    have hread := (modelValidate_ok h .name).1
    cases hbody : body .name with
    | none =>
        rw [hbody] at hread
        cases hread
    | some value =>
        rw [hbody] at hread
        obtain ⟨s, hs, hvalue⟩ := map_some_ok hread
        obtain ⟨text, rfl, rfl⟩ := validateStr_ok hs
        exact ⟨text, rfl, hvalue⟩
  price := by
    have hread := (modelValidate_ok h .price).1
    cases hbody : body .price with
    | none =>
        rw [hbody] at hread
        cases hread
    | some value =>
        rw [hbody] at hread
        obtain ⟨cents, hcents, hvalue⟩ := map_some_ok hread
        obtain ⟨hprice, hfinite⟩ := validatePriceField_ok hcents
        exact ⟨value, cents, rfl, hvalue, hprice, hfinite⟩
  description := by
    have hread := (modelValidate_ok h .description).1
    cases hbody : body .description with
    | none =>
        rw [hbody] at hread
        exact .inl ⟨.inl rfl, (Except.ok.inj hread).symm⟩
    | some value =>
        rw [hbody] at hread
        obtain ⟨rfl, hvalue⟩ | ⟨text, rfl, hvalue⟩ := validateDescription_ok hread
        · exact .inl ⟨.inr rfl, hvalue⟩
        · exact .inr ⟨text, rfl, hvalue⟩

/-- All three keys. -/
def BaseModel.replaceData (m : BaseModel) : ItemUpdateData where
  name := m.value .name
  description := some (m.value .description)
  price := (m.value .price).bind Decimal.value?

theorem ReplaceRead.modelTo {context : DecimalContext} {body : Body} {m : BaseModel}
    (h : ReplaceRead context body m) :
    modelTo (m.modelDump false [.expectedVersion]) = .ok m.replaceData := by
  obtain ⟨text, -, hname⟩ := h.name
  obtain ⟨value, cents, -, hcents, -, p, hp⟩ := h.price
  rw [Items.modelTo, modelDump_full m (by decide), modelDump_full m (by decide),
    modelDump_full m (by decide), BaseModel.replaceData, hname, hcents]
  simp [convertName, convertPrice, hp, bind, Except.bind, pure, Except.pure]

theorem ReplaceRead.replaced {context : DecimalContext} {body : Body} {m : BaseModel}
    (h : ReplaceRead context body m) (item : Item) :
    Replaced context body { m.replaceData.values item with version := item.version + 1 } where
  name := by
    obtain ⟨text, hbody, hname⟩ := h.name
    exact ⟨text, hbody, by simp [BaseModel.replaceData, ItemUpdateData.values, hname]⟩
  price := by
    obtain ⟨value, cents, hbody, hcents, hprice, p, hp⟩ := h.price
    refine ⟨value, cents, hbody, hprice, ?_⟩
    simp [BaseModel.replaceData, ItemUpdateData.values, hcents, hp]
  description := by
    obtain ⟨hbody, hvalue⟩ | ⟨text, hbody, hvalue⟩ := h.description
    · exact .inl ⟨hbody, by simp [BaseModel.replaceData, ItemUpdateData.values, hvalue]⟩
    · exact .inr ⟨text, hbody, by simp [BaseModel.replaceData, ItemUpdateData.values, hvalue]⟩

/-- The body of a replacement with its default written out. -/
def Body.withDescription (body : Body) : Body
  | .description => some ((body .description).getD .null)
  | f => body f

/-- The instance of the patch that supplies all three fields. -/
def BaseModel.allSet (m : BaseModel) : BaseModel := { m with isSet := fun _ => true }

theorem validate_withDescription {context : DecimalContext} {body : Body} {m : BaseModel}
    (h : ReplaceItemRequest.validate context body = .ok m) :
    UpdateItemRequest.validate context body.withDescription = .ok m.allSet := by
  refine update_validate_ok_iff.mpr ⟨modelValidate_eq fun f => ?_, .description, nofun, rfl⟩
  obtain ⟨hread, hset⟩ := modelValidate_ok h f
  have hsupplied {value : Value} (hf : f ≠ .description) (hbody : body f = some value) :
      body.withDescription f = some value := by
    cases f with
    | description => exact absurd rfl hf
    | _ => exact hbody
  cases f with
  | expectedVersion =>
      refine ⟨hread, ?_⟩
      cases hbody : body .expectedVersion with
      | none =>
          rw [hbody] at hread
          cases hread
      | some value =>
          rw [hsupplied (by decide) hbody]
          rfl
  | name =>
      obtain ⟨text, hbody, -⟩ := (replaceRead_of_validate h).name
      rw [hbody] at hread
      rw [hsupplied (by decide) hbody]
      exact ⟨hread, rfl⟩
  | price =>
      obtain ⟨value, cents, hbody, -⟩ := (replaceRead_of_validate h).price
      rw [hbody] at hread
      rw [hsupplied (by decide) hbody]
      refine ⟨?_, rfl⟩
      have hnull : value ≠ .null := by
        rintro rfl
        obtain ⟨cents, hcents, -⟩ := map_some_ok hread
        exact validatePriceField_null context cents hcents
      have hupdate : (UpdateItemRequest.fields context .price).read (some value) =
          (do let v ← rejectExplicitNulls value; some <$> validatePriceField context v) := rfl
      rw [hupdate, rejectExplicitNulls_of_ne hnull]
      exact hread
  | description =>
      refine ⟨?_, rfl⟩
      cases hbody : body .description with
      | none =>
          rw [hbody] at hread
          rw [Body.withDescription, hbody]
          exact hread
      | some value =>
          rw [hbody] at hread
          rw [Body.withDescription, hbody]
          exact hread

theorem serviceUpdate_allSet (m : BaseModel) (row : Option Item) :
    serviceUpdate row m.allSet = serviceReplace row m := by
  have hdump : m.allSet.modelDump true [.expectedVersion] =
      m.modelDump false [.expectedVersion] := by
    funext f
    rw [BaseModel.modelDump, BaseModel.modelDump]
    rfl
  rw [serviceUpdate, serviceReplace, serviceMutate, serviceMutate, hdump]
  rfl

-- ============================================================================
-- The laws
-- ============================================================================

section

variable {context : DecimalContext}

/-- The mutations whose isolation `QuickApi.Items.NoLostUpdate` proves are those that the service
    makes of the bodies. -/
theorem serviceUpdate_eq_apply {body : Body} {m : BaseModel}
    (h : UpdateItemRequest.validate context body = .ok m) (row : Option Item) :
    some <$> serviceUpdate row m =
      (Mutation.update ⟨m.value .expectedVersion, m.updateData.name, m.updateData.price,
        m.updateData.description⟩).apply row :=
  serviceMutate_eq_apply _ (updateRead_of_validate (update_validate_ok_iff.mp h).1).modelTo rfl rfl

theorem serviceReplace_eq_apply {body : Body} {m : BaseModel}
    (h : ReplaceItemRequest.validate context body = .ok m) (row : Option Item) :
    ∃ name price, m.replaceData.name = some name ∧ m.replaceData.price = some price ∧
      some <$> serviceReplace row m =
        (Mutation.replace ⟨m.value .expectedVersion, name, price, m.value .description⟩).apply row := by
  have hread := replaceRead_of_validate h
  obtain ⟨text, -, hname⟩ := hread.name
  obtain ⟨value, cents, -, hcents, -, p, hp⟩ := hread.price
  have hprice : m.replaceData.price = some p := by simp [BaseModel.replaceData, hcents, hp]
  refine ⟨String.ofList text, p, hname, hprice, serviceMutate_eq_apply _ hread.modelTo rfl ?_⟩
  rw [Mutation.data?, ReplaceItemRequest.toData, ← hname, ← hprice]
  rfl

theorem serviceUpdate_ok_iff {body : Body} {m : BaseModel} {item item' : Item}
    (h : UpdateItemRequest.validate context body = .ok m) :
    serviceUpdate (some item) m = .ok item' ↔
      (item.version = (m.value .expectedVersion).value ∧ item.version < maxVersion) ∧
        item' = { m.updateData.values item with version := item.version + 1 } :=
  serviceMutate_ok_iff (updateRead_of_validate (update_validate_ok_iff.mp h).1).modelTo

theorem serviceReplace_ok_iff {body : Body} {m : BaseModel} {item item' : Item}
    (h : ReplaceItemRequest.validate context body = .ok m) :
    serviceReplace (some item) m = .ok item' ↔
      (item.version = (m.value .expectedVersion).value ∧ item.version < maxVersion) ∧
        item' = { m.replaceData.values item with version := item.version + 1 } :=
  serviceMutate_ok_iff (replaceRead_of_validate h).modelTo

theorem validate_override {p q : Body} {m n : BaseModel}
    (hm : UpdateItemRequest.validate context p = .ok m)
    (hn : UpdateItemRequest.validate context q = .ok n) :
    UpdateItemRequest.validate context (p.override q) = .ok (m.override n) := by
  obtain ⟨hm, -⟩ := update_validate_ok_iff.mp hm
  obtain ⟨hn, f, hf, hsome⟩ := update_validate_ok_iff.mp hn
  refine update_validate_ok_iff.mpr ⟨modelValidate_override hm hn, f, hf, ?_⟩
  rw [Body.override_field p q hf, Option.isSome_or, hsome, Bool.true_or]

end

/-- An accepted PATCH changes the fields that it supplies and no other; two in a row are one with
    the fields of the first overridden by those of the second; an accepted PUT leaves fields that
    its body alone determines, and is the PATCH that supplies all three; `expected_version` is
    never among what is written. -/
theorem field_laws (context : DecimalContext) :
    (∀ body payload, UpdateItemRequest.validate context body = .ok payload →
      ∀ item, ((∃ item', serviceUpdate (some item) payload = .ok item') ↔
          item.version = (payload.value .expectedVersion).value ∧ item.version < maxVersion) ∧
        ∀ item', serviceUpdate (some item) payload = .ok item' →
          Patched context body item item') ∧
      (∀ p q first second, UpdateItemRequest.validate context p = .ok first →
        UpdateItemRequest.validate context q = .ok second →
        ∃ both, UpdateItemRequest.validate context (p.override q) = .ok both ∧
          ∀ item item₁ item₂, serviceUpdate (some item) first = .ok item₁ →
            serviceUpdate (some item₁) second = .ok item₂ →
            ∃ item', serviceUpdate (some item) both = .ok item' ∧ item'.name = item₂.name ∧
              item'.price = item₂.price ∧ item'.description = item₂.description) ∧
      (∀ body payload, ReplaceItemRequest.validate context body = .ok payload →
        (∀ item, ((∃ item', serviceReplace (some item) payload = .ok item') ↔
            item.version = (payload.value .expectedVersion).value ∧ item.version < maxVersion) ∧
          ∀ item', serviceReplace (some item) payload = .ok item' →
            Replaced context body item' ∧ item'.version = item.version + 1) ∧
          (∀ item₁ item₂ item₁' item₂', serviceReplace (some item₁) payload = .ok item₁' →
            serviceReplace (some item₂) payload = .ok item₂' →
            item₁'.name = item₂'.name ∧ item₁'.price = item₂'.price ∧
              item₁'.description = item₂'.description) ∧
          ∃ patch, UpdateItemRequest.validate context body.withDescription = .ok patch ∧
            ∀ row, serviceUpdate row patch = serviceReplace row payload) ∧
      ∀ (payload : BaseModel) (excludeUnset : Bool),
        payload.modelDump excludeUnset [.expectedVersion] .expectedVersion = none := by
  refine ⟨fun body payload h item => ⟨?_, ?_⟩, fun p q first second hfirst hsecond => ?_,
    fun body payload h => ⟨fun item => ⟨?_, ?_⟩, ?_, ?_⟩, modelDump_expectedVersion⟩
  · simp [serviceUpdate_ok_iff h]
  · intro item' hitem'
    obtain ⟨-, rfl⟩ := (serviceUpdate_ok_iff h).mp hitem'
    exact (updateRead_of_validate (update_validate_ok_iff.mp h).1).patched item
  · refine ⟨first.override second, validate_override hfirst hsecond, ?_⟩
    intro item item₁ item₂ h₁ h₂
    obtain ⟨hversion, rfl⟩ := (serviceUpdate_ok_iff hfirst).mp h₁
    obtain ⟨-, rfl⟩ := (serviceUpdate_ok_iff hsecond).mp h₂
    refine ⟨_, (serviceUpdate_ok_iff (validate_override hfirst hsecond)).mpr ⟨hversion, rfl⟩, ?_⟩
    rw [updateData_override first (updateRead_of_validate (update_validate_ok_iff.mp hsecond).1),
      values_override]
    exact ⟨rfl, rfl, rfl⟩
  · simp [serviceReplace_ok_iff h]
  · intro item' hitem'
    obtain ⟨-, rfl⟩ := (serviceReplace_ok_iff h).mp hitem'
    exact ⟨(replaceRead_of_validate h).replaced item, rfl⟩
  · intro item₁ item₂ item₁' item₂' h₁ h₂
    obtain ⟨-, rfl⟩ := (serviceReplace_ok_iff h).mp h₁
    obtain ⟨-, rfl⟩ := (serviceReplace_ok_iff h).mp h₂
    obtain ⟨text, -, hname⟩ := (replaceRead_of_validate h).name
    obtain ⟨value, cents, -, hcents, -, p, hp⟩ := (replaceRead_of_validate h).price
    simp [BaseModel.replaceData, ItemUpdateData.values, hname, hcents, hp]
  · exact ⟨payload.allSet, validate_withDescription h, serviceUpdate_allSet payload⟩

end QuickApi.Items
