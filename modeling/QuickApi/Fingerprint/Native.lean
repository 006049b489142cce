/-
  QuickApi.Fingerprint.Native

  The validated values of a request and what `normalized` makes of them
  (`app/common/models/idempotency_model.py`).  `none` stands for a raised
  exception: bytes that are no UTF-8, or a value that `_encode` does not know.
-/

import QuickApi.Fingerprint.Canonical
import QuickApi.Lib.OrderedDict
import QuickApi.Lib.PythonText

namespace QuickApi.Fingerprint

open QuickApi.Lib

-- ============================================================================
-- Validated values
-- ============================================================================

/-- A key of a mapping. -/
inductive Key where
  | text (s : Text)
  /-- a key of any other type -/
  | other (id : Nat)
deriving DecidableEq

/-- What `model_fields` and `model_fields_set` tell of a field of a model. -/
structure ModelField where
  name : Text
  aliasName : Option Text
  isSet : Bool

/-- A value that validation has produced. -/
inductive Native where
  | null
  | bool (b : Bool)
  | number (n : Number)
  | str (s : Text)
  /-- a list or a tuple -/
  | list (items : List Native)
  | mapping (entries : List (Key × Native))
  | model (fields : List (ModelField × Native)) (extra : List (Key × Native))
  /-- `SecretStr` or `SecretBytes` -/
  | secret (value : Native)
  /-- a member of an `Enum` -/
  | enum (value : Native)
  /-- a date, a time or both, by its ISO format -/
  | temporal (isoformat : Text)
  /-- a UUID, by its text -/
  | uuid (text : Text)
  | bytes (data : Bytes)
  /-- a value of any other type -/
  | other (id : Nat)

namespace Native

def isNull : Native → Bool
  | .null => true
  | _ => false

end Native

/-- `data.decode('utf-8')` -/
def decodeUtf8 (data : Bytes) : Option Text :=
  (ByteArray.mk data.toArray).utf8Decode?.map Array.toList

-- ============================================================================
-- normalized
-- ============================================================================

/-- `field.alias or name` -/
def ModelField.key (field : ModelField) : Text :=
  match field.aliasName with
  | some text => if text = [] then field.name else text
  | none => field.name

mutual
/-- `normalized` -/
def normalized : Native → Option Native
  | .model fields extra =>
      (normalizedFields fields).bind fun fields => (normalizedEntries extra).map fun extra =>
        .mapping ((OrderedDict.ofList fields).update (OrderedDict.ofList extra).entries).entries
  | .secret value => normalized value
  | .enum value => normalized value
  | .temporal isoformat => some (.str isoformat)
  | .uuid text => some (.str text)
  | .bytes data => (decodeUtf8 data).map .str
  | .mapping entries =>
      (normalizedEntries entries).map fun entries => .mapping (OrderedDict.ofList entries).entries
  | .list items => (normalizedItems items).map .list
  | .null => some .null
  | .bool b => some (.bool b)
  | .number n => some (.number n)
  | .str s => some (.str s)
  | .other id => some (.other id)

def normalizedItems : List Native → Option (List Native)
  | [] => some []
  | v :: vs => (normalized v).bind fun w => (normalizedItems vs).map fun ws => w :: ws

def normalizedEntries : List (Key × Native) → Option (List (Key × Native))
  | [] => some []
  | (k, v) :: es => (normalized v).bind fun w => (normalizedEntries es).map fun fs => (k, w) :: fs

/-- The fields that are set or not `None`. -/
def normalizedFields : List (ModelField × Native) → Option (List (Key × Native))
  | [] => some []
  | (field, v) :: es =>
      if field.isSet || !v.isNull then
        (normalized v).bind fun w =>
          (normalizedFields es).map fun fs => (.text field.key, w) :: fs
      else normalizedFields es
end

-- ============================================================================
-- _encode
-- ============================================================================

mutual
/-- The value that `_encode` is defined on: numbers, texts, lists, and dicts whose keys are
    texts. -/
def json? : Native → Option Value
  | .null => some .null
  | .bool b => some (.bool b)
  | .number n => some (.number n)
  | .str s => some (.str s)
  | .list items => (jsonItems? items).map .list
  | .mapping entries => (jsonEntries? entries).map .dict
  | _ => none

def jsonItems? : List Native → Option (List Value)
  | [] => some []
  | v :: vs => (json? v).bind fun w => (jsonItems? vs).map fun ws => w :: ws

def jsonEntries? : List (Key × Native) → Option (List (Text × Value))
  | [] => some []
  | (.text k, v) :: es => (json? v).bind fun w => (jsonEntries? es).map fun fs => (k, w) :: fs
  | (.other _, _) :: _ => none
end

/-- The normalized value, where it is one that `_encode` is defined on. -/
def normalizedJson (v : Native) : Option Value := (normalized v).bind json?

/-- `_encode(normalized(value))` -/
def canonical (v : Native) : Option Text := (normalizedJson v).bind encode

/-- The normalized values are the same, with numbers compared exactly. -/
def SameNormalized (v v' : Native) : Prop :=
  ∃ w w', normalizedJson v = some w ∧ normalizedJson v' = some w' ∧ Value.same w w' = true

theorem normalizedEntries_eq_some_iff {es fs : List (Key × Native)} :
    normalizedEntries es = some fs ↔
      List.Forall₂ (fun e f => e.1 = f.1 ∧ normalized e.2 = some f.2) es fs := by
  induction es generalizing fs with
  | nil => simp [normalizedEntries, eq_comm]
  | cons e es ih =>
      obtain ⟨k, v⟩ := e
      simp only [normalizedEntries, Option.bind_eq_some_iff, Option.map_eq_some_iff, ih]
      constructor
      · rintro ⟨w, hw, fs, hfs, rfl⟩
        exact .cons ⟨rfl, hw⟩ hfs
      · rintro (_ | ⟨⟨hk, hw⟩, hfs⟩)
        exact ⟨_, hw, _, hfs, congrArg (· :: _) (Prod.ext hk rfl)⟩

theorem jsonEntries?_eq_some_iff {es : List (Key × Native)} {fs : List (Text × Value)} :
    jsonEntries? es = some fs ↔
      List.Forall₂ (fun e f => e.1 = .text f.1 ∧ json? e.2 = some f.2) es fs := by
  induction es generalizing fs with
  | nil => simp [jsonEntries?, eq_comm]
  | cons e es ih =>
      obtain ⟨k, v⟩ := e
      cases k with
      | text k =>
          simp only [jsonEntries?, Option.bind_eq_some_iff, Option.map_eq_some_iff, ih]
          constructor
          · rintro ⟨w, hw, fs, hfs, rfl⟩
            exact .cons ⟨rfl, hw⟩ hfs
          · rintro (_ | ⟨⟨hk, hw⟩, hfs⟩)
            exact ⟨_, hw, _, hfs, congrArg (· :: _) (Prod.ext (Key.text.inj hk) rfl)⟩
      | other id =>
          constructor
          · intro h
            cases h
          · rintro (_ | ⟨⟨hk, -⟩, -⟩)
            cases hk

-- ============================================================================
-- The keys of normalized dicts are distinct
-- ============================================================================

/-- The dicts inside the value have distinct keys. -/
def Plain (v : Native) : Prop := ∀ w, json? v = some w → w.DistinctKeys

theorem plain_list {items : List Native} (h : ∀ v ∈ items, Plain v) : Plain (.list items) := by
  intro w hitems
  obtain ⟨ws, hws, rfl⟩ := Option.map_eq_some_iff.mp hitems
  clear hitems
  rw [Value.DistinctKeys, Value.distinctKeysItems_iff]
  induction items generalizing ws with
  | nil =>
      obtain rfl := Option.some.inj hws
      simp
  | cons v vs ih =>
      obtain ⟨w, hw, hrest⟩ := Option.bind_eq_some_iff.mp hws
      obtain ⟨tail, htail, rfl⟩ := Option.map_eq_some_iff.mp hrest
      obtain ⟨hv, hvs⟩ := List.forall_mem_cons.mp h
      exact List.forall_mem_cons.mpr ⟨hv w hw, ih hvs tail htail⟩

theorem plain_mapping {d : OrderedDict Key Native} (h : ∀ e ∈ d.entries, Plain e.2) :
    Plain (.mapping d.entries) := by
  intro w hw
  obtain ⟨fs, hjson, rfl⟩ := Option.map_eq_some_iff.mp hw
  have hfs := jsonEntries?_eq_some_iff.mp hjson
  clear hw hjson
  refine ⟨?_, Value.distinctKeysEntries_iff.mpr fun f hf => ?_⟩
  · have hkeys : d.entries.map Prod.fst = (fs.map Prod.fst).map Key.text := by
      generalize d.entries = es at hfs
      induction hfs with
      | nil => rfl
      | cons he _ ih => rw [List.map_cons, List.map_cons, List.map_cons, he.1, ih]
    exact (hkeys ▸ d.nodupKeys).of_map _
  · obtain ⟨e, he, -, hvalue⟩ := exists_of_forall₂_right hfs hf
    exact h e he f.2 hvalue

mutual
theorem plain_normalized : ∀ {v w : Native}, normalized v = some w → Plain w
  | .model fields extra, w, h => by
      obtain ⟨fs, hfs, h⟩ := Option.bind_eq_some_iff.mp h
      obtain ⟨es, hes, rfl⟩ := Option.map_eq_some_iff.mp h
      refine plain_mapping fun e he => ?_
      rcases OrderedDict.mem_update he with he | he
      · exact plain_normalizedEntries hes e (OrderedDict.mem_ofList he)
      · exact plain_normalizedFields hfs e (OrderedDict.mem_ofList he)
  | .secret value, w, h => plain_normalized (v := value) h
  | .enum value, w, h => plain_normalized (v := value) h
  | .mapping entries, w, h => by
      obtain ⟨es, hes, rfl⟩ := Option.map_eq_some_iff.mp h
      exact plain_mapping fun e he => plain_normalizedEntries hes e (OrderedDict.mem_ofList he)
  | .list items, w, h => by
      obtain ⟨ws, hws, rfl⟩ := Option.map_eq_some_iff.mp h
      exact plain_list (plain_normalizedItems hws)
  | .bytes data, w, h => by
      obtain ⟨s, -, rfl⟩ := Option.map_eq_some_iff.mp h
      rintro _ ⟨⟩
      trivial
  | .temporal _, w, h | .uuid _, w, h | .null, w, h | .bool _, w, h | .number _, w, h
  | .str _, w, h => by
      obtain rfl := Option.some.inj h
      rintro _ ⟨⟩
      trivial
  | .other _, w, h => by
      obtain rfl := Option.some.inj h
      rintro _ ⟨⟩

theorem plain_normalizedItems : ∀ {vs ws : List Native}, normalizedItems vs = some ws →
    ∀ w ∈ ws, Plain w
  | [], ws, h => by
      obtain rfl := Option.some.inj h
      simp
  | v :: vs, ws, h => by
      obtain ⟨w, hw, h⟩ := Option.bind_eq_some_iff.mp h
      obtain ⟨ws, hws, rfl⟩ := Option.map_eq_some_iff.mp h
      exact List.forall_mem_cons.mpr ⟨plain_normalized hw, plain_normalizedItems hws⟩

theorem plain_normalizedEntries : ∀ {es fs : List (Key × Native)}, normalizedEntries es = some fs →
    ∀ f ∈ fs, Plain f.2
  | [], fs, h => by
      obtain rfl := Option.some.inj h
      simp
  | (k, v) :: es, fs, h => by
      obtain ⟨w, hw, h⟩ := Option.bind_eq_some_iff.mp h
      obtain ⟨fs, hfs, rfl⟩ := Option.map_eq_some_iff.mp h
      exact List.forall_mem_cons.mpr ⟨plain_normalized hw, plain_normalizedEntries hfs⟩

theorem plain_normalizedFields : ∀ {es : List (ModelField × Native)} {fs : List (Key × Native)},
    normalizedFields es = some fs → ∀ f ∈ fs, Plain f.2
  | [], fs, h => by
      obtain rfl := Option.some.inj h
      simp
  | (field, v) :: es, fs, h => by
      rw [normalizedFields] at h
      split at h
      · obtain ⟨w, hw, h⟩ := Option.bind_eq_some_iff.mp h
        obtain ⟨fs, hfs, rfl⟩ := Option.map_eq_some_iff.mp h
        exact List.forall_mem_cons.mpr ⟨plain_normalized hw, plain_normalizedFields hfs⟩
      · exact plain_normalizedFields h
end

-- ============================================================================
-- Equal canonical texts
-- ============================================================================

theorem distinctKeys_normalizedJson {v : Native} {w : Value} (h : normalizedJson v = some w) :
    w.DistinctKeys := by
  obtain ⟨n, hn, hw⟩ := Option.bind_eq_some_iff.mp h
  exact plain_normalized hn w hw

/-- Values with one canonical text are the same when they are normalized. -/
theorem sameNormalized_of_canonical {v v' : Native} {text : Text} (h : canonical v = some text)
    (h' : canonical v' = some text) : SameNormalized v v' := by
  obtain ⟨w, hw, htext⟩ := Option.bind_eq_some_iff.mp h
  obtain ⟨w', hw', htext'⟩ := Option.bind_eq_some_iff.mp h'
  have hsame := encode_readable w w' text text [] [] (distinctKeys_normalizedJson hw') htext htext'
    (startsIn_nil _) (startsIn_nil _) rfl
  exact ⟨w, w', hw, hw', hsame.1⟩

/-- The entries of a normalized mapping, where its keys are distinct. -/
theorem normalizedJson_mapping {es : List (Key × Native)} {w : Value}
    (hkeys : (es.map Prod.fst).Nodup) (h : normalizedJson (.mapping es) = some w) :
    ∃ fs, w = .dict fs ∧
      List.Forall₂ (fun e f => e.1 = .text f.1 ∧ normalizedJson e.2 = some f.2) es fs := by
  obtain ⟨n, hn, hw⟩ := Option.bind_eq_some_iff.mp h
  obtain ⟨ns, hnormalized, rfl⟩ := Option.map_eq_some_iff.mp hn
  have hns := normalizedEntries_eq_some_iff.mp hnormalized
  have hsame : ns.map Prod.fst = es.map Prod.fst := by
    clear hn hw h hkeys hnormalized
    induction hns with
    | nil => rfl
    | cons he _ ih => rw [List.map_cons, List.map_cons, he.1, ih]
  rw [OrderedDict.ofList_entries_of_nodup (hsame ▸ hkeys)] at hw
  obtain ⟨fs, hjson, rfl⟩ := Option.map_eq_some_iff.mp hw
  refine ⟨fs, rfl, ?_⟩
  have hfs := jsonEntries?_eq_some_iff.mp hjson
  clear hn hw h hkeys hsame hnormalized hjson
  induction hns generalizing fs with
  | nil =>
      cases hfs
      exact .nil
  | cons he _ ih =>
      rcases hfs with _ | ⟨hf, hfs⟩
      refine .cons ⟨he.1.trans hf.1, ?_⟩ (ih _ hfs)
      exact Option.bind_eq_some_iff.mpr ⟨_, he.2, hf.2⟩

/-- Mappings that are the same when they are normalized have entries that are. -/
theorem SameNormalized.entry {es es' : List (Key × Native)} (hkeys : (es.map Prod.fst).Nodup)
    (hkeys' : (es'.map Prod.fst).Nodup) (h : SameNormalized (.mapping es) (.mapping es')) {k : Key}
    {v v' : Native} (hmem : (k, v) ∈ es) (hmem' : (k, v') ∈ es') : SameNormalized v v' := by
  obtain ⟨w, w', hw, hw', hsame⟩ := h
  have hdistinct := distinctKeys_normalizedJson hw'
  obtain ⟨fs, rfl, hfs⟩ := normalizedJson_mapping hkeys hw
  obtain ⟨fs', rfl, hfs'⟩ := normalizedJson_mapping hkeys' hw'
  obtain ⟨⟨key, j⟩, hj, hkey, hvalue⟩ := exists_of_forall₂_left hfs hmem
  obtain ⟨⟨key', j'⟩, hj', hkey', hvalue'⟩ := exists_of_forall₂_left hfs' hmem'
  obtain rfl : key = key' := Key.text.inj (hkey.symm.trans hkey')
  rw [Value.same, Bool.and_eq_true, Value.sameEntries_iff] at hsame
  obtain ⟨other, hother, hsame⟩ := hsame.2 _ hj
  have hlookup : fs'.lookup key = some j' := lookup_of_mem hdistinct.1 hj'
  obtain rfl : other = j' := Option.some.inj (hother.symm.trans hlookup)
  exact ⟨j, other, hvalue, hvalue', hsame⟩

end QuickApi.Fingerprint
