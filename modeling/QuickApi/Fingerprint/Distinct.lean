/-
  QuickApi.Fingerprint.Distinct

  How far `normalized` keeps the instances of a model class apart.  Declared
  fields and extra keys share the keys of one dict, and a later entry replaces
  an earlier one: an instance can be read off the dict exactly if no two fields
  have one key and no extra key is the key of a field.
-/

import QuickApi.Fingerprint.Native

namespace QuickApi.Fingerprint

open QuickApi.Lib

-- ============================================================================
-- Equality of normalized values
-- ============================================================================

section

variable (scalarEq : Native → Native → Prop)

mutual
/-- `==` on normalized values: dicts by their keys, lists element by element, and all else as
    `scalarEq` has it. -/
def Equal : Native → Native → Prop
  | .mapping es, .mapping fs =>
      EqualEntries es fs ∧ ∀ k ∈ fs.map Prod.fst, k ∈ es.map Prod.fst
  | .list xs, .list ys => EqualItems xs ys
  | .mapping _, _ => False
  | .list _, _ => False
  | v, w => scalarEq v w

def EqualItems : List Native → List Native → Prop
  | [], [] => True
  | x :: xs, y :: ys => Equal x y ∧ EqualItems xs ys
  | _, _ => False

/-- Every key of the first dict has an equal value in the second. -/
def EqualEntries : List (Key × Native) → List (Key × Native) → Prop
  | [], _ => True
  | (k, v) :: es, fs => (∃ w, fs.lookup k = some w ∧ Equal v w) ∧ EqualEntries es fs
end

/-- Both values are normalized, with equal results. -/
def EqualNormalized (v v' : Native) : Prop :=
  ∃ w w', normalized v = some w ∧ normalized v' = some w' ∧ Equal scalarEq w w'

theorem equalEntries_iff {es fs : List (Key × Native)} :
    EqualEntries scalarEq es fs ↔
      ∀ e ∈ es, ∃ w, fs.lookup e.1 = some w ∧ Equal scalarEq e.2 w := by
  induction es with
  | nil => simp [EqualEntries]
  | cons e es ih =>
      obtain ⟨k, v⟩ := e
      rw [EqualEntries, ih, List.forall_mem_cons]

/-- Dicts are equal if they have the same keys, with equal values. -/
theorem equal_mapping_iff {d d' : OrderedDict Key Native} :
    Equal scalarEq (.mapping d.entries) (.mapping d'.entries) ↔
      (∀ k, k ∈ d.keys ↔ k ∈ d'.keys) ∧
        ∀ k v w, (k, v) ∈ d.entries → (k, w) ∈ d'.entries → Equal scalarEq v w := by
  rw [Equal, equalEntries_iff]
  constructor
  · rintro ⟨hvalues, hkeys⟩
    refine ⟨fun k => ⟨fun hk => ?_, fun hk => hkeys k hk⟩, fun k v w hv hw => ?_⟩
    · obtain ⟨e, he, rfl⟩ := List.mem_map.mp hk
      obtain ⟨w, hw, -⟩ := hvalues e he
      exact List.mem_map.mpr ⟨(e.1, w), OrderedDict.get?_eq_some_iff.mp hw, rfl⟩
    · obtain ⟨w', hw', hequal⟩ := hvalues (k, v) hv
      have hlookup : d'.entries.lookup k = some w := OrderedDict.get?_eq_some_iff.mpr hw
      obtain rfl : w' = w := Option.some.inj (hw'.symm.trans hlookup)
      exact hequal
  · rintro ⟨hkeys, hvalues⟩
    refine ⟨fun e he => ?_, fun k hk => (hkeys k).mpr hk⟩
    obtain ⟨e', he', hkey⟩ := List.mem_map.mp ((hkeys e.1).mp (List.mem_map_of_mem he))
    have hmem : (e.1, e'.2) ∈ d'.entries := hkey ▸ he'
    exact ⟨e'.2, OrderedDict.get?_eq_some_iff.mpr hmem, hvalues e.1 e.2 e'.2 he hmem⟩

end

-- ============================================================================
-- Model classes and their instances
-- ============================================================================

/-- `name in value.model_fields_set or getattr(value, name) is not None` -/
def present (f : ModelField × Native) : Bool := f.1.isSet || !f.2.isNull

/-- A class of models: the names and aliases of its fields, and the keys that validation can
    leave in `model_extra` because they populate no field. -/
structure ModelClass where
  fields : List (Text × Option Text)
  names : (fields.map Prod.fst).Nodup
  extraKey : Key → Prop

/-- `field.alias or name` -/
def outputKey (field : Text × Option Text) : Key := .text (ModelField.key ⟨field.1, field.2, true⟩)

/-- No two fields have one key, and no extra key is the key of a field. -/
structure ModelClass.KeysApart (C : ModelClass) : Prop where
  fields : (C.fields.map outputKey).Nodup
  extra : ∀ field ∈ C.fields, ¬ C.extraKey (outputKey field)

/-- An instance that validation produces; the fields are those of the class, in its order. -/
structure Instance (C : ModelClass) where
  fields : List (ModelField × Native)
  extra : OrderedDict Key Native
  declared : fields.map (fun f => (f.1.name, f.1.aliasName)) = C.fields
  extraKeys : ∀ k ∈ extra.keys, C.extraKey k

namespace Instance

variable {C : ModelClass} (scalarEq : Native → Native → Prop)

def native (i : Instance C) : Native := .model i.fields i.extra.entries

/-- The instances agree field by field on the presence of the field and on its normalized value,
    and on the extra keys. -/
structure Agree (i j : Instance C) : Prop where
  presence : ∀ f ∈ i.fields, ∀ g ∈ j.fields, f.1.name = g.1.name → present f = present g
  values : ∀ f ∈ i.fields, ∀ g ∈ j.fields, f.1.name = g.1.name → present f = true →
    EqualNormalized scalarEq f.2 g.2
  extraKeys : ∀ k, k ∈ i.extra.keys ↔ k ∈ j.extra.keys
  extraValues : ∀ k v w, (k, v) ∈ i.extra.entries → (k, w) ∈ j.extra.entries →
    EqualNormalized scalarEq v w

end Instance

-- ============================================================================
-- The normalized dict
-- ============================================================================

theorem normalizedFields_cons (e : ModelField × Native) (es : List (ModelField × Native)) :
    normalizedFields (e :: es) =
      if present e = true then
        (normalized e.2).bind fun w =>
          (normalizedFields es).map fun fs => (.text e.1.key, w) :: fs
      else normalizedFields es := rfl

theorem normalizedFields_eq_some_iff {es : List (ModelField × Native)}
    {fs : List (Key × Native)} :
    normalizedFields es = some fs ↔
      List.Forall₂ (fun e f => Key.text e.1.key = f.1 ∧ normalized e.2 = some f.2)
        (es.filter present) fs := by
  induction es generalizing fs with
  | nil => simp [normalizedFields, eq_comm]
  | cons e es ih =>
      rw [normalizedFields_cons]
      by_cases hpresent : present e = true
      · rw [if_pos hpresent, List.filter_cons_of_pos hpresent]
        simp only [Option.bind_eq_some_iff, Option.map_eq_some_iff, ih]
        constructor
        · rintro ⟨w, hw, fs, hfs, rfl⟩
          exact .cons ⟨rfl, hw⟩ hfs
        · rintro (_ | ⟨⟨hk, hw⟩, hfs⟩)
          exact ⟨_, hw, _, hfs, congrArg (· :: _) (Prod.ext hk rfl)⟩
      · rw [if_neg hpresent, List.filter_cons_of_neg hpresent, ih]

/-- Entries made one by one have the keys they were made with. -/
theorem keys_of_forall₂ {α : Type} {key : α → Key} {value : α → Native} {es : List α}
    {fs : List (Key × Native)}
    (h : List.Forall₂ (fun e f => key e = f.1 ∧ normalized (value e) = some f.2) es fs) :
    fs.map Prod.fst = es.map key := by
  induction h with
  | nil => rfl
  | cons hhead _ ih => rw [List.map_cons, List.map_cons, ih, hhead.1]

theorem exists_normalizedFields {es : List (ModelField × Native)}
    (h : ∀ e ∈ es, present e = true → ∃ w, normalized e.2 = some w) :
    ∃ fs, normalizedFields es = some fs := by
  induction es with
  | nil => exact ⟨[], rfl⟩
  | cons e es ih =>
      obtain ⟨fs, hfs⟩ := ih fun e' he' => h e' (List.mem_cons_of_mem _ he')
      rw [normalizedFields_cons]
      by_cases hpresent : present e = true
      · obtain ⟨w, hw⟩ := h e List.mem_cons_self hpresent
        refine ⟨(.text e.1.key, w) :: fs, ?_⟩
        rw [if_pos hpresent, hw, hfs]
        rfl
      · exact ⟨fs, by rw [if_neg hpresent, hfs]⟩

theorem exists_normalizedEntries {es : List (Key × Native)}
    (h : ∀ e ∈ es, ∃ w, normalized e.2 = some w) : ∃ fs, normalizedEntries es = some fs := by
  induction es with
  | nil => exact ⟨[], rfl⟩
  | cons e es ih =>
      obtain ⟨fs, hfs⟩ := ih fun e' he' => h e' (List.mem_cons_of_mem _ he')
      obtain ⟨k, v⟩ := e
      obtain ⟨w, hw⟩ := h _ List.mem_cons_self
      refine ⟨(k, w) :: fs, ?_⟩
      rw [normalizedEntries, show normalized v = some w from hw, hfs]
      rfl

namespace Instance

variable {C : ModelClass} (scalarEq : Native → Native → Prop)

theorem declared_mem {i : Instance C} {f : ModelField × Native} (hf : f ∈ i.fields) :
    (f.1.name, f.1.aliasName) ∈ C.fields :=
  i.declared ▸ List.mem_map_of_mem hf

/-- Fields of one name are one field of the class. -/
theorem key_eq_of_name {i j : Instance C} {f g : ModelField × Native} (hf : f ∈ i.fields)
    (hg : g ∈ j.fields) (hname : f.1.name = g.1.name) : f.1.key = g.1.key := by
  have hdeclared := List.inj_on_of_nodup_map C.names (declared_mem hf) (declared_mem hg) hname
  exact Key.text.inj (congrArg outputKey hdeclared)

theorem name_eq_of_key (h : C.KeysApart) {i j : Instance C} {f g : ModelField × Native}
    (hf : f ∈ i.fields) (hg : g ∈ j.fields) (hkey : f.1.key = g.1.key) :
    f.1.name = g.1.name := by
  have hdeclared := List.inj_on_of_nodup_map h.fields (declared_mem hf) (declared_mem hg)
    (congrArg Key.text hkey)
  exact congrArg Prod.fst hdeclared

/-- Every field of one instance is a field of the other. -/
theorem exists_of_name {i : Instance C} (j : Instance C) {f : ModelField × Native}
    (hf : f ∈ i.fields) : ∃ g ∈ j.fields, f.1.name = g.1.name := by
  have hmem := declared_mem hf
  rw [← j.declared] at hmem
  obtain ⟨g, hg, heq⟩ := List.mem_map.mp hmem
  exact ⟨g, hg, (congrArg Prod.fst heq).symm⟩

theorem field_eq_of_key (h : C.KeysApart) {i : Instance C} {f g : ModelField × Native}
    (hf : f ∈ i.fields) (hg : g ∈ i.fields) (hkey : f.1.key = g.1.key) : f = g := by
  have hnodup : (i.fields.map fun f => Key.text f.1.key).Nodup := by
    have hkeys := h.fields
    rw [← i.declared, List.map_map] at hkeys
    exact hkeys
  exact List.inj_on_of_nodup_map hnodup hf hg (congrArg Key.text hkey)

/-- The dict of an instance has an entry for each present field and for each extra key. -/
structure Result (i : Instance C) (d : OrderedDict Key Native) : Prop where
  field : ∀ f ∈ i.fields, present f = true →
    ∃ w, normalized f.2 = some w ∧ (.text f.1.key, w) ∈ d.entries
  extra : ∀ e ∈ i.extra.entries, ∃ w, normalized e.2 = some w ∧ (e.1, w) ∈ d.entries
  entry : ∀ e ∈ d.entries,
    (∃ f ∈ i.fields, present f = true ∧ e.1 = .text f.1.key ∧ normalized f.2 = some e.2) ∨
    ∃ v, (e.1, v) ∈ i.extra.entries ∧ normalized v = some e.2

theorem exists_result (h : C.KeysApart) {i : Instance C} {w : Native}
    (hw : normalized i.native = some w) :
    ∃ d : OrderedDict Key Native, w = .mapping d.entries ∧ Result i d := by
  rw [native, normalized] at hw
  obtain ⟨fs, hfs, hw⟩ := Option.bind_eq_some_iff.mp hw
  obtain ⟨es, hes, rfl⟩ := Option.map_eq_some_iff.mp hw
  have hfields := normalizedFields_eq_some_iff.mp hfs
  have hextra := normalizedEntries_eq_some_iff.mp hes
  have hfkeys : fs.map Prod.fst =
      (i.fields.filter present).map fun f => Key.text f.1.key := keys_of_forall₂ hfields
  have hekeys : es.map Prod.fst = i.extra.keys := keys_of_forall₂ hextra
  -- the keys of the fields are apart, and apart from the extra keys
  have hfnodup : (fs.map Prod.fst).Nodup := by
    have hkeys := h.fields
    rw [← i.declared, List.map_map] at hkeys
    rw [hfkeys]
    exact hkeys.sublist (List.filter_sublist.map _)
  have hdisjoint : ∀ k ∈ fs.map Prod.fst, k ∉ es.map Prod.fst := by
    intro k hk hk'
    rw [hfkeys] at hk
    obtain ⟨f, hf, rfl⟩ := List.mem_map.mp hk
    rw [hekeys] at hk'
    exact h.extra _ (declared_mem (List.mem_filter.mp hf).1) (i.extraKeys _ hk')
  have henodup : (es.map Prod.fst).Nodup := hekeys ▸ i.extra.nodupKeys
  have hfentries := OrderedDict.ofList_entries_of_nodup hfnodup
  have heentries := OrderedDict.ofList_entries_of_nodup henodup
  have hunion : ((OrderedDict.ofList fs).update (OrderedDict.ofList es).entries).entries =
      fs ++ es := by
    rw [heentries, OrderedDict.update_entries_of_nodup, hfentries]
    rw [OrderedDict.keys, hfentries]
    exact List.nodup_append.mpr ⟨hfnodup, henodup, fun k hk k' hk' heq =>
      hdisjoint k hk (heq ▸ hk')⟩
  refine ⟨_, rfl, ?_, ?_, ?_⟩
  · intro f hf hpresent
    obtain ⟨e, he, hkey, hvalue⟩ :=
      exists_of_forall₂_left hfields (List.mem_filter.mpr ⟨hf, hpresent⟩)
    refine ⟨e.2, hvalue, ?_⟩
    rw [hunion, hkey]
    exact List.mem_append_left _ he
  · intro e he
    obtain ⟨e', he', hkey, hvalue⟩ := exists_of_forall₂_left hextra he
    refine ⟨e'.2, hvalue, ?_⟩
    rw [hunion, hkey]
    exact List.mem_append_right _ he'
  · intro e he
    rw [hunion, List.mem_append] at he
    obtain he | he := he
    · obtain ⟨f, hf, hkey, hvalue⟩ := exists_of_forall₂_right hfields he
      obtain ⟨hf, hpresent⟩ := List.mem_filter.mp hf
      exact .inl ⟨f, hf, hpresent, hkey.symm, hvalue⟩
    · obtain ⟨e', he', hkey, hvalue⟩ := exists_of_forall₂_right hextra he
      exact .inr ⟨e'.2, hkey ▸ he', hvalue⟩

variable {scalarEq} {i j : Instance C} {d d' : OrderedDict Key Native}

theorem mem_keys_of_entry {k : Key} {w : Native} (h : (k, w) ∈ d.entries) : k ∈ d.keys :=
  List.mem_map.mpr ⟨(k, w), h, rfl⟩

/-- The key of a field is not left over. -/
theorem not_extraKey (hC : C.KeysApart) {f : ModelField × Native} (hf : f ∈ i.fields) {k : Key}
    (hk : k = .text f.1.key) : ¬ C.extraKey k := by
  rw [hk]
  exact hC.extra _ (declared_mem hf)

/-- A field of the class is a key of the dict if and only if it is present. -/
theorem Result.field_mem_iff (hC : C.KeysApart) (h : Result i d) {f : ModelField × Native}
    (hf : f ∈ i.fields) : .text f.1.key ∈ d.keys ↔ present f = true := by
  constructor
  · intro hmem
    obtain ⟨e, he, hkey⟩ := List.mem_map.mp hmem
    obtain ⟨g, hg, hpresent, hgkey, -⟩ | ⟨v, hv, -⟩ := h.entry e he
    · rw [field_eq_of_key hC hf hg (Key.text.inj (hkey.symm.trans hgkey))]
      exact hpresent
    · exact absurd (i.extraKeys _ (mem_keys_of_entry hv)) (not_extraKey hC hf hkey)
  · intro hpresent
    obtain ⟨w, -, hmem⟩ := h.field f hf hpresent
    exact mem_keys_of_entry hmem

/-- A key that validation leaves over is a key of the dict if and only if it is there. -/
theorem Result.extra_mem_iff (hC : C.KeysApart) (h : Result i d) {k : Key}
    (hk : C.extraKey k) : k ∈ d.keys ↔ k ∈ i.extra.keys := by
  constructor
  · intro hmem
    obtain ⟨e, he, rfl⟩ := List.mem_map.mp hmem
    obtain ⟨g, hg, -, hgkey, -⟩ | ⟨v, hv, -⟩ := h.entry e he
    · exact absurd hk (not_extraKey hC hg hgkey)
    · exact mem_keys_of_entry hv
  · intro hmem
    obtain ⟨e, he, rfl⟩ := List.mem_map.mp hmem
    obtain ⟨w, -, hw⟩ := h.extra e he
    exact mem_keys_of_entry hw

/-- The keys of one dict are keys of the other, where presence and extra keys agree. -/
theorem Result.keys_subset (h : Result i d) (h' : Result j d')
    (hpresence : ∀ f ∈ i.fields, ∀ g ∈ j.fields, f.1.name = g.1.name → present f = present g)
    (hextra : ∀ k ∈ i.extra.keys, k ∈ j.extra.keys) {k : Key} (hk : k ∈ d.keys) :
    k ∈ d'.keys := by
  obtain ⟨e, he, rfl⟩ := List.mem_map.mp hk
  obtain ⟨f, hf, hpresent, hfkey, -⟩ | ⟨v, hv, -⟩ := h.entry e he
  · obtain ⟨g, hg, hname⟩ := exists_of_name j hf
    have hgpresent : present g = true := by rw [← hpresence f hf g hg hname, hpresent]
    obtain ⟨w, -, hw⟩ := h'.field g hg hgpresent
    rw [hfkey, key_eq_of_name hf hg hname]
    exact mem_keys_of_entry hw
  · have hmem : e.1 ∈ j.extra.keys := hextra e.1 (mem_keys_of_entry hv)
    obtain ⟨e', he', hkey⟩ := List.mem_map.mp hmem
    obtain ⟨w, -, hw⟩ := h'.extra e' he'
    exact hkey ▸ mem_keys_of_entry hw

theorem agree_of_equal (hC : C.KeysApart) (h : EqualNormalized scalarEq i.native j.native) :
    Agree scalarEq i j := by
  obtain ⟨w, w', hw, hw', hequal⟩ := h
  obtain ⟨d, rfl, hd⟩ := exists_result hC hw
  obtain ⟨d', rfl, hd'⟩ := exists_result hC hw'
  obtain ⟨hkeys, hvalues⟩ := (equal_mapping_iff scalarEq).mp hequal
  have hpresence : ∀ f ∈ i.fields, ∀ g ∈ j.fields, f.1.name = g.1.name →
      present f = present g := by
    intro f hf g hg hname
    rw [Bool.eq_iff_iff, ← hd.field_mem_iff hC hf, hkeys, key_eq_of_name hf hg hname,
      hd'.field_mem_iff hC hg]
  refine ⟨hpresence, fun f hf g hg hname hpresent => ?_, fun k => ⟨fun hk => ?_, fun hk => ?_⟩,
    fun k v w hv hw => ?_⟩
  · obtain ⟨v, hv, hmem⟩ := hd.field f hf hpresent
    obtain ⟨w, hw, hmem'⟩ := hd'.field g hg (hpresence f hf g hg hname ▸ hpresent)
    rw [key_eq_of_name hf hg hname] at hmem
    exact ⟨v, w, hv, hw, hvalues _ v w hmem hmem'⟩
  · have hextra := i.extraKeys k hk
    exact (hd'.extra_mem_iff hC hextra).mp ((hkeys k).mp ((hd.extra_mem_iff hC hextra).mpr hk))
  · have hextra := j.extraKeys k hk
    exact (hd.extra_mem_iff hC hextra).mp ((hkeys k).mpr ((hd'.extra_mem_iff hC hextra).mpr hk))
  · obtain ⟨v', hv', hmem⟩ := hd.extra _ hv
    obtain ⟨w', hw', hmem'⟩ := hd'.extra _ hw
    exact ⟨v', w', hv', hw', hvalues k v' w' hmem hmem'⟩

/-- An instance is normalized if its present fields and its extra values are. -/
theorem exists_normalized
    (hfields : ∀ f ∈ i.fields, present f = true → ∃ w, normalized f.2 = some w)
    (hextra : ∀ e ∈ i.extra.entries, ∃ w, normalized e.2 = some w) :
    ∃ w, normalized i.native = some w := by
  obtain ⟨fs, hfs⟩ := exists_normalizedFields hfields
  obtain ⟨es, hes⟩ := exists_normalizedEntries hextra
  exact ⟨_, by rw [native, normalized, hfs, Option.bind_some, hes]; rfl⟩

theorem equal_of_agree (hC : C.KeysApart) (h : Agree scalarEq i j) :
    EqualNormalized scalarEq i.native j.native := by
  obtain ⟨w, hw⟩ : ∃ w, normalized i.native = some w := by
    refine exists_normalized (fun f hf hpresent => ?_) fun e he => ?_
    · obtain ⟨g, hg, hname⟩ := exists_of_name j hf
      obtain ⟨v, -, hv, -, -⟩ := h.values f hf g hg hname hpresent
      exact ⟨v, hv⟩
    · obtain ⟨e', he', hkey⟩ := List.mem_map.mp ((h.extraKeys e.1).mp (List.mem_map_of_mem he))
      obtain ⟨v, -, hv, -, -⟩ := h.extraValues e.1 e.2 e'.2 he (hkey ▸ he')
      exact ⟨v, hv⟩
  obtain ⟨w', hw'⟩ : ∃ w', normalized j.native = some w' := by
    refine exists_normalized (fun g hg hpresent => ?_) fun e he => ?_
    · obtain ⟨f, hf, hname⟩ := exists_of_name i hg
      have hfpresent : present f = true := by rw [h.presence f hf g hg hname.symm, hpresent]
      obtain ⟨-, v, -, hv, -⟩ := h.values f hf g hg hname.symm hfpresent
      exact ⟨v, hv⟩
    · obtain ⟨e', he', hkey⟩ :=
        List.mem_map.mp ((h.extraKeys e.1).mpr (List.mem_map_of_mem he))
      obtain ⟨-, v, -, hv, -⟩ := h.extraValues e.1 e'.2 e.2 (hkey ▸ he') he
      exact ⟨v, hv⟩
  obtain ⟨d, rfl, hd⟩ := exists_result hC hw
  obtain ⟨d', rfl, hd'⟩ := exists_result hC hw'
  refine ⟨_, _, hw, hw', (equal_mapping_iff scalarEq).mpr ⟨fun k => ⟨fun hk => ?_, fun hk => ?_⟩,
    fun k v w hv hw => ?_⟩⟩
  · exact hd.keys_subset hd' h.presence (fun k hk => (h.extraKeys k).mp hk) hk
  · exact hd'.keys_subset hd (fun g hg f hf hname => (h.presence f hf g hg hname.symm).symm)
      (fun k hk => (h.extraKeys k).mpr hk) hk
  · obtain ⟨f, hf, hpresent, hfkey, hfv⟩ | ⟨v', hv', hvalue⟩ := hd.entry _ hv
    · obtain ⟨g, hg, -, hgkey, hgw⟩ | ⟨w', hw', -⟩ := hd'.entry _ hw
      · have hname := name_eq_of_key hC hf hg (Key.text.inj (hfkey.symm.trans hgkey))
        obtain ⟨v', w', hv', hw', hequal⟩ := h.values f hf g hg hname hpresent
        obtain rfl : v' = v := Option.some.inj (hv'.symm.trans hfv)
        obtain rfl : w' = w := Option.some.inj (hw'.symm.trans hgw)
        exact hequal
      · exact absurd (j.extraKeys k (mem_keys_of_entry hw')) (not_extraKey hC hf hfkey)
    · obtain ⟨g, hg, -, hgkey, -⟩ | ⟨w', hw', hvalue'⟩ := hd'.entry _ hw
      · exact absurd (i.extraKeys k (mem_keys_of_entry hv')) (not_extraKey hC hg hgkey)
      · obtain ⟨v'', w'', hv'', hw'', hequal⟩ := h.extraValues k v' w' hv' hw'
        obtain rfl : v'' = v := Option.some.inj (hv''.symm.trans hvalue)
        obtain rfl : w'' = w := Option.some.inj (hw''.symm.trans hvalue')
        exact hequal

-- ============================================================================
-- Hidden fields
-- ============================================================================

theorem filter_eq_of_sublist {l sub : List (Text × Option Text)}
    (hnames : (l.map Prod.fst).Nodup) (h : sub.Sublist l) :
    (l.filter fun f => decide (f.1 ∈ sub.map Prod.fst)) = sub := by
  induction h with
  | slnil => rfl
  | @cons sub l a hsub ih =>
      obtain ⟨hnew, hnames⟩ := List.nodup_cons.mp hnames
      have ha : a.1 ∉ sub.map Prod.fst := fun hmem => hnew ((hsub.map _).subset hmem)
      rw [List.filter_cons_of_neg (by simpa using ha)]
      exact ih hnames
  | @cons_cons sub l a hsub ih =>
      obtain ⟨hnew, hnames⟩ := List.nodup_cons.mp hnames
      rw [List.filter_cons_of_pos (by simp)]
      have hrest : (l.filter fun f => decide (f.1 ∈ (a :: sub).map Prod.fst)) =
          l.filter fun f => decide (f.1 ∈ sub.map Prod.fst) := by
        refine List.filter_congr fun f hf => ?_
        have hne : f.1 ≠ a.1 := fun heq => hnew (heq ▸ List.mem_map_of_mem hf)
        simp [hne]
      rw [hrest, ih hnames]

/-- The instance in which exactly the fields of `sub` are set. -/
def build (C : ModelClass) (sub : List (Text × Option Text)) (value : Text → Native)
    (extra : OrderedDict Key Native) (hextra : ∀ k ∈ extra.keys, C.extraKey k) : Instance C where
  fields := C.fields.map fun f => (⟨f.1, f.2, decide (f.1 ∈ sub.map Prod.fst)⟩,
    if f.1 ∈ sub.map Prod.fst then value f.1 else .null)
  extra := extra
  declared := by
    rw [List.map_map]
    exact List.map_id C.fields
  extraKeys := hextra

theorem mem_build {sub : List (Text × Option Text)} (value : Text → Native)
    {extra : OrderedDict Key Native} (hextra : ∀ k ∈ extra.keys, C.extraKey k)
    (hsub : sub.Sublist C.fields) {f : Text × Option Text} (hf : f ∈ sub) :
    (⟨f.1, f.2, true⟩, value f.1) ∈ (build C sub value extra hextra).fields := by
  refine List.mem_map.mpr ⟨f, hsub.subset hf, ?_⟩
  have hmem : f.1 ∈ sub.map Prod.fst := List.mem_map_of_mem hf
  simp only [hmem, decide_true, if_true]

theorem normalizedFields_build {sub : List (Text × Option Text)} {value : Text → Native}
    {extra : OrderedDict Key Native} {hextra : ∀ k ∈ extra.keys, C.extraKey k}
    (hsub : sub.Sublist C.fields)
    (hvalue : ∀ name, normalized (value name) = some (value name)) :
    normalizedFields (build C sub value extra hextra).fields =
      some (sub.map fun f => (outputKey f, value f.1)) := by
  have hfilter : (build C sub value extra hextra).fields.filter present =
      sub.map fun f => (⟨f.1, f.2, true⟩, value f.1) := by
    rw [build, List.filter_map]
    have hpresent : (C.fields.filter (present ∘ fun f : Text × Option Text =>
        ((⟨f.1, f.2, decide (f.1 ∈ sub.map Prod.fst)⟩ : ModelField),
          if f.1 ∈ sub.map Prod.fst then value f.1 else .null))) = sub := by
      conv_rhs => rw [← filter_eq_of_sublist C.names hsub]
      refine List.filter_congr fun f _ => ?_
      by_cases hmem : f.1 ∈ sub.map Prod.fst
      · simp only [Function.comp, present, hmem, decide_true, Bool.true_or]
      · simp only [Function.comp, present, hmem, if_false, decide_false, Native.isNull,
          Bool.not_true, Bool.or_self]
    rw [hpresent]
    refine List.map_congr_left fun f hf => ?_
    have hmem : f.1 ∈ sub.map Prod.fst := List.mem_map_of_mem hf
    simp only [hmem, decide_true, if_true]
  rw [normalizedFields_eq_some_iff, hfilter, List.forall₂_map_left_iff, List.forall₂_map_right_iff]
  exact List.forall₂_same.mpr fun f _ => ⟨rfl, hvalue f.1⟩

/-- `[]`, and one field with a value of its own -/
def only (name : Text) (v : Native) (other : Text) : Native :=
  if other = name then v else .list []

theorem normalized_only {name : Text} {v : Native} (hv : normalized v = some v) (other : Text) :
    normalized (only name v other) = some (only name v other) := by
  unfold only
  split
  · exact hv
  · rfl

/-- Two instances with one normalized dict, and with `[]` and `[[]]` for a field. -/
theorem not_iff_of_hidden {f : Text × Option Text} {i j : Instance C} {k : Key}
    (hi : normalized i.native = some (.mapping [(k, .list [])]))
    (hj : normalized j.native = some (.mapping [(k, .list [])]))
    (hfi : (⟨f.1, f.2, true⟩, .list []) ∈ i.fields)
    (hfj : (⟨f.1, f.2, true⟩, .list [.list []]) ∈ j.fields) :
    ¬ (EqualNormalized scalarEq i.native j.native ↔ Agree scalarEq i j) := by
  intro hiff
  have hequal : EqualNormalized scalarEq i.native j.native := by
    refine ⟨_, _, hi, hj, ?_⟩
    rw [Equal, equalEntries_iff]
    refine ⟨fun e he => ⟨.list [], ?_, ?_⟩, fun k hk => hk⟩
    · obtain rfl := List.mem_singleton.mp he
      simp
    · obtain rfl := List.mem_singleton.mp he
      simp [Equal, EqualItems]
  obtain ⟨w, w', hw, hw', hlists⟩ := (hiff.mp hequal).values _ hfi _ hfj rfl rfl
  obtain rfl := Option.some.inj hw
  obtain rfl := Option.some.inj hw'
  simp [Equal, EqualItems] at hlists

theorem normalized_build {sub : List (Text × Option Text)} {value : Text → Native}
    {extra : OrderedDict Key Native} {hextra : ∀ k ∈ extra.keys, C.extraKey k}
    (hsub : sub.Sublist C.fields)
    (hvalue : ∀ name, normalized (value name) = some (value name))
    {es : List (Key × Native)} (hes : normalizedEntries extra.entries = some es) :
    normalized (build C sub value extra hextra).native =
      some (.mapping ((OrderedDict.ofList (sub.map fun f => (outputKey f, value f.1))).update
        (OrderedDict.ofList es).entries).entries) := by
  have hextra' : (build C sub value extra hextra).extra.entries = extra.entries := rfl
  rw [native, normalized, normalizedFields_build hsub hvalue, Option.bind_some, hextra', hes]
  rfl

/-- An extra key replaces the field that has it. -/
theorem exists_hidden_of_extra {f : Text × Option Text} (hf : f ∈ C.fields)
    (hk : C.extraKey (outputKey f)) :
    ∃ i j : Instance C, ¬ (EqualNormalized scalarEq i.native j.native ↔ Agree scalarEq i j) := by
  have hsub : [f].Sublist C.fields := List.singleton_sublist.mpr hf
  have hextra : ∀ k ∈ (OrderedDict.ofList [(outputKey f, Native.list [])]).keys,
      C.extraKey k := by
    intro k hmem
    obtain rfl : k = outputKey f := List.mem_singleton.mp hmem
    exact hk
  have hnormalized : ∀ v, normalized v = some v →
      normalized (build C [f] (only f.1 v) _ hextra).native =
        some (.mapping [(outputKey f, .list [])]) := by
    intro v hv
    have hes : normalizedEntries
        (OrderedDict.ofList [(outputKey f, Native.list [])]).entries =
          some [(outputKey f, .list [])] := rfl
    rw [normalized_build hsub (normalized_only hv) hes]
    simp [OrderedDict.ofList, OrderedDict.update, OrderedDict.set, OrderedDict.keys,
      OrderedDict.empty, OrderedDict.replaceValue]
  have hmem : ∀ v, (⟨f.1, f.2, true⟩, v) ∈ (build C [f] (only f.1 v) _ hextra).fields := by
    intro v
    have hbuild := mem_build (only f.1 v) hextra hsub List.mem_cons_self
    simpa [only] using hbuild
  exact ⟨_, _, not_iff_of_hidden (hnormalized (.list []) rfl)
    (hnormalized (.list [.list []]) rfl) (hmem _) (hmem _)⟩

/-- Of two fields with one key the later replaces the earlier. -/
theorem exists_hidden_of_shared (h : ¬ (C.fields.map outputKey).Nodup) :
    ∃ i j : Instance C, ¬ (EqualNormalized scalarEq i.native j.native ↔ Agree scalarEq i j) := by
  obtain ⟨f, g, hsub, hkey⟩ :
      ∃ f g, [f, g].Sublist C.fields ∧ outputKey f = outputKey g := by
    by_contra hnone
    refine h (List.pairwise_map.mpr (List.pairwise_iff_forall_sublist.mpr fun hsub heq => ?_))
    exact hnone ⟨_, _, hsub, heq⟩
  have hne : g.1 ≠ f.1 := by
    have hnames := C.names.sublist (hsub.map Prod.fst)
    simp only [List.map_cons, List.map_nil, List.nodup_cons, List.mem_singleton] at hnames
    exact Ne.symm hnames.1
  have hextra : ∀ k ∈ (OrderedDict.empty : OrderedDict Key Native).keys, C.extraKey k := by
    simp [OrderedDict.keys, OrderedDict.empty]
  have hnormalized : ∀ v, normalized v = some v →
      normalized (build C [f, g] (only f.1 v) _ hextra).native =
        some (.mapping [(outputKey f, .list [])]) := by
    intro v hv
    have hes : normalizedEntries (OrderedDict.empty : OrderedDict Key Native).entries =
        some [] := rfl
    rw [normalized_build hsub (normalized_only hv) hes]
    simp [OrderedDict.ofList, OrderedDict.update, OrderedDict.set, OrderedDict.keys,
      OrderedDict.empty, OrderedDict.replaceValue, hkey, only, hne]
  have hmem : ∀ v, (⟨f.1, f.2, true⟩, v) ∈ (build C [f, g] (only f.1 v) _ hextra).fields := by
    intro v
    have hbuild := mem_build (only f.1 v) hextra hsub List.mem_cons_self
    simpa [only] using hbuild
  exact ⟨_, _, not_iff_of_hidden (hnormalized (.list []) rfl)
    (hnormalized (.list [.list []]) rfl) (hmem _) (hmem _)⟩

end Instance

/-- All instances of a class are kept apart if and only if the keys of its fields are apart, and
    apart from the keys that validation leaves over. -/
theorem instances_distinct_iff (scalarEq : Native → Native → Prop) (C : ModelClass) :
    (∀ i j : Instance C, EqualNormalized scalarEq i.native j.native ↔ i.Agree scalarEq j) ↔
      C.KeysApart := by
  constructor
  · intro h
    constructor
    · by_contra hshared
      obtain ⟨i, j, hnot⟩ := Instance.exists_hidden_of_shared hshared
      exact hnot (h i j)
    · intro f hf hk
      obtain ⟨i, j, hnot⟩ := Instance.exists_hidden_of_extra hf hk
      exact hnot (h i j)
  · intro hC i j
    exact ⟨Instance.agree_of_equal hC, Instance.equal_of_agree hC⟩

/-- `x: int = Field(alias='a', validation_alias='b')` with `extra='allow'`: an input key `a`
    populates no field. -/
private def aliasedClass : ModelClass where
  fields := [("x".toList, some "a".toList)]
  names := List.nodup_singleton _
  extraKey := fun k => k = .text "a".toList

/-- The instance of the input `{"b": n, "a": 2}`. -/
private def aliasedInstance (n : Int) : Instance aliasedClass where
  fields := [(⟨"x".toList, some "a".toList, true⟩, .number (.int n))]
  extra := OrderedDict.ofList [(.text "a".toList, .number (.int 2))]
  declared := rfl
  extraKeys := fun _ hk => List.mem_singleton.mp hk

/-- The extra key `a` replaces the field `x`, so that its value is lost. -/
theorem extra_key_hides_field :
    ¬ (EqualNormalized (· = ·) (aliasedInstance 1).native (aliasedInstance 3).native ↔
      (aliasedInstance 1).Agree (· = ·) (aliasedInstance 3)) := by
  intro hiff
  have hdict : ∀ n, normalized (aliasedInstance n).native =
      some (.mapping [(.text "a".toList, .number (.int 2))]) := fun n => rfl
  have hequal : EqualNormalized (· = ·) (aliasedInstance 1).native (aliasedInstance 3).native := by
    refine ⟨_, _, hdict 1, hdict 3, ?_⟩
    simp [Equal, EqualEntries]
  obtain ⟨w, w', hw, hw', hvalues⟩ :=
    (hiff.mp hequal).values _ List.mem_cons_self _ List.mem_cons_self rfl rfl
  obtain rfl := Option.some.inj hw
  obtain rfl := Option.some.inj hw'
  simp [Equal] at hvalues

end QuickApi.Fingerprint
