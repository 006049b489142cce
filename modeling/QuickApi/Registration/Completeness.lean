/-
  QuickApi.Registration.Completeness

  The check at registration accepts the declarations all of whose inputs are in
  the fingerprint.
-/

import QuickApi.Registration.Dependant

namespace QuickApi.Registration

open QuickApi.Fingerprint QuickApi.Lib

-- ============================================================================
-- What the check accepts
-- ============================================================================

/-- The inputs of the tree are those that `begin` is called with. -/
structure Captured (endpoint : Dependant) (path : Text) : Prop where
  request : endpoint.requestParamName = none
  connection : endpoint.httpConnectionParamName = none
  headers : endpoint.headerParams = []
  cookies : endpoint.cookieParams = []
  placeholders : ∀ name ∈ placeholders path, name ∈ endpoint.pathParams.map Field.aliasName
  aliases : ∀ fields ∈ [endpoint.bodyParams, endpoint.pathParams, endpoint.queryParams],
    (fields.map Field.aliasName).Nodup
  json : ∀ field ∈ endpoint.bodyParams, field.fieldInfo.isJsonBody = true
  direct : ∀ dependency ∈ endpoint.dependencies, ∀ d,
    Dependant.tree.Descends dependency d → d.inputs = []

/-- What an idempotent endpoint must not declare. -/
inductive Uncaptured (endpoint : Dependant) (path : Text) : Prop where
  | hidden {dependency d : Dependant} {field : Field} (h : dependency ∈ endpoint.dependencies)
      (hdescends : Dependant.tree.Descends dependency d) (hfield : field ∈ d.inputs)
  | repeatedAlias {fields : List Field}
      (h : fields ∈ [endpoint.bodyParams, endpoint.pathParams, endpoint.queryParams])
      (hrepeated : ¬ (fields.map Field.aliasName).Nodup)
  | undeclared {name : Text} (h : name ∈ placeholders path)
      (hname : name ∉ endpoint.pathParams.map Field.aliasName)
  | request (h : endpoint.requestParamName.isSome)
  | connection (h : endpoint.httpConnectionParamName.isSome)
  | header {field : Field} (h : field ∈ endpoint.headerParams)
  | cookie {field : Field} (h : field ∈ endpoint.cookieParams)
  | nonJson {field : Field} (h : field ∈ endpoint.bodyParams)
      (hjson : field.fieldInfo.isJsonBody = false)

theorem Uncaptured.not_captured {endpoint : Dependant} {path : Text}
    (h : Uncaptured endpoint path) : ¬ Captured endpoint path := by
  intro hcaptured
  cases h with
  | hidden h hdescends hfield =>
      rw [hcaptured.direct _ h _ hdescends] at hfield
      exact List.not_mem_nil hfield
  | repeatedAlias h hrepeated => exact hrepeated (hcaptured.aliases _ h)
  | undeclared h hname => exact hname (hcaptured.placeholders _ h)
  | request h => simp [hcaptured.request] at h
  | connection h => simp [hcaptured.connection] at h
  | header h => simp [hcaptured.headers] at h
  | cookie h => simp [hcaptured.cookies] at h
  | nonJson h hjson => simp [hcaptured.json _ h] at hjson

theorem repeatsAlias_eq_false_iff {fields : List Field} :
    repeatsAlias fields = false ↔ (fields.map Field.aliasName).Nodup := by
  rw [repeatsAlias, bne_eq_false_iff_eq]
  constructor
  · intro hlength
    have hdedup : (fields.map Field.aliasName).dedup = fields.map Field.aliasName :=
      (List.dedup_sublist _).eq_of_length (by rw [hlength, List.length_map])
    exact hdedup ▸ List.nodup_dedup _
  · intro hnodup
    rw [hnodup.dedup, List.length_map]

theorem checkDependency_eq_ok_iff {d : Dependant} : checkDependency d = .ok () ↔ d.inputs = [] := by
  rw [checkDependency, Checked.guard_eq_ok_iff, Dependant.inputs]
  simp

/-- A declaration is accepted exactly when it is captured. -/
theorem validateIdempotentInputs_eq_ok_iff {endpoint : Dependant} {path : Text} :
    validateIdempotentInputs endpoint path = .ok () ↔ Captured endpoint path := by
  simp only [validateIdempotentInputs, Checked.guard_eq_ok_iff, given_eq]
  rw [Branching.visit_eq_ok_iff]
  simp only [checkDependency_eq_ok_iff, not_or, not_not, List.any_eq_true, not_exists, not_and,
    Bool.not_eq_true, Option.isSome_eq_false_iff, Option.isNone_iff_eq_none, List.mem_reverse,
    repeatsAlias_eq_false_iff, decide_eq_true_eq, Bool.not_eq_true', Bool.not_eq_false]
  constructor
  · rintro ⟨⟨hrequest, hconnection, hheaders, hcookies⟩, hplaceholders, haliases, hjson, hdirect⟩
    exact ⟨hrequest, hconnection, hheaders, hcookies, hplaceholders, haliases, hjson, hdirect⟩
  · intro h
    exact ⟨⟨h.request, h.connection, h.headers, h.cookies⟩, h.placeholders, h.aliases, h.json,
      h.direct⟩

-- ============================================================================
-- The fields of a projection
-- ============================================================================

/-- Both requests have the same value for the parameter. -/
def SameInput (values values' : Identifier → Option Native) (field : Field) : Prop :=
  ∃ v v', values field.name = some v ∧ values' field.name = some v' ∧ SameNormalized v v'

namespace Request

theorem projection_eq_some {values : Identifier → Option Native} {fields : List Field} {v : Native}
    (hnodup : (fields.map Field.aliasName).Nodup) (hfields : fields ≠ [])
    (h : projection values fields = some v) :
    ∃ es : List (Key × Native), v = .mapping es ∧ (es.map Prod.fst).Nodup ∧
      ∀ field ∈ fields, ∃ w, values field.name = some w ∧ (.text field.aliasName, w) ∈ es := by
  rw [projection, if_neg hfields, Option.map_eq_some_iff] at h
  obtain ⟨es, hmap, rfl⟩ := h
  have hes := mapM_eq_some_iff.mp hmap
  have hkeys : es.map Prod.fst = (fields.map Field.aliasName).map Key.text := by
    clear hmap hnodup hfields
    induction hes with
    | nil => rfl
    | cons hvalue _ ih =>
        obtain ⟨w, -, rfl⟩ := Option.map_eq_some_iff.mp hvalue
        rw [List.map_cons, List.map_cons, List.map_cons, ih]
  have hdistinct : (es.map Prod.fst).Nodup := hkeys ▸ hnodup.map fun _ _ => Key.text.inj
  refine ⟨es, congrArg _ (OrderedDict.ofList_entries_of_nodup hdistinct), hdistinct, ?_⟩
  intro field hfield
  obtain ⟨e, he, hvalue⟩ := exists_of_forall₂_left hes hfield
  obtain ⟨w, hw, rfl⟩ := Option.map_eq_some_iff.mp hvalue
  exact ⟨w, hw, he⟩

/-- Projections that are the same have the same fields. -/
theorem sameInput_of_projection {values values' : Identifier → Option Native} {fields : List Field}
    {v v' : Native} (hnodup : (fields.map Field.aliasName).Nodup)
    (h : projection values fields = some v) (h' : projection values' fields = some v')
    (hsame : SameNormalized v v') : ∀ field ∈ fields, SameInput values values' field := by
  intro field hfield
  have hfields : fields ≠ [] := List.ne_nil_of_mem hfield
  obtain ⟨es, rfl, hkeys, hes⟩ := projection_eq_some hnodup hfields h
  obtain ⟨es', rfl, hkeys', hes'⟩ := projection_eq_some hnodup hfields h'
  obtain ⟨w, hw, hmem⟩ := hes field hfield
  obtain ⟨w', hw', hmem'⟩ := hes' field hfield
  exact ⟨w, w', hw, hw', SameNormalized.entry hkeys hkeys' hsame hmem hmem'⟩

/-- A single body stands for itself, several are projected, and none has no field. -/
theorem sameInput_of_body {values values' : Identifier → Option Native} {fields : List Field}
    {v v' : Native} (hnodup : (fields.map Field.aliasName).Nodup)
    (h : body values fields = some v) (h' : body values' fields = some v')
    (hsame : SameNormalized v v') : ∀ field ∈ fields, SameInput values values' field := by
  match fields with
  | [] => exact List.forall_mem_nil _
  | [single] =>
      intro field hfield
      obtain rfl := List.mem_singleton.mp hfield
      exact ⟨v, v', h, h', hsame⟩
  | _ :: _ :: _ => exact sameInput_of_projection hnodup h h' hsame

/-- The three parts of the input of `begin`. -/
theorem beginInput_eq_some {r : Request} {endpoint : Dependant} {input : Native}
    (h : r.beginInput endpoint = some input) :
    ∃ b p q, body (r.values endpoint) endpoint.bodyParams = some b ∧
      projection (r.values endpoint) endpoint.pathParams = some p ∧
      projection (r.values endpoint) endpoint.queryParams = some q ∧
      input = .mapping [(.text "body".toList, b), (.text "params".toList, p),
        (.text "query".toList, q)] := by
  simp only [beginInput, Option.bind_eq_bind, Option.bind_eq_some_iff, Option.pure_def,
    Option.some.injEq] at h
  obtain ⟨b, hb, p, hp, q, hq, rfl⟩ := h
  exact ⟨b, p, q, hb, hp, hq, rfl⟩

theorem beginKeys_nodup (b p q : Native) :
    (([(.text "body".toList, b), (.text "params".toList, p), (.text "query".toList, q)] :
      List (Key × Native)).map Prod.fst).Nodup := by
  simp only [List.map_cons, List.map_nil]
  decide

/-- Requests with the same input have the same values for the inputs of the endpoint. -/
theorem sameInput_of_beginInput {r r' : Request} {endpoint : Dependant} {input input' : Native}
    (haliases : ∀ fields ∈ [endpoint.bodyParams, endpoint.pathParams, endpoint.queryParams],
      (fields.map Field.aliasName).Nodup)
    (h : r.beginInput endpoint = some input) (h' : r'.beginInput endpoint = some input')
    (hsame : SameNormalized input input') :
    ∀ field ∈ endpoint.inputs, SameInput (r.values endpoint) (r'.values endpoint) field := by
  obtain ⟨b, p, q, hb, hp, hq, rfl⟩ := beginInput_eq_some h
  obtain ⟨b', p', q', hb', hp', hq', rfl⟩ := beginInput_eq_some h'
  have hentry := @SameNormalized.entry _ _ (beginKeys_nodup b p q) (beginKeys_nodup b' p' q') hsame
  have hbody : SameNormalized b b' := hentry (.head _) (.head _)
  have hparams : SameNormalized p p' := hentry (.tail _ (.head _)) (.tail _ (.head _))
  have hquery : SameNormalized q q' :=
    hentry (.tail _ (.tail _ (.head _))) (.tail _ (.tail _ (.head _)))
  intro field hfield
  rcases List.mem_append.mp hfield with hfield | hfield
  · rcases List.mem_append.mp hfield with hfield | hfield
    · exact sameInput_of_body (haliases _ (.head _)) hb hb' hbody field hfield
    · exact sameInput_of_projection (haliases _ (.tail _ (.head _))) hp hp' hparams field hfield
  · exact sameInput_of_projection (haliases _ (.tail _ (.tail _ (.head _)))) hq hq' hquery field
      hfield

end Request

-- ============================================================================
-- Completeness
-- ============================================================================

/-- Every input of an accepted declaration is in the fingerprint, and a declaration with an input
    outside of it is rejected. -/
theorem registration_is_complete (endpoint : Dependant) (path : Text) :
    (validateIdempotentInputs endpoint path = .ok () →
      ∀ (r r' : Request) (input input' : Native) (text : Text),
        r.beginInput endpoint = some input → r'.beginInput endpoint = some input' →
        canonical input = some text → canonical input' = some text →
        ∀ d, Dependant.tree.Descends endpoint d → ∀ field ∈ d.inputs,
          ∃ v v', r.values d field.name = some v ∧ r'.values d field.name = some v' ∧
            SameNormalized v v') ∧
      (Uncaptured endpoint path → ∃ e, validateIdempotentInputs endpoint path = .error e) := by
  refine ⟨?_, ?_⟩
  · intro haccepted r r' input input' text hinput hinput' htext htext' d hdescends field hfield
    have hcaptured := validateIdempotentInputs_eq_ok_iff.mp haccepted
    have hsame := sameNormalized_of_canonical htext htext'
    rcases hdescends with _ | ⟨hdependency, hdescends⟩
    · exact Request.sameInput_of_beginInput hcaptured.aliases hinput hinput' hsame field hfield
    · -- nothing is declared below the endpoint
      rw [hcaptured.direct _ hdependency _ hdescends] at hfield
      exact absurd hfield List.not_mem_nil
  · intro huncaptured
    cases hresult : validateIdempotentInputs endpoint path with
    | ok u => exact absurd (validateIdempotentInputs_eq_ok_iff.mp hresult) huncaptured.not_captured
    | error e => exact ⟨e, rfl⟩

-- ============================================================================
-- A route for widgets
-- ============================================================================

namespace Widgets

def path : Text := "/widgets/{id}".toList

def payloadName : Identifier := ⟨"payload".toList, by decide⟩

def idName : Identifier := ⟨"id".toList, by decide⟩

def payloadField : Field := ⟨payloadName, payloadName.val, .body "application/json".toList⟩

def idField : Field := ⟨idName, idName.val, .other⟩

/-- A dependency that reads the caller from a header. -/
def actor : Dependant :=
  .mk 1 none none [⟨⟨"token".toList, by decide⟩, "token".toList, .other⟩] [] [] [] [] []

/-- `async def endpoint(id: int, payload: Input, actor: str = Depends(authenticate))` -/
def endpoint : Dependant := .mk 0 none none [] [] [payloadField] [idField] [] [actor]

/-- A request for a widget at a price. -/
def request (price : Number) : Request where
  values _ name :=
    if name = payloadName then some (.mapping [(.text "price".toList, .number price)])
    else if name = idName then some (.number (.int 7))
    else none

/-- The input of the request. -/
def input (price : Number) : Native :=
  .mapping [(.text "body".toList, .mapping [(.text "price".toList, .number price)]),
    (.text "params".toList, .mapping [(.text "id".toList, .number (.int 7))]),
    (.text "query".toList, .null)]

theorem beginInput_request (price : Number) :
    (request price).beginInput endpoint = some (input price) := rfl

theorem captured : Captured endpoint path where
  request := rfl
  connection := rfl
  headers := rfl
  cookies := rfl
  placeholders := by decide
  aliases := by decide
  json := by decide
  direct := by
    intro dependency hdependency d hdescends
    obtain rfl := List.mem_singleton.mp hdependency
    rcases hdescends with _ | ⟨hchild, -⟩
    · rfl
    · exact absurd hchild List.not_mem_nil

end Widgets

/-- The price `1.50` and the price `1.5` are one input, and a placeholder that the endpoint does
    not declare is rejected. -/
theorem registration_is_complete_widgets :
    (∃ v v', (Widgets.request (.decimal (.finite false 150 (-2)))).values Widgets.endpoint
          Widgets.payloadName = some v ∧
        (Widgets.request (.float (.finite false 15 (-1)))).values Widgets.endpoint
          Widgets.payloadName = some v' ∧ SameNormalized v v') ∧
      ∃ e, validateIdempotentInputs Widgets.endpoint "/widgets/{id}/{part}".toList = .error e := by
  refine ⟨?_, ?_⟩
  · exact (registration_is_complete Widgets.endpoint Widgets.path).1
      (validateIdempotentInputs_eq_ok_iff.mpr Widgets.captured) _ _ _ _
      "\x7b\"body\":\x7b\"price\":15e-1\x7d,\"params\":\x7b\"id\":7\x7d,\"query\":null\x7d".toList
      (Widgets.beginInput_request _) (Widgets.beginInput_request _) (by decide +kernel)
      (by decide +kernel) Widgets.endpoint (.refl _) Widgets.payloadField (.head _)
  · have hundeclared : Uncaptured Widgets.endpoint "/widgets/{id}/{part}".toList :=
      .undeclared (by decide : "part".toList ∈ placeholders _) (by decide)
    exact (registration_is_complete _ _).2 hundeclared

end QuickApi.Registration
