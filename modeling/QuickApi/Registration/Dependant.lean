/-
  QuickApi.Registration.Dependant

  The declaration of an idempotent endpoint: its parameters and dependencies as
  `Dependant` lists them, the check at registration
  (`_validate_idempotent_inputs` in `app/common/handlers/application_route.py`),
  and what `validated_endpoint` hands to `begin`.
-/

import QuickApi.Fingerprint.Native
import QuickApi.Lib.Worklist

namespace QuickApi.Registration

open QuickApi.Fingerprint QuickApi.Lib

-- ============================================================================
-- Declarations
-- ============================================================================

/-- `field_info`, as far as bodies are told apart by it. -/
inductive FieldInfo where
  /-- a `Form`, or a `File` -/
  | form
  | body (mediaType : Text)
  | other

/-- A name in the program text. -/
abbrev Identifier := {text : Text // text ≠ []}

/-- A parameter of a callable. -/
structure Field where
  name : Identifier
  aliasName : Text
  fieldInfo : FieldInfo

/-- `Dependant`: a callable, by a number, the parameters that it declares, and the dependencies
    of it. -/
inductive Dependant where
  | mk (call : Nat) (requestParamName httpConnectionParamName : Option Identifier)
      (headerParams cookieParams bodyParams pathParams queryParams : List Field)
      (dependencies : List Dependant)

namespace Dependant

def requestParamName : Dependant → Option Identifier
  | mk _ name _ _ _ _ _ _ _ => name

def httpConnectionParamName : Dependant → Option Identifier
  | mk _ _ name _ _ _ _ _ _ => name

def headerParams : Dependant → List Field
  | mk _ _ _ fields _ _ _ _ _ => fields

def cookieParams : Dependant → List Field
  | mk _ _ _ _ fields _ _ _ _ => fields

def bodyParams : Dependant → List Field
  | mk _ _ _ _ _ fields _ _ _ => fields

def pathParams : Dependant → List Field
  | mk _ _ _ _ _ _ fields _ _ => fields

def queryParams : Dependant → List Field
  | mk _ _ _ _ _ _ _ fields _ => fields

def dependencies : Dependant → List Dependant
  | mk _ _ _ _ _ _ _ _ dependencies => dependencies

/-- The parameters that are inputs of a mutation. -/
def inputs (d : Dependant) : List Field := d.bodyParams ++ d.pathParams ++ d.queryParams

mutual
/-- The number of callables in the tree. -/
def count : Dependant → Nat
  | mk _ _ _ _ _ _ _ _ dependencies => countAll dependencies + 1

def countAll : List Dependant → Nat
  | [] => 0
  | d :: ds => count d + countAll ds
end

theorem countAll_eq_sum (ds : List Dependant) : countAll ds = (ds.map count).sum := by
  induction ds with
  | nil => rfl
  | cons d ds ih => rw [countAll, ih, List.map_cons, List.sum_cons]

theorem sum_count_dependencies_lt (d : Dependant) : (d.dependencies.map count).sum < count d := by
  obtain ⟨_, _, _, _, _, _, _, _, dependencies⟩ := d
  rw [count, countAll_eq_sum]
  exact Nat.lt_succ_self _

/-- The tree of a declaration. -/
def tree : Branching Dependant := ⟨dependencies, count, sum_count_dependencies_lt⟩

end Dependant

-- ============================================================================
-- Placeholders
-- ============================================================================

/-- `re.findall(r'{([^}]+)}', path)`, behind an opening brace and a `name` if there is one. -/
def placeholdersFrom : Option Text → Text → List Text
  | _, [] => []
  | none, c :: rest => placeholdersFrom (if c = '{' then some [] else none) rest
  | some name, c :: rest =>
      if c = '}' then
        if name = [] then placeholdersFrom none rest else name :: placeholdersFrom none rest
      else placeholdersFrom (some (name ++ [c])) rest

def placeholders (path : Text) : List Text := placeholdersFrom none path

-- ============================================================================
-- The check at registration
-- ============================================================================

/-- `RuntimeError(message)` -/
structure RuntimeError where
  message : String
deriving DecidableEq, Repr

/-- `media_type == 'application/json' or media_type.endswith('+json')` -/
def isJsonMedia (mediaType : Text) : Bool :=
  mediaType == "application/json".toList || "+json".toList.isSuffixOf mediaType

/-- A body that is declared as JSON. -/
def FieldInfo.isJsonBody : FieldInfo → Bool
  | .form => false
  | .body mediaType => isJsonMedia mediaType
  | .other => false

/-- `if name` -/
def given (name : Option Identifier) : Bool := name.any (·.val ≠ [])

theorem given_eq (name : Option Identifier) : given name = name.isSome := by
  cases name with
  | none => rfl
  | some name => simpa [given] using name.property

/-- `len({field.alias for field in fields}) != len(fields)` -/
def repeatsAlias (fields : List Field) : Bool :=
  (fields.map Field.aliasName).dedup.length != fields.length

/-- The body of the loop over the dependencies. -/
def checkDependency (d : Dependant) : Except RuntimeError Unit :=
  if d.bodyParams ≠ [] ∨ d.pathParams ≠ [] ∨ d.queryParams ≠ [] then
    .error ⟨"Idempotent body/path/query inputs must be declared directly on the endpoint; " ++
      "dependencies may provide authorization and services, not hidden mutation inputs."⟩
  else .ok ()

/-- `_validate_idempotent_inputs` -/
def validateIdempotentInputs (d : Dependant) (path : Text) : Except RuntimeError Unit :=
  if given d.requestParamName ∨ given d.httpConnectionParamName ∨ d.headerParams ≠ [] ∨
      d.cookieParams ≠ [] then
    .error ⟨"Idempotent endpoints must declare business inputs as body/path/query parameters, " ++
      "not raw requests, headers or cookies. Use dependencies for authorization and services."⟩
  else if (placeholders path).any (· ∉ d.pathParams.map Field.aliasName) then
    .error ⟨"Every idempotent route path parameter must be declared on its endpoint."⟩
  else if [d.bodyParams, d.pathParams, d.queryParams].any repeatsAlias then
    .error ⟨"Idempotent input parameter aliases must be unique within each input category."⟩
  else if d.bodyParams.any fun field => !field.fieldInfo.isJsonBody then
    .error ⟨"Idempotent routes support declared JSON bodies only."⟩
  else Dependant.tree.visit checkDependency d.dependencies.reverse

-- ============================================================================
-- The inputs of a request
-- ============================================================================

/-- A keyed request: the validated values that each callable of the tree is called with, by the
    names of its parameters. -/
structure Request where
  values : Dependant → Identifier → Option Native

namespace Request

/-- `{field.alias: values[field.name] for field in fields}`, or `None` without fields -/
def projection (values : Identifier → Option Native) (fields : List Field) : Option Native :=
  if fields = [] then some .null
  else
    (fields.mapM fun field => (values field.name).map (Key.text field.aliasName, ·)).map
      fun entries => .mapping (OrderedDict.ofList entries).entries

/-- `body` -/
def body (values : Identifier → Option Native) : List Field → Option Native
  | [field] => values field.name
  | fields => projection values fields

/-- The inputs of `begin`. -/
def beginInput (r : Request) (endpoint : Dependant) : Option Native := do
  let values := r.values endpoint
  let body ← body values endpoint.bodyParams
  let params ← projection values endpoint.pathParams
  let query ← projection values endpoint.queryParams
  pure (.mapping [(.text "body".toList, body), (.text "params".toList, params),
    (.text "query".toList, query)])

end Request

end QuickApi.Registration
