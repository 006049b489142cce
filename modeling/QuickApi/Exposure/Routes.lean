/-
  QuickApi.Exposure.Routes

  Which paths a flexible route accepts (`app/common/handlers/flexible_router.py`):
  the pattern that Starlette compiles of the template, without regard to case,
  and for the framework's own routes with an optional slash at the end.
-/

import QuickApi.Exposure.Guard

namespace QuickApi.Exposure

open QuickApi.Lib

/-- The texts that the regular expression of a convertor matches. -/
abbrev Convertor := List Char → Bool

/-- A piece of a pattern. -/
inductive Item where
  | literal (c : Char)
  | param (convertor : Convertor)

-- ============================================================================
-- compile_path
-- ============================================================================

def isIdentStart (c : Char) : Bool := ('a' ≤ c && c ≤ 'z') || ('A' ≤ c && c ≤ 'Z') || c == '_'

def isIdentRest (c : Char) : Bool := isIdentStart c || ('0' ≤ c && c ≤ '9')

/-- The identifier in front of a text. -/
def identifier (text : List Char) : List Char :=
  match text with
  | c :: rest => if isIdentStart c then c :: rest.takeWhile isIdentRest else []
  | [] => []

/-- `[a-zA-Z_][a-zA-Z0-9_]*(:[a-zA-Z_][a-zA-Z0-9_]*)?}` in front of a text: the name of the
    convertor, and how many characters it takes. -/
def parameter (text : List Char) : Option (List Char × Nat) :=
  let name := identifier text
  if name = [] then none
  else
    match text.drop name.length with
    | '}' :: _ => some ("str".toList, name.length + 1)
    | ':' :: rest =>
        let convertor := identifier rest
        if convertor ≠ [] ∧ (rest.drop convertor.length).head? = some '}' then
          some (convertor, name.length + convertor.length + 2)
        else none
    | _ => none

/-- The pieces of a template behind `skip` characters that a parameter has taken; `none` where a
    convertor is not known. -/
def compilePath (convertors : List Char → Option Convertor) :
    Nat → List Char → Option (List Item)
  | _, [] => some []
  | skip + 1, _ :: rest => compilePath convertors skip rest
  | 0, c :: rest =>
      match if c = '{' then parameter rest else none with
      | some (name, size) =>
          (convertors name).bind fun convertor =>
            (compilePath convertors size rest).map (.param convertor :: ·)
      | none => (compilePath convertors 0 rest).map (.literal c :: ·)

-- ============================================================================
-- Matching
-- ============================================================================

/-- `$` matches at the end, and before a newline at the end. -/
def atEnd (rest : List Char) : Bool := rest == [] || rest == ['\n']

/-- The pieces match a text in order, and `finish` what is left of it. -/
def matchItems (finish : List Char → Bool) : List Item → List Char → Bool
  | [], text => finish text
  | .literal a :: items, c :: text => equalIgnoreCase a c && matchItems finish items text
  | .literal _ :: _, [] => false
  | .param convertor :: items, text =>
      (List.range (text.length + 1)).any fun n =>
        convertor (text.take n) && matchItems finish items (text.drop n)

/-- A route under `FlexibleRoute`, or one of the framework under `configure_framework_routes`. -/
structure Route where
  path : List Char
  items : List Item
  optionalSlash : Bool

/-- `FlexibleRoute(path, endpoint)` -/
def flexibleRoute (convertors : List Char → Option Convertor) (path : List Char) : Option Route :=
  (compilePath convertors 0 path).map fun items => ⟨path, items, false⟩

/-- A route of the framework behind `configure_framework_routes`. -/
def frameworkRoute (convertors : List Char → Option Convertor) (path : List Char) : Option Route :=
  (compilePath convertors 0 path).map fun items => ⟨path, items, true⟩

/-- `path_regex.match(path)` -/
def Route.accepts (route : Route) (path : List Char) : Bool :=
  matchItems
    (fun rest => atEnd rest || (route.optionalSlash && rest.head? == some '/' && atEnd rest.tail))
    route.items path

/-- Starlette's `get_route_path`. -/
def getRoutePath (scope : Scope) : List Char :=
  if scope.rootPath = [] then scope.path
  else if !scope.rootPath.isPrefixOf scope.path then scope.path
  else if scope.path = scope.rootPath then []
  else if scope.path[scope.rootPath.length]? = some '/' then scope.path.drop scope.rootPath.length
  else scope.path

end QuickApi.Exposure
