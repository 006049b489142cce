/-
  QuickApi.Exposure.Guard

  `OperationalExposureASGIMiddleware`
  (`app/common/middleware/operational_exposure.py`): families of operational
  routes that are switched off are answered before any handler.
-/

import QuickApi.Lib.UnicodeCase

namespace QuickApi.Exposure

open QuickApi.Lib

inductive ScopeType where
  | http
  | websocket
  | lifespan
deriving DecidableEq, Repr

/-- What the middleware and the routes read of an ASGI scope. -/
structure Scope where
  type : ScopeType
  path : List Char
  rootPath : List Char
deriving DecidableEq, Repr

/-- The flags of the middleware. -/
structure OperationalExposure where
  docsEnabled : Bool
  diagnosticsEnabled : Bool
  metricsEnabled : Bool
deriving DecidableEq, Repr

/-- The families behind a flag. -/
def docsFamilies : List (List Char) := ["/docs".toList, "/redoc".toList, "/openapi.json".toList]

def diagnosticsFamilies : List (List Char) := ["/info".toList, "/system".toList]

def metricsFamilies : List (List Char) := ["/metrics".toList]

inductive Answer where
  | response (statusCode : Nat) (detail : List Char)
  | downstream
deriving DecidableEq, Repr

namespace OperationalExposure

variable (finalSigma : List Char → List Char → Bool) (mw : OperationalExposure) (scope : Scope)

/-- `self.disabled` -/
def disabled : List (List Char) :=
  (if mw.docsEnabled then [] else docsFamilies) ++
    (if mw.diagnosticsEnabled then [] else diagnosticsFamilies) ++
    (if mw.metricsEnabled then [] else metricsFamilies)

/-- `path == prefix or path.startswith(prefix + "/")` -/
def below (path family : List Char) : Bool := path = family || (family ++ ['/']).isPrefixOf path

/-- The path behind the root of the application. -/
def stripRoot (path root : List Char) : List Char :=
  if root ≠ [] ∧ below path root then path.drop root.length else path

/-- `__call__` -/
def call : Answer :=
  if scope.type = .http then
    let path := lower finalSigma (stripRoot scope.path scope.rootPath)
    if mw.disabled.any (below path) then .response 404 "Not Found".toList else .downstream
  else .downstream

end OperationalExposure

end QuickApi.Exposure
