/-
  QuickApi.Stack.Gates

  The layers inside the deadline, in the order of `app/config/application.py`:
  content types, methods, CORS, the body limit, the rendering of failures, and
  the exposure of operational routes.
-/

import QuickApi.Exposure.Guard
import QuickApi.Stack.Asgi

namespace QuickApi.Stack

open QuickApi.Lib
open QuickApi.Cors (Message)
open QuickApi.Exposure (OperationalExposure)
open QuickApi.HttpPolicy (HTTPException)
open QuickApi.RequestBody (Channel RequestBodyLimit checkDeclared decodedHeaders limitedReceive
  responseHeaders)

variable (finalSigma : List Char → List Char → Bool)

/-- `UnicodeDecodeError` -/
def unicodeDecodeError : Exc := .fault (.other "UnicodeDecodeError")

/-- `method.upper()` -/
def upperText (text : List Char) : List Char := text.map Char.toUpper

-- ============================================================================
-- ContentTypeEnforcementASGIMiddleware
-- ============================================================================

structure ContentTypeEnforcement where
  defaultAllowed : List (List Char)
  routeOverrides : List (List Char × List (List Char)) := []

/-- `self.no_body_methods` -/
def noBodyMethods : List (List Char) :=
  ["GET".toList, "DELETE".toList, "HEAD".toList, "OPTIONS".toList]

/-- The methods that need a content type. -/
def bodyMethods : List (List Char) := ["POST".toList, "PUT".toList, "PATCH".toList]

/-- `repr` of a list of texts without quotes and backslashes, as media types are. -/
def reprList (texts : List (List Char)) : List Char :=
  '[' :: (", ".toList.intercalate (texts.map fun text => '\'' :: (text ++ ['\''])) ++ [']'])

/-- `header_map.get("content-type")`, where every header can be decoded. -/
def contentTypeOf (scope : Scope) : Option (Option (List Char)) :=
  (decodedHeaders finalSigma scope.headers).map (·.get? "content-type".toList)

/-- `content_type.split(";")[0].strip().lower()` -/
def mediaType (text : List Char) : List Char :=
  lower finalSigma (strip ((text.splitOn ';').headD []))

namespace ContentTypeEnforcement

variable (mw : ContentTypeEnforcement)

/-- `_allowed_for_path`; `self.default_allowed` is never empty. -/
def allowedForPath (path : List Char) : List (List Char) :=
  match mw.routeOverrides.find? fun override => override.1.isPrefixOf path with
  | some override => override.2
  | none => if mw.defaultAllowed = [] then ["application/json".toList] else mw.defaultAllowed

def bodyNotAccepted (method : List Char) : HTTPException :=
  ⟨415, "HTTP method '".toList ++ method ++ "' does not accept a request body.".toList⟩

def missingContentType : HTTPException := ⟨415, "Missing Content-Type header.".toList⟩

def notAllowed (contentType : List Char) (allowed : List (List Char)) : HTTPException :=
  ⟨415, "Content-Type '".toList ++ contentType ++
    "' is not allowed on this endpoint. Expected one of: ".toList ++
    reprList (allowed.dedup.insertionSort (· ≤ ·)) ++ ".".toList⟩

/-- What `_run_content_type_logic` raises before it calls the application. -/
def check (scope : Scope) : Except Exc Unit :=
  let method := upperText scope.method
  match contentTypeOf finalSigma scope with
  | none => .error unicodeDecodeError
  | some contentType =>
      if method ∈ noBodyMethods then
        if contentType.isSome then .error (.http (bodyNotAccepted method) []) else .ok ()
      else if method ∈ bodyMethods then
        match contentType with
        | none => .error (.http missingContentType [])
        | some text =>
            let allowed := mw.allowedForPath scope.path
            if mediaType finalSigma text ∉ allowed then .error (.http (notAllowed text allowed) [])
            else .ok ()
      else .ok ()

/-- `__call__` -/
def call (app : App CleanScope) : App CleanScope := fun scope =>
  if scope.type ≠ .http then app scope
  else answerRejections do
    ofOutcome (mw.check finalSigma scope.toScope)
    app scope

end ContentTypeEnforcement

-- ============================================================================
-- MethodWhitelistASGIMiddleware
-- ============================================================================

structure MethodWhitelist where
  allowedMethods : List (List Char)

namespace MethodWhitelist

variable (mw : MethodWhitelist)

def methodNotAllowed (method : List Char) : HTTPException :=
  ⟨405, "HTTP method '".toList ++ method ++ "' is not allowed on this server.".toList⟩

/-- What `_run_method_check` raises before it calls the application. -/
def check (scope : Scope) : Except Exc Unit :=
  let method := upperText scope.method
  if method ∉ mw.allowedMethods.map upperText then .error (.http (methodNotAllowed method) [])
  else .ok ()

/-- `__call__` -/
def call (app : App CleanScope) : App CleanScope := fun scope =>
  if scope.type ≠ .http then app scope
  else answerRejections do
    ofOutcome (mw.check scope.toScope)
    app scope

end MethodWhitelist

-- ============================================================================
-- CustomCORSASGIMiddleware
-- ============================================================================

/-- The request as the CORS layer reads it. -/
def CleanScope.corsRequest (scope : CleanScope) (http : scope.type = .http) : Cors.Request where
  method := encodeAscii scope.method
  headers := scope.headers
  ascii := scope.ascii http

/-- A text of Latin-1 bytes. -/
def latin1 (data : Bytes) : List Char := data.map fun b => Char.ofNat b.toNat

/-- `Response(status_code=204)` -/
def noContent : Response := ⟨204, [], []⟩

/-- The end of `_run_cors_logic`, for a verdict. -/
def corsVerdict (app : App CleanScope) (scope : CleanScope) : Cors.Verdict → Task Unit
  | .rejected exc => reject ⟨exc.statusCode, latin1 exc.detail⟩
  | .answered => noContent.call
  | .forwarded => app scope

/-- `__call__`; the response to a rejection goes through `send_wrapper` as well. -/
def corsCall (opts : Cors.Options) (app : App CleanScope) : App CleanScope := fun scope =>
  if http : scope.type = .http then do
    let request := scope.corsRequest http
    let policy := (opts.runCorsLogic request).1
    let scope := { scope with corsResponseHeaders := some policy }
    let run := answerRejections (corsVerdict app scope (opts.runCorsLogic request).2)
    let sendWrapper :=
      Wrapper.onSend (Cors.applyCorsResponseHeaders scope.corsResponseHeaders request.method)
    let outcome ← wrapped sendWrapper () run
    ofOutcome outcome.1
  else app scope

-- ============================================================================
-- RequestBodyLimitASGIMiddleware
-- ============================================================================

/-- `limited_receive` and `send_wrapper` -/
def limitWrapper (maxBytes : Nat) : Wrapper Channel where
  send st message :=
    match message with
    | .start status headers => (.start status (responseHeaders maxBytes st headers), st)
    | .body data moreBody => (.body data moreBody, st)
  receive st answer :=
    match answer with
    | .error exc => (.error exc, st)
    | .ok message =>
        match limitedReceive maxBytes st message with
        | (.ok message, st) => (.ok message, st)
        | (.error exc, st) => (.error (.http exc []), st)

/-- What `_run` raises before it calls the application. -/
def checkLength (maxBytes : Nat) (scope : Scope) : Except Exc Unit :=
  match decodedHeaders finalSigma scope.headers with
  | none => .error unicodeDecodeError
  | some headers =>
      match checkDeclared maxBytes (headers.get? "content-length".toList) with
      | .ok () => .ok ()
      | .error exc => .error (.http exc [])

/-- `__call__` -/
def bodyLimitCall (mw : RequestBodyLimit) (app : App CleanScope) : App CleanScope := fun scope =>
  if scope.type ≠ .http then app scope
  else answerRejections do
    let maxBytes := (mw.selectLimit scope.path).maxBodyBytes
    ofOutcome (checkLength finalSigma maxBytes scope.toScope)
    let outcome ← wrapped (limitWrapper maxBytes) ⟨0, []⟩ (app scope)
    ofOutcome outcome.1

-- ============================================================================
-- RequestErrorASGIMiddleware
-- ============================================================================

/-- `message["type"] == "http.response.start"` -/
def isStart : Message → Bool
  | .start _ _ => true
  | .body _ _ => false

/-- `send_tracked` -/
def sendTracked : Wrapper Bool where
  send started message := (message, started || isStart message)
  receive started answer := (answer, started)

/-- `__call__`; a cancellation is no `Exception`. -/
def requestErrorCall (app : App CleanScope) : App CleanScope := fun scope =>
  if scope.type ≠ .http then app scope
  else do
    let outcome ← wrapped sendTracked false (app scope)
    match outcome with
    | (.ok (), _) => pure ()
    | (.error (.fault .cancelled), _) => Program.raise (.fault .cancelled)
    | (.error exc, started) =>
        if started then Program.raise exc
        else do
          let response ← unhandledExceptionHandler scope.toScope
          response.call

-- ============================================================================
-- OperationalExposureASGIMiddleware
-- ============================================================================

/-- The scope as the exposure guard reads it. -/
def Scope.exposure (scope : Scope) : Exposure.Scope where
  type := match scope.type with
    | .http => .http
    | .websocket => .websocket
    | .lifespan => .lifespan
  path := scope.path
  rootPath := scope.rootPath

/-- `__call__` -/
def exposureCall (mw : OperationalExposure) (app : App CleanScope) : App CleanScope := fun scope =>
  match mw.call finalSigma scope.exposure with
  | .response status detail => do
      let response ← httpExceptionHandler ⟨status, detail⟩ []
      response.call
  | .downstream => app scope

-- ============================================================================
-- The layers together
-- ============================================================================

/-- What the settings say about these layers. -/
structure Gates where
  contentTypes : ContentTypeEnforcement
  methods : MethodWhitelist
  cors : Cors.Options
  bodyLimit : RequestBodyLimit
  exposure : OperationalExposure

/-- The application that the deadline runs, around the router `app`. -/
def Gates.call (gates : Gates) (app : App CleanScope) : App CleanScope :=
  gates.contentTypes.call finalSigma <| gates.methods.call <| corsCall gates.cors <|
    bodyLimitCall finalSigma gates.bodyLimit <| requestErrorCall <|
      exposureCall finalSigma gates.exposure app

end QuickApi.Stack
