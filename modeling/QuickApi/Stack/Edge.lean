/-
  QuickApi.Stack.Edge

  The layers outside the deadline, in the order of `app/config/application.py`:
  the cleanup of the context, trusted proxies, the request context, security
  headers, the rate limit, the sanitization of headers and their limits.  The
  two observers between them hand everything on.
-/

import QuickApi.HttpPolicy.Grammar
import QuickApi.Stack.Gates

namespace QuickApi.Stack

open QuickApi.Lib
open QuickApi.Cors (HeaderLines)
open QuickApi.HttpPolicy (HTTPException HeaderSanitization TrustedProxy)
open QuickApi.RateLimit (RateLimitDecision RateLimitPolicy)

variable (finalSigma : List Char → List Char → Bool)

-- ============================================================================
-- RequestCleanupASGIMiddleware
-- ============================================================================

/-- `structlog.contextvars.clear_contextvars()`, `RequestContext.clear()` -/
def Vars.cleared : Vars := ⟨none, []⟩

/-- `__call__` -/
def requestCleanupCall (app : App Scope) : App Scope := fun scope =>
  (app scope).finallyDo fun _ => Program.modify fun _ => Vars.cleared

-- ============================================================================
-- TrustedProxyASGIMiddleware
-- ============================================================================

/-- `__call__` -/
def trustedProxyCall (mw : TrustedProxy) (app : App Scope) : App Scope := fun scope =>
  app { scope with base := mw.forward scope.base }

-- ============================================================================
-- RequestContextASGIMiddleware
-- ============================================================================

/-- `scope.get("client", ["unknown"])[0]` -/
def clientHost (scope : Scope) : Except Exc (List Char) :=
  match scope.client with
  | some client => .ok client.1
  | none => if scope.clientListed then .error (.fault (.other "TypeError")) else .ok "unknown".toList

/-- `structlog.contextvars.bind_contextvars(**values)` -/
def Vars.bind (vars : Vars) (values : List (String × List Char)) : Vars :=
  { vars with
    bound := values ++ vars.bound.filter fun entry => !(values.map Prod.fst).contains entry.1 }

/-- `b"x-request-id"` -/
def requestIdName : Bytes := encodeAscii "x-request-id".toList

/-- `__call__` -/
def requestContextCall (app : App Scope) : App Scope := fun scope =>
  if scope.type ≠ .http then app scope
  else do
    let requestId : List Char ← Program.perform Op.requestId
    match clientHost scope with
    | .error exc => Program.raise exc
    | .ok client =>
        let ctx : RequestContextData := ⟨requestId, scope.method, scope.path, client⟩
        Program.modify fun vars =>
          { vars.bind [("request_id", requestId), ("method", scope.method), ("ip", client)] with
            requestContext := some ctx }
        let outcome ← wrapped (.onSend (appendHeaders [(requestIdName, encodeUtf8 requestId)])) ()
          (app { scope with ctx := some ctx })
        ofOutcome outcome.1

-- ============================================================================
-- SecurityHeadersMiddleware
-- ============================================================================

def headerLine (name value : String) : Bytes × Bytes :=
  (encodeAscii name.toList, encodeAscii value.toList)

/-- `self.headers` -/
def securityHeaders : HeaderLines :=
  [headerLine "x-frame-options" "DENY",
    headerLine "x-content-type-options" "nosniff",
    headerLine "referrer-policy" "strict-origin-when-cross-origin",
    headerLine "x-xss-protection" "0",
    headerLine "strict-transport-security" "max-age=63072000; includeSubDomains; preload",
    headerLine "cross-origin-opener-policy" "same-origin",
    headerLine "cross-origin-embedder-policy" "require-corp",
    headerLine "cross-origin-resource-policy" "same-origin",
    headerLine "permissions-policy" "geolocation=(), microphone=(), camera=()",
    headerLine "content-security-policy"
      "default-src 'self'; img-src 'self' data:; object-src 'none'; frame-ancestors 'none'; base-uri 'self'"]

/-- The documentation pages do without security headers. -/
def isDocsPath (docsEnabled : Bool) (scope : Scope) : Bool :=
  let path := lower finalSigma scope.path
  docsEnabled &&
    ["/docs".toList, "/redoc".toList, "/openapi.json".toList].any (·.isPrefixOf path)

/-- `__call__` -/
def securityHeadersCall (docsEnabled : Bool) (app : App Scope) : App Scope := fun scope =>
  if scope.type ≠ .http then app scope
  else if isDocsPath finalSigma docsEnabled scope then app scope
  else do
    let outcome ← wrapped (.onSend (appendHeaders securityHeaders)) () (app scope)
    ofOutcome outcome.1

-- ============================================================================
-- RateLimitASGIMiddleware
-- ============================================================================

/-- `get_client_ip` -/
def getClientIp (scope : Scope) : List Char :=
  match scope.client with
  | some client => client.1
  | none => "unknown".toList

/-- `text.rstrip(char)` -/
def rstrip (c : Char) (text : List Char) : List Char := text.rdropWhile (· = c)

/-- The favicon is not limited. -/
def isFavicon (scope : Scope) : Bool :=
  let path := Exposure.OperationalExposure.stripRoot scope.path scope.rootPath
  rstrip '/' (lower finalSigma path) = "/favicon.ico".toList &&
    ["GET".toList, "HEAD".toList].contains scope.method

/-- `f"{window_ms / 1000:.3f}".rstrip("0").rstrip(".")` -/
def windowSeconds (windowMs : Nat) : List Char :=
  let millis := Nat.toDigits 10 (1000 + windowMs % 1000)
  rstrip '.' (rstrip '0' (Nat.toDigits 10 (windowMs / 1000) ++ '.' :: millis.drop 1))

/-- The rejection of a request that was not admitted. -/
def rateLimited (policy : RateLimitPolicy) (decision : RateLimitDecision) :
    HTTPException × List (List Char × List Char) :=
  let status := (decision.status.map (·.code)).getD 429
  let message :=
    if decision.status = some .serviceUnavailable then
      "Rate limiter capacity is exhausted. Try again later.".toList
    else
      "Too many requests \u2014 limit is ".toList ++ Nat.toDigits 10 policy.maxRequests ++
        " per ".toList ++ windowSeconds policy.windowMs ++ "s.".toList
  (⟨status, message⟩,
    [("Retry-After".toList, (toString decision.retryAfterSeconds).toList),
      ("X-RateLimit-Result".toList, "rejected".toList)])

/-- `b"x-ratelimit-result"` -/
def resultName : Bytes := encodeAscii "x-ratelimit-result".toList

/-- `__call__` -/
def rateLimitCall (policy : RateLimitPolicy) (app : App Scope) : App Scope := fun scope =>
  if scope.type ≠ .http then app scope
  else if isFavicon finalSigma scope then app scope
  else do
    let decision : RateLimitDecision ← Program.perform (Op.admitRequest (getClientIp scope))
    if !decision.allowed then
      let (exc, headers) := rateLimited policy decision
      let response ← httpExceptionHandler exc headers
      response.call
    else
      let outcome ← wrapped
        (.onSend (appendHeaders [(resultName, encodeAscii "accepted".toList)])) () (app scope)
      ofOutcome outcome.1

-- ============================================================================
-- HeaderSanitizationASGIMiddleware
-- ============================================================================

/-- What the sanitization makes of the headers of a request. -/
theorem run_eq_ok {mw : HeaderSanitization} {scope cleaned : HttpPolicy.Scope}
    (h : mw.run scope = .ok cleaned) (http : cleaned.type = .http) :
    HeaderSanitization.Conforms HttpPolicy.isNameLine scope.headers ∧
      cleaned = { scope with headers := scope.headers.filter mw.allows } := by
  have hcall : mw.call scope = (cleaned, .downstream) := by
    rw [HeaderSanitization.call, h]
  by_cases hscope : scope.type = .http
  · obtain ⟨hconforms, heq⟩ | ⟨-, message, heq⟩ := mw.call_cases hscope
    · exact ⟨hconforms, (Prod.mk.inj (hcall.symm.trans heq)).1⟩
    · have hanswer := (Prod.mk.inj (hcall.symm.trans heq)).2
      cases hanswer
  · rw [HeaderSanitization.run, if_pos hscope] at h
    cases h
    exact absurd http hscope

theorem ascii_of_run {mw : HeaderSanitization} {scope cleaned : HttpPolicy.Scope}
    (h : mw.run scope = .ok cleaned) (http : cleaned.type = .http) :
    ∀ e ∈ cleaned.headers, (e.1 ++ e.2).all (· < 128) = true := by
  obtain ⟨hconforms, hcleaned⟩ := run_eq_ok h http
  intro e he
  rw [hcleaned] at he
  have hok := hconforms.each e (List.mem_of_mem_filter he)
  rw [List.all_append, hok.asciiName, hok.asciiValue]
  rfl

/-- The scope with cleaned headers, or the rejection. -/
def cleanScope (mw : HeaderSanitization) (scope : Scope) : Except HTTPException CleanScope :=
  match h : mw.run scope.base with
  | .ok base => .ok { scope with base, ascii := ascii_of_run h }
  | .error exc => .error exc

/-- `__call__` -/
def sanitizationCall (mw : HeaderSanitization) (app : App CleanScope) : App Scope := fun scope =>
  if http : scope.type = .http then
    answerRejections <|
      match cleanScope mw scope with
      | .ok scope => app scope
      | .error exc => reject exc
  else app { scope with ascii := fun h => absurd h http }

-- ============================================================================
-- RequestHeaderLimitASGIMiddleware
-- ============================================================================

structure HeaderLimits where
  maxHeaderCount : Nat := 100
  maxSingleHeaderBytes : Nat := 4096
  maxTotalHeaderBytes : Nat := 8192
  allowChunked : Bool := false

namespace HeaderLimits

variable (limits : HeaderLimits)

def tooMany : HTTPException :=
  ⟨431, "Too many headers (limit = ".toList ++ Nat.toDigits 10 limits.maxHeaderCount ++
    ").".toList⟩

def singleTooLarge : HTTPException :=
  ⟨431, "Header exceeds per-header size limit (".toList ++
    Nat.toDigits 10 limits.maxSingleHeaderBytes ++ " bytes).".toList⟩

def totalTooLarge : HTTPException :=
  ⟨431, "Total header size exceeds limit (".toList ++
    Nat.toDigits 10 limits.maxTotalHeaderBytes ++ " bytes).".toList⟩

def chunkedNotAllowed : HTTPException :=
  ⟨501, "Chunked request bodies are not allowed.".toList⟩

/-- `len(key) + len(value)` -/
def size (header : Bytes × Bytes) : Nat := header.1.length + header.2.length

/-- The value of the first `transfer-encoding`, without its bytes that are not ASCII. -/
def transferEncoding (headers : HeaderLines) : Option (List Char) :=
  (headers.find? fun header => lowerBytes header.1 = encodeAscii "transfer-encoding".toList).map
    fun header => (header.2.filter (· < 128)).map fun b => Char.ofNat b.toNat

/-- `"chunked" in transfer.lower()` -/
def isChunked (transfer : List Char) : Bool :=
  (lowerAscii transfer).tails.any ("chunked".toList.isPrefixOf ·)

/-- What `_run` raises before it calls the application. -/
def check (headers : HeaderLines) : Except Exc Unit :=
  if limits.maxHeaderCount < headers.length then .error (.http limits.tooMany [])
  else if headers.any (limits.maxSingleHeaderBytes < size ·) then
    .error (.http limits.singleTooLarge [])
  else if limits.maxTotalHeaderBytes < (headers.map size).sum then
    .error (.http limits.totalTooLarge [])
  else if !limits.allowChunked && (transferEncoding headers).any isChunked then
    .error (.http chunkedNotAllowed [])
  else .ok ()

/-- `__call__` -/
def call (app : App CleanScope) : App CleanScope := fun scope =>
  if scope.type ≠ .http then app scope
  else answerRejections do
    ofOutcome (limits.check scope.headers)
    app scope

end HeaderLimits

-- ============================================================================
-- The layers together
-- ============================================================================

/-- What the settings say about these layers. -/
structure Edge where
  proxies : TrustedProxy
  docsEnabled : Bool
  rateLimit : RateLimitPolicy
  sanitization : HeaderSanitization
  limits : HeaderLimits

/-- The layers around the deadline `app`. -/
def Edge.call (edge : Edge) (app : App CleanScope) : App Scope :=
  requestCleanupCall <| trustedProxyCall edge.proxies <| requestContextCall <|
    securityHeadersCall finalSigma edge.docsEnabled <| rateLimitCall finalSigma edge.rateLimit <|
      sanitizationCall edge.sanitization <| edge.limits.call app

end QuickApi.Stack
