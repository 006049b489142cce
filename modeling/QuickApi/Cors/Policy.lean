/-
  QuickApi.Cors.Policy

  `CustomCORSASGIMiddleware` and `apply_cors_response_headers`
  (`app/common/middleware/cors.py`): the policy that a request reaches is put on
  every response to it, also on the 408 of the deadline outside.
-/

import QuickApi.Lib.CommaList
import QuickApi.Lib.HeaderList
import QuickApi.Lib.OrderedDict
import QuickApi.Lib.PythonText

namespace QuickApi.Cors

open QuickApi.Lib

-- ============================================================================
-- Header values: the bytes of Latin-1 texts
-- ============================================================================

/-- The header lines of a message; ASGI has their names in lower case. -/
abbrev HeaderLines := List (Bytes × Bytes)

/-- `c.isspace()` of the character of a byte -/
def isSpaceLatin1 (b : UInt8) : Bool :=
  (9 ≤ b && b ≤ 13) || (28 ≤ b && b ≤ 32) || b == 0x85 || b == 0xA0

/-- `text.lower()` -/
def lowerLatin1 (text : Bytes) : Bytes :=
  text.map fun b => if (65 ≤ b ∧ b ≤ 90) ∨ (0xC0 ≤ b ∧ b ≤ 0xDE ∧ b ≠ 0xD7) then b + 32 else b

/-- `text.upper()` of an ASCII text -/
def upperAscii (text : Bytes) : Bytes := text.map fun b => if 97 ≤ b ∧ b ≤ 122 then b - 32 else b

/-- `","` -/
def comma : UInt8 := 44

/-- `" "` -/
def blank : UInt8 := 32

/-- `"*"` -/
def star : Bytes := [42]

/-- `", ".join(texts)` -/
def joinComma (texts : List Bytes) : Bytes := [comma, blank].intercalate texts

def options : Bytes := encodeAscii "OPTIONS".toList
def vary : Bytes := encodeAscii "vary".toList
def originName : Bytes := encodeAscii "origin".toList
def requestMethod : Bytes := encodeAscii "access-control-request-method".toList
def requestHeaders : Bytes := encodeAscii "access-control-request-headers".toList
def allowOrigin : Bytes := encodeAscii "access-control-allow-origin".toList
def allowMethods : Bytes := encodeAscii "access-control-allow-methods".toList
def allowHeaders : Bytes := encodeAscii "access-control-allow-headers".toList
def exposeHeaders : Bytes := encodeAscii "access-control-expose-headers".toList
def maxAgeName : Bytes := encodeAscii "access-control-max-age".toList
def allowCredentials : Bytes := encodeAscii "access-control-allow-credentials".toList

-- ============================================================================
-- apply_cors_response_headers
-- ============================================================================

inductive Message where
  | start (status : Nat) (headers : HeaderLines)
  | body (data : Bytes) (moreBody : Bool)
deriving DecidableEq, Repr

/-- `scope['quickapi.cors_response_headers']` -/
abbrev Policy := OrderedDict Bytes Bytes

/-- The tokens of the `vary` lines. -/
def varyTokens (lines : HeaderLines) : List Bytes :=
  (valuesOf lines vary).flatMap (itemsOf comma isSpaceLatin1)

/-- The names that `vary` has to hold. -/
def requiredVary (method : Bytes) : List Bytes :=
  encodeAscii "Origin".toList ::
    if method = options then
      [encodeAscii "Access-Control-Request-Method".toList,
        encodeAscii "Access-Control-Request-Headers".toList]
    else []

/-- A text under its lower-case spelling. -/
def byLower (text : Bytes) : Bytes × Bytes := (lowerLatin1 text, text)

/-- The dictionary `vary`: a later spelling of a token takes the place of the earlier one. -/
def varyDict (method : Bytes) (lines : HeaderLines) : OrderedDict Bytes Bytes :=
  (OrderedDict.ofList ((varyTokens lines).map byLower)).setDefaults
    ((requiredVary method).map byLower)

/-- The new value of `vary`. -/
def varyValue (method : Bytes) (lines : HeaderLines) : Bytes :=
  let vary := varyDict method lines
  if star ∈ vary.keys then star else joinComma (vary.entries.map Prod.snd)

/-- The header lines of a response with the policy on them. -/
def withPolicy (policy : Policy) (method : Bytes) (lines : HeaderLines) : HeaderLines :=
  assignAll (assign lines vary (varyValue method lines)) policy.entries

def applyCorsResponseHeaders (policy : Option Policy) (method : Bytes) : Message → Message
  | .start status lines =>
      .start status (match policy with
        | some policy => withPolicy policy method lines
        | none => lines)
  | .body data moreBody => .body data moreBody

-- ============================================================================
-- CustomCORSASGIMiddleware
-- ============================================================================

/-- `opts_origin: str | list[str]` -/
inductive OriginOption where
  | one (text : List Char)
  | many (texts : List (List Char))

/-- The options; the settings have checked that methods and header names are ASCII. -/
structure Options where
  origin : OriginOption
  methods : List Bytes
  allowedHeaders : List Bytes
  exposedHeaders : List Bytes
  credentials : Bool := false
  maxAge : Int := 86400

/-- `self.opts_methods` -/
def Options.optsMethods (opts : Options) : List Bytes :=
  (OrderedDict.ofList (opts.methods.map fun m => (upperAscii m, ()))).keys

/-- A request, with headers that `decode` reads byte by byte. -/
structure Request where
  method : Bytes
  headers : HeaderLines
  ascii : ∀ e ∈ headers, (e.1 ++ e.2).all (· < 128) = true

/-- `_extract_headers`: the last line of a name counts. -/
def Request.extractHeaders (request : Request) : OrderedDict Bytes Bytes :=
  OrderedDict.ofList (request.headers.map fun e => (lowerBytes e.1, e.2))

/-- `headers.get('origin')` -/
def Request.origin (request : Request) : Option Bytes := request.extractHeaders.get? originName

/-- `not origin` is false: there is an origin, and it is not empty. -/
def Request.namedOrigin (request : Request) : Option Bytes := request.origin.filter (· ≠ [])

/-- `_is_allowed_origin` -/
def Options.isAllowedOrigin (opts : Options) (origin : Option Bytes) : Bool :=
  match origin.filter (· ≠ []) with
  | none => true
  | some origin =>
      let text := origin.map fun b => Char.ofNat b.toNat
      match opts.origin with
      | .one allowed => allowed = ['*'] || allowed = text
      | .many allowed => ['*'] ∈ allowed || text ∈ allowed

/-- The texts of the option. -/
def OriginOption.texts : OriginOption → List (List Char)
  | .one text => [text]
  | .many texts => texts

/-- An origin is allowed that is missing or empty, or that the option has, itself or as `*`. -/
theorem Options.isAllowedOrigin_eq_true_iff {opts : Options} {origin : Option Bytes} :
    opts.isAllowedOrigin origin = true ↔ ∀ value, origin = some value → value ≠ [] →
      ['*'] ∈ opts.origin.texts ∨ (value.map fun b => Char.ofNat b.toNat) ∈ opts.origin.texts := by
  cases origin with
  | none => exact iff_of_true rfl nofun
  | some value =>
      by_cases hnil : value = []
      · subst hnil
        exact iff_of_true rfl fun _ heq hne => absurd (Option.some.inj heq).symm hne
      · have hnamed : (some value).filter (· ≠ []) = some value :=
          Option.filter_some_pos (by simpa using hnil)
        rw [Options.isAllowedOrigin, hnamed]
        cases hopts : opts.origin with
        | one text =>
            simp only [OriginOption.texts, List.mem_singleton, Bool.or_eq_true, decide_eq_true_eq,
              Option.some.injEq, forall_eq', ne_eq, hnil, not_false_eq_true, forall_const]
            exact or_congr eq_comm eq_comm
        | many texts => simp [OriginOption.texts, hnil]

structure HTTPException where
  statusCode : Nat
  detail : Bytes
  headers : HeaderLines := []
deriving DecidableEq, Repr

/-- The items of `access-control-request-headers`; empty ones count as well. -/
def requestedHeaders (headers : OrderedDict Bytes Bytes) : List Bytes :=
  match headers.get? requestHeaders with
  | some value => (value.splitOn comma).map fun item => lowerLatin1 (trim isSpaceLatin1 item)
  | none => []

/-- A preflight request asks for a method or a header that is not allowed. -/
def Options.refusesPreflight (opts : Options) (headers : OrderedDict Bytes Bytes)
    (requestedMethod : Bytes) : Bool :=
  requestedMethod ∉ opts.optsMethods ||
    (requestedHeaders headers).any (· ∉ opts.allowedHeaders.map lowerLatin1)

/-- `response_headers.update({...})`, and the credentials. -/
def Options.fillPolicy (opts : Options) (policy : Policy) : Policy :=
  let policy := policy.update
    [(allowMethods, joinComma opts.optsMethods),
      (allowHeaders, joinComma opts.allowedHeaders),
      (exposeHeaders, joinComma opts.exposedHeaders),
      (maxAgeName, encodeAscii (toString opts.maxAge).toList)]
  if opts.credentials then policy.set allowCredentials (encodeAscii "true".toList) else policy

/-- The policy after `if origin:` -/
def originPolicy : Option Bytes → Policy
  | some origin => OrderedDict.empty.set allowOrigin origin
  | none => .empty

/-- How `_run_cors_logic` ends. -/
inductive Verdict where
  | rejected (exc : HTTPException)
  | answered
  | forwarded
deriving DecidableEq, Repr

/-- `_run_cors_logic`: the policy as far as it was filled, and the verdict. -/
def Options.runCorsLogic (opts : Options) (request : Request) : Policy × Verdict :=
  let headers := request.extractHeaders
  if !opts.isAllowedOrigin request.origin then
    (.empty, .rejected ⟨403, encodeAscii "CORS origin '".toList ++ request.origin.getD [] ++
      encodeAscii "' not allowed.".toList, []⟩)
  else
    let policy := originPolicy request.namedOrigin
    let asked := (headers.get? requestMethod).filter (· ≠ [])
    if request.namedOrigin.isSome ∧ request.method = options ∧
        asked.any (opts.refusesPreflight headers) then
      (policy, .rejected ⟨403,
        encodeAscii "CORS preflight method or headers not allowed.".toList, []⟩)
    else
      (opts.fillPolicy policy, if request.method = options then .answered else .forwarded)

/-- How the application ends a request: it returns, or it raises. -/
inductive Ending where
  | returned
  | http (exc : HTTPException)
  | error
deriving DecidableEq, Repr

/-- What a call does: it enters the application, and it sends messages. -/
inductive Event where
  | application
  | send (message : Message)
deriving DecidableEq, Repr

/-- The messages of `Response(status_code=204)` -/
def noContent : List Message := [.start 204 [], .body [] false]

/-- `__call__` of an HTTP scope. The messages of `app` and of `http_exception_handler` go
    through `send_wrapper`; `false` at the end says that an error leaves the middleware. -/
def Options.call (opts : Options) (app : Request → List Message × Ending)
    (handler : HTTPException → List Message) (request : Request) : List Event × Bool :=
  let (policy, verdict) := opts.runCorsLogic request
  let sendAll := List.map fun message =>
    Event.send (applyCorsResponseHeaders (some policy) request.method message)
  match verdict with
  | .rejected exc => (sendAll (handler exc), true)
  | .answered => (sendAll noContent, true)
  | .forwarded =>
      match app request with
      | (messages, .returned) => (.application :: sendAll messages, true)
      | (messages, .http exc) => (.application :: sendAll messages ++ sendAll (handler exc), true)
      | (messages, .error) => (.application :: sendAll messages, false)

/-- `send_timeout` of `request_timeout.py`: the 408 carries the policy of a request that has
    reached the middleware. -/
def Options.sendTimeout (opts : Options) (request : Request) (reached : Bool) (message : Message) :
    Message :=
  applyCorsResponseHeaders (if reached then some (opts.runCorsLogic request).1 else none)
    request.method message

end QuickApi.Cors
