/-
  QuickApi.Stack.Asgi

  ASGI applications as programs over the two channels of a connection, the
  error responses that all layers share
  (`app/common/handlers/exception_handler.py`, `app/common/models/error_model.py`),
  and the wrappers that layers put around `receive` and `send`.
-/

import QuickApi.Cors.Policy
import QuickApi.Fingerprint.Encode
import QuickApi.HttpPolicy.Sanitization
import QuickApi.Lib.Interposition
import QuickApi.RateLimit.Policy
import QuickApi.RequestBody.Limit

namespace QuickApi.Stack

open QuickApi.Lib
open QuickApi.Cors (HeaderLines Message)
open QuickApi.Fingerprint (dumpsString)
open QuickApi.HttpPolicy (HTTPException)
open QuickApi.RateLimit (RateLimitDecision)

-- ============================================================================
-- Scopes, exceptions, operations
-- ============================================================================

/-- `RequestContextData` (`app/common/store/request_context.py`), and `scope["ctx"]` -/
structure RequestContextData where
  requestId : List Char
  method : List Char
  path : List Char
  ip : List Char
deriving DecidableEq, Repr

/-- What the layers read and write of an ASGI scope.  The method is ASCII, as the server
    decodes it. -/
structure Scope extends base : HttpPolicy.Scope where
  method : List Char
  path : List Char
  rootPath : List Char
  /-- `"client" in scope`; the value may still be `None` -/
  clientListed : Bool := true
  ctx : Option RequestContextData := none
  /-- `scope['quickapi.cors_response_headers']` -/
  corsResponseHeaders : Option Cors.Policy := none

/-- A scope behind the header sanitization. -/
structure CleanScope extends Scope where
  ascii : type = .http → ∀ e ∈ headers, (e.1 ++ e.2).all (· < 128) = true

/-- What `send` can raise: a `CancelledError`, or an `Exception` that is no `HTTPException`. -/
inductive Fault where
  | cancelled
  | other (name : String)
deriving DecidableEq, Repr

inductive Exc where
  /-- Starlette's `HTTPException` with its `headers` -/
  | http (exc : HTTPException) (headers : List (List Char × List Char))
  | fault (f : Fault)
deriving DecidableEq, Repr

/-- Messages of the server. -/
abbrev Inbound := RequestBody.Message

inductive LogLevel where
  | warning
  | error
deriving DecidableEq, Repr

/-- A call of `log`; the exception it carries is left out. -/
structure LogRecord where
  level : LogLevel
  event : String
  status : Nat
  requestId : Option (List Char) := none
deriving DecidableEq, Repr

/-- The operations of the layers. -/
inductive Op where
  | receive
  | send (message : Message)
  /-- `self.limiter.admit(identity)` -/
  | admitRequest (identity : List Char)
  /-- `uuid.uuid4().hex[:8]` -/
  | requestId
  /-- `int(datetime.now(UTC).timestamp() * 1_000)` -/
  | timestamp
  | log (record : LogRecord)
deriving DecidableEq

def Ans : Op → Type
  | .receive => Except Exc Inbound
  | .send _ => Except Fault Unit
  | .admitRequest _ => RateLimitDecision
  | .requestId => List Char
  | .timestamp => Nat
  | .log _ => Unit

/-- The context variables of the task. -/
structure Vars where
  /-- `_request_context` -/
  requestContext : Option RequestContextData
  /-- the variables that `structlog.contextvars` has bound -/
  bound : List (String × List Char)
deriving DecidableEq, Repr

abbrev Task (α : Type) := Program Op Ans Vars Exc α

/-- `async def __call__(self, scope, receive, send)` -/
abbrev App (S : Type) := S → Task Unit

/-- `await receive()` -/
def receive : Task Inbound := do
  let answer : Except Exc Inbound ← Program.perform Op.receive
  match answer with
  | .ok message => pure message
  | .error exc => Program.raise exc

/-- `await send(message)` -/
def send (message : Message) : Task Unit := do
  let answer : Except Fault Unit ← Program.perform (Op.send message)
  match answer with
  | .ok () => pure ()
  | .error fault => Program.raise (.fault fault)

/-- `log.warning(event, status=…)` and `log.error(event, status=…, …)` -/
def log (record : LogRecord) : Task Unit := Program.perform (Op.log record)

-- ============================================================================
-- Responses
-- ============================================================================

/-- A Starlette response. -/
structure Response where
  statusCode : Nat
  rawHeaders : HeaderLines
  body : Bytes

/-- `await response(scope, receive, send)` -/
def Response.call (response : Response) : Task Unit := do
  send (.start response.statusCode response.rawHeaders)
  send (.body response.body false)

/-- `text.encode("utf-8")` -/
def encodeUtf8 (text : List Char) : Bytes := text.flatMap String.utf8EncodeChar

/-- `b"content-length"` -/
def contentLength : Bytes := encodeAscii "content-length".toList

/-- `b"content-type"` -/
def contentType : Bytes := encodeAscii "content-type".toList

/-- The header lines of `JSONResponse(status_code, content, headers)`. -/
def jsonHeaders (status : Nat) (headers : List (List Char × List Char)) (body : Bytes) :
    HeaderLines :=
  let raw := headers.map fun header => (encodeAscii (lowerAscii header.1), encodeAscii header.2)
  let keys := raw.map Prod.fst
  let length :=
    if contentLength ∈ keys ∨ status < 200 ∨ status ∈ [204, 304] then []
    else [(contentLength, encodeAscii (Nat.toDigits 10 body.length))]
  let type :=
    if contentType ∈ keys then [] else [(contentType, encodeAscii "application/json".toList)]
  raw ++ length ++ type

/-- The JSON of an `ErrorResponse`. -/
def errorJson (status : Nat) (message : List Char) (timestamp : Nat) : List Char :=
  "\x7b\"status\":".toList ++ Nat.toDigits 10 status ++ ",\"message\":".toList ++
    dumpsString message ++ ",\"timestamp\":".toList ++ Nat.toDigits 10 timestamp ++ "\x7d".toList

/-- `error_response` -/
def errorResponse (status : Nat) (message : List Char)
    (headers : List (List Char × List Char) := []) : Task Response := do
  let timestamp : Nat ← Program.perform Op.timestamp
  let body := encodeUtf8 (errorJson status message timestamp)
  pure ⟨status, jsonHeaders status headers body, body⟩

/-- `http_exception_handler`; every `detail` here is a text. -/
def httpExceptionHandler (exc : HTTPException) (headers : List (List Char × List Char)) :
    Task Response := do
  if exc.statusCode < 500 then
    log ⟨.warning, "HTTP request rejected.", exc.statusCode, none⟩
  else
    log ⟨.error, "HTTP request failed.", exc.statusCode, none⟩
  errorResponse exc.statusCode exc.detail headers

/-- `unhandled_exception_handler` -/
def unhandledExceptionHandler (scope : Scope) : Task Response := do
  log ⟨.error, "HTTP request failed.", 500, scope.ctx.map RequestContextData.requestId⟩
  errorResponse 500 "Internal Server Error".toList

/-- `raise HTTPException(status_code, detail)` -/
def reject (exc : HTTPException) : Task Unit := Program.raise (.http exc [])

/-- `try: await self._run(...)`, `except HTTPException as exc:` with the response to it. -/
def answerRejections (run : Task Unit) : Task Unit :=
  run.handle fun
    | .http exc headers => do
        let response ← httpExceptionHandler exc headers
        response.call
    | .fault f => Program.raise (.fault f)

-- ============================================================================
-- Wrappers
-- ============================================================================

/-- The `receive` and `send` that a layer hands to the application, by their `nonlocal`
    variables: what becomes of a message before it is sent, and of what was received. -/
structure Wrapper (τ : Type) where
  send : τ → Message → Message × τ
  receive : τ → Except Exc Inbound → Except Exc Inbound × τ

namespace Wrapper

variable {τ : Type}

/-- The wrapper handles the two channels and leaves the other operations alone. -/
def layer (w : Wrapper τ) : Layer Op Ans Vars τ
  | t, .send message, s =>
      .call s (.send (w.send t message).1) fun a s' => .ret s' (a, (w.send t message).2)
  | t, .receive, s => .call s .receive fun a s' => .ret s' (w.receive t a)
  | t, .admitRequest identity, s => .call s (.admitRequest identity) fun a s' => .ret s' (a, t)
  | t, .requestId, s => .call s .requestId fun a s' => .ret s' (a, t)
  | t, .timestamp, s => .call s .timestamp fun a s' => .ret s' (a, t)
  | t, .log record, s => .call s (.log record) fun a s' => .ret s' (a, t)

/-- `send_wrapper` of a layer that only changes messages. -/
def onSend (f : Message → Message) : Wrapper Unit where
  send t message := (f message, t)
  receive t answer := (answer, t)

end Wrapper

/-- `await self.app(scope, receive_wrapper, send_wrapper)`: its outcome and the variables. -/
def wrapped {τ : Type} (w : Wrapper τ) (t : τ) (run : Task Unit) : Task (Except Exc Unit × τ) :=
  run.through w.layer t

/-- The outcome of an awaited call goes on. -/
def ofOutcome : Except Exc Unit → Task Unit
  | .ok () => pure ()
  | .error exc => Program.raise exc

/-- Header lines behind those of a response start. -/
def appendHeaders (lines : HeaderLines) : Message → Message
  | .start status headers => .start status (headers ++ lines)
  | .body data moreBody => .body data moreBody

end QuickApi.Stack
