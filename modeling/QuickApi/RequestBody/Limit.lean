/-
  QuickApi.RequestBody.Limit

  `RequestBodyLimitASGIMiddleware` (`app/common/middleware/request_body_limit.py`):
  a declared length that is too large is refused before the application runs,
  and the body that arrives is counted as the application receives it.

  The application stands for the calls that it makes, in order: `receive()` with
  the message that the server has for it, and the replay channel in the scope.
-/

import QuickApi.HttpPolicy.Sanitization
import QuickApi.Fingerprint.Native
import QuickApi.Lib.IntText
import QuickApi.Lib.UnicodeCase

namespace QuickApi.RequestBody

open QuickApi.Lib
open QuickApi.Fingerprint (decodeUtf8)
open QuickApi.HttpPolicy (HTTPException)

-- ============================================================================
-- The limit
-- ============================================================================

structure BodyLimit where
  maxBodyBytes : Nat := 1048576
deriving DecidableEq, Repr

/-- What the middleware reads of a scope of type `http`. -/
structure Scope where
  path : List Char
  headers : List (Bytes × Bytes)
deriving DecidableEq, Repr

structure RequestBodyLimit where
  defaultLimit : BodyLimit
  routeOverrides : List (List Char × BodyLimit)

/-- `_select_limit` -/
def RequestBodyLimit.selectLimit (mw : RequestBodyLimit) (path : List Char) : BodyLimit :=
  ((mw.routeOverrides.find? fun override => override.1.isPrefixOf path).map Prod.snd).getD
    mw.defaultLimit

/-- `f"{numerator / denominator:.2f}"`, for a quotient that a float holds exactly. -/
def twoDecimals (numerator denominator : Nat) : List Char :=
  let hundredths := numerator * 100 / denominator
  let rest := 2 * (numerator * 100 % denominator)
  let rounded :=
    if rest < denominator ∨ rest = denominator ∧ hundredths % 2 = 0 then hundredths
    else hundredths + 1
  Nat.toDigits 10 (rounded / 100) ++ '.' :: Nat.toDigits 10 (rounded % 100 / 10) ++
    Nat.toDigits 10 (rounded % 10)

/-- `format_bytes` -/
def formatBytes (value : Nat) : List Char :=
  if value < 1024 then Nat.toDigits 10 value ++ " B".toList
  else if value < 1024 * 1024 then twoDecimals value 1024 ++ " KB".toList
  else if value < 1024 * 1024 * 1024 then twoDecimals value (1024 * 1024) ++ " MB".toList
  else twoDecimals value (1024 * 1024 * 1024) ++ " GB".toList

def invalidLength : HTTPException := ⟨413, "Invalid Content-Length header.".toList⟩

def tooLarge (maxBytes : Nat) : HTTPException :=
  ⟨413, "Request body exceeds maximum allowed size (limit = ".toList ++ formatBytes maxBytes ++
    ").".toList⟩

-- ============================================================================
-- The declared length
-- ============================================================================

/-- What `_run` raises before it calls the application. -/
inductive Failure where
  | http (exc : HTTPException)
  | unicodeDecode
deriving DecidableEq, Repr

/-- `{k.decode().lower(): v.decode() for k, v in headers}` -/
def decodedHeaders (finalSigma : List Char → List Char → Bool) (headers : List (Bytes × Bytes)) :
    Option (OrderedDict (List Char) (List Char)) :=
  (headers.mapM fun header =>
    (decodeUtf8 header.1).bind fun name =>
      (decodeUtf8 header.2).map fun value => (lower finalSigma name, value)).map
    OrderedDict.ofList

/-- The checks of the declared length. -/
def checkDeclared (maxBytes : Nat) (contentLength : Option (List Char)) :
    Except HTTPException Unit :=
  match contentLength with
  | none => .ok ()
  | some text =>
      match int text with
      | none => .error invalidLength
      | some declared =>
          if declared < 0 then .error invalidLength
          else if (maxBytes : Int) < declared then .error (tooLarge maxBytes)
          else .ok ()

-- ============================================================================
-- The body
-- ============================================================================

/-- A message of the server: `body` and `more_body` may be missing. -/
inductive Message where
  | request (body : Option Bytes) (moreBody : Option Bool)
  | disconnect
deriving DecidableEq, Repr

/-- `message.get("body", b"") or b""` of a request, and nothing of any other message. -/
def Message.chunk : Message → Bytes
  | .request body _ => body.getD []
  | .disconnect => []

/-- `total` and `body_chunks` -/
structure Channel where
  total : Nat
  bodyChunks : List Bytes
deriving DecidableEq, Repr

/-- `limited_receive`, with the message that `receive()` returns. -/
def limitedReceive (maxBytes : Nat) (st : Channel) (message : Message) :
    Except HTTPException Message × Channel :=
  if message.chunk = [] then (.ok message, st)
  else
    let total := st.total + message.chunk.length
    if maxBytes < total then (.error (tooLarge maxBytes), { st with total })
    else (.ok message, ⟨total, st.bodyChunks ++ [message.chunk]⟩)

/-- `replay_body` -/
def replayBody (st : Channel) : Message × Channel :=
  if st.bodyChunks = [] then (.request (some []) (some false), st)
  else (.request (some st.bodyChunks.flatten) (some false), { st with bodyChunks := [] })

/-- `send_wrapper` on the headers of a response start. -/
def responseHeaders (maxBytes : Nat) (st : Channel) (headers : List (Bytes × Bytes)) :
    List (Bytes × Bytes) :=
  headers ++ [(encodeAscii "x-body-limit-bytes".toList, encodeAscii (Nat.toDigits 10 maxBytes)),
    (encodeAscii "x-body-remaining-bytes".toList,
      encodeAscii (Nat.toDigits 10 (maxBytes - st.total)))]

/-- A call of the application. -/
inductive Call where
  | receive (message : Message)
  | replay
deriving DecidableEq, Repr

/-- What a call returns or raises. -/
inductive Outcome where
  | received (result : Except HTTPException Message)
  | replayed (message : Message)

def step (maxBytes : Nat) (st : Channel) : Call → Outcome × Channel
  | .receive message =>
      let (result, st) := limitedReceive maxBytes st message
      (.received result, st)
  | .replay =>
      let (message, st) := replayBody st
      (.replayed message, st)

/-- The calls one after the other. -/
def serve (maxBytes : Nat) : Channel → List Call → List Outcome × Channel
  | st, [] => ([], st)
  | st, call :: calls =>
      let (outcome, st) := step maxBytes st call
      let (outcomes, st) := serve maxBytes st calls
      (outcome :: outcomes, st)

/-- `_run`: what it raises before the application is called, or what the calls of the application
    return. -/
def RequestBodyLimit.run (finalSigma : List Char → List Char → Bool) (mw : RequestBodyLimit)
    (scope : Scope) (calls : List Call) : Except Failure (List Outcome × Channel) :=
  let maxBytes := (mw.selectLimit scope.path).maxBodyBytes
  match decodedHeaders finalSigma scope.headers with
  | none => .error .unicodeDecode
  | some headers =>
      match checkDeclared maxBytes (headers.get? "content-length".toList) with
      | .error exc => .error (.http exc)
      | .ok () => .ok (serve maxBytes ⟨0, []⟩ calls)

end QuickApi.RequestBody
