/-
  QuickApi.Mutation.Record

  The stored idempotency record and the pure parts of a keyed execution:
  `read_key` and the hashes (`app/common/models/idempotency_model.py`), the
  entity (`app/database/entities/idempotency_orm.py`), `validate_response` and
  what `begin` makes of a record it finds
  (`app/common/services/idempotency_service.py`).
-/

import QuickApi.Fingerprint.Encode

namespace QuickApi.Mutation

open QuickApi.Fingerprint

-- ============================================================================
-- Exceptions, settings
-- ============================================================================

inductive Exc where
  /-- `asyncio.CancelledError` -/
  | cancelled
  /-- `RequestExpired`, a 408 -/
  | requestExpired (detail : String)
  /-- `HTTPException` -/
  | http (status : Nat) (detail : String)
  | runtimeError (message : String)
  | valueError (message : String)
  /-- an error of the driver or the server -/
  | database (message : String)
  /-- `sqlalchemy.exc.InvalidRequestError` and `PendingRollbackError` -/
  | invalidRequest (message : String)
  | other (name : String)
deriving DecidableEq, Repr

/-- The settings, and the two library functions whose results are only compared:
    `hashlib.sha256(…).hexdigest()` of a text, and whether `json.loads` accepts some bytes
    without a constant such as `NaN`. -/
structure Config where
  appName : Text
  database : Text
  /-- `IDEMPOTENCY_MAX_RESPONSE_BYTES`, which pydantic bounds -/
  maxResponseBytes : Nat
  one_le_maxResponseBytes : 1 ≤ maxResponseBytes
  maxResponseBytes_le : maxResponseBytes ≤ 65536
  sha256 : Text → Text
  jsonLoads : List UInt8 → Bool

/-- `RETENTION_SECONDS` -/
def retentionSeconds : Nat := 86400

/-- `KEY_ERROR` -/
def keyError : String :=
  "Idempotency-Key must be one opaque 1–128 character printable ASCII value without whitespace or commas."

-- ============================================================================
-- Keys and hashes
-- ============================================================================

/-- `[\x21-\x2b\x2d-\x7e]` -/
def isKeyChar (c : Char) : Bool :=
  (0x21 ≤ c.toNat && c.toNat ≤ 0x2b) || (0x2d ≤ c.toNat && c.toNat ≤ 0x7e)

/-- `read_key`, of the values of the `Idempotency-Key` headers. -/
def readKey : List Text → Except Exc (Option Text)
  | [] => .ok none
  | [value] =>
      if 1 ≤ value.length ∧ value.length ≤ 128 ∧ value.all isKeyChar then .ok (some value)
      else .error (.http 400 keyError)
  | _ => .error (.http 400 keyError)

/-- `digest`, of a normalized value. -/
def digest (cfg : Config) (v : Value) : Except Exc Text :=
  match encode v with
  | some text => .ok (cfg.sha256 text)
  | none => .error (.valueError "Fingerprint numbers must be finite.")

/-- `IdempotencyPolicy` as one request meets it: the caller scope it declares or computes, and
    what `resolve_route` gives. -/
structure Policy where
  operation : Text
  callerScope : Except Exc Text
  route : Except Exc Text

/-- What `begin` works out about the caller before it asks for the lock. -/
structure Identity where
  namespaceHash : Text
  caller : Text
  route : Text
  scopeHash : Text
deriving DecidableEq, Repr

/-- The lines of `begin` up to the scope hash. -/
def identify (cfg : Config) (policy : Policy) (key : Text) : Except Exc Identity := do
  let caller ← policy.callerScope
  if ¬ (1 ≤ caller.length ∧ caller.length ≤ 128) then
    throw (.runtimeError "Idempotency caller scope must contain 1–128 characters.")
  let namespaceHash ← digest cfg (.list [.str cfg.appName, .str cfg.database])
  let route ← policy.route
  let scopeHash ← digest cfg
    (.list [.str "idempotency-v1".toList, .str namespaceHash, .str caller, .str policy.operation,
      .str route, .str key])
  return ⟨namespaceHash, caller, route, scopeHash⟩

-- ============================================================================
-- The record
-- ============================================================================

/-- The values of the column `state`. -/
inductive RecordState where
  | processing
  | completed
deriving DecidableEq, Repr

/-- A row of `request_idempotency`; the times are those of `UTC_TIMESTAMP(3)` in
    milliseconds. -/
structure IdempotencyORM where
  scopeHash : Text
  namespaceHash : Text
  callerScope : Text
  operation : Text
  route : Text
  fingerprint : Text
  state : RecordState
  responseStatus : Option Nat
  responseBody : Option (List UInt8)
  completedAt : Option Nat
  expiresAt : Option Nat
deriving DecidableEq, Repr

namespace IdempotencyORM

/-- `IdempotencyORM(…, state='processing')` of `begin`. -/
def claim (policy : Policy) (identity : Identity) (fingerprint : Text) : IdempotencyORM where
  scopeHash := identity.scopeHash
  namespaceHash := identity.namespaceHash
  callerScope := identity.caller
  operation := policy.operation
  route := identity.route
  fingerprint := fingerprint
  state := .processing
  responseStatus := none
  responseBody := none
  completedAt := none
  expiresAt := none

/-- The values of the `UPDATE` in `IdempotencyRepository.complete`. -/
def complete (r : IdempotencyORM) (status : Nat) (body : List UInt8) (now : Nat) :
    IdempotencyORM :=
  { r with
    state := .completed
    responseStatus := some status
    responseBody := some body
    completedAt := some now
    expiresAt := some (now + retentionSeconds * 1000) }

/-- `expires_at > UTC_TIMESTAMP(3)`, false where it is null -/
def Unexpired (r : IdempotencyORM) (now : Nat) : Prop := ∃ e ∈ r.expiresAt, now < e

instance (r : IdempotencyORM) (now : Nat) : Decidable (r.Unexpired now) :=
  match h : r.expiresAt with
  | none => isFalse (by simp [Unexpired, h])
  | some e => decidable_of_iff (now < e) (by simp [Unexpired, h])

/-- `state='completed' AND expires_at <= UTC_TIMESTAMP(3)` -/
def Expired (r : IdempotencyORM) (now : Nat) : Prop :=
  r.state = .completed ∧ ∃ e ∈ r.expiresAt, e ≤ now

instance (r : IdempotencyORM) (now : Nat) : Decidable (r.Expired now) :=
  match h : r.expiresAt with
  | none => isFalse (by simp [Expired, h])
  | some e => decidable_of_iff (r.state = .completed ∧ e ≤ now) (by simp [Expired, h])

end IdempotencyORM

-- ============================================================================
-- Responses
-- ============================================================================

/-- A response as `handle` looks at it. -/
structure Response where
  /-- `isinstance(response, JSONResponse)` -/
  json : Bool
  /-- `response.background is not None` -/
  background : Bool
  status : Nat
  body : List UInt8
deriving DecidableEq, Repr

/-- `validate_response` -/
def validateResponse (cfg : Config) (status : Nat) (body : List UInt8) (limit : Nat) :
    Except Exc Unit :=
  if ¬ (200 ≤ status ∧ status < 300) ∨ limit < body.length then
    .error (.runtimeError "Prepared response exceeds the idempotency storage contract.")
  else if status = 204 ∨ status = 205 then
    if body ≠ [] then
      .error (.runtimeError "Bodyless idempotent responses must not contain JSON.")
    else .ok ()
  else if cfg.jsonLoads body then .ok ()
  else .error (.valueError "Prepared response must contain valid JSON.")

/-- What `begin` makes of a record it finds: a response to replay (status and body), or
    nothing where the record has expired. -/
def checkRecord (cfg : Config) (record : IdempotencyORM) (unexpired : Bool) (fingerprint : Text) :
    Except Exc (Option (Nat × List UInt8)) :=
  if record.state ≠ .completed then
    .error (.runtimeError "Unexpected persisted idempotency claim state.")
  else if unexpired then
    if record.fingerprint ≠ fingerprint then
      .error (.http 409 "Idempotency-Key was already used with a different payload.")
    else
      match record.responseStatus, record.responseBody with
      | some status, some body =>
          match validateResponse cfg status body 65536 with
          | .ok () => .ok (some (status, body))
          | .error e => .error e
      | _, _ => .error (.runtimeError "Stored idempotency response is incomplete.")
  else .ok none

-- ============================================================================
-- Replayable records
-- ============================================================================

/-- A record that can be replayed: completed, with a response that is valid under the fixed
    limit, and retained for a day. -/
structure Replayable (cfg : Config) (r : IdempotencyORM) : Prop where
  completed : r.state = .completed
  response : ∃ status body, r.responseStatus = some status ∧ r.responseBody = some body ∧
    validateResponse cfg status body 65536 = .ok ()
  retained : ∃ t, r.completedAt = some t ∧ r.expiresAt = some (t + retentionSeconds * 1000)

/-- A response that passes under one limit passes under a larger one. -/
theorem validateResponse_mono {cfg : Config} {status : Nat} {body : List UInt8} {limit limit' : Nat}
    (h : validateResponse cfg status body limit = .ok ()) (hle : limit ≤ limit') :
    validateResponse cfg status body limit' = .ok () := by
  unfold validateResponse at h ⊢
  by_cases hbad : ¬ (200 ≤ status ∧ status < 300) ∨ limit < body.length
  · rw [if_pos hbad] at h
    cases h
  · rw [if_neg hbad] at h
    rw [if_neg (fun hbad' => hbad (hbad'.imp_right fun hl => hle.trans_lt hl))]
    exact h

/-- A response that passed under the setting makes a replayable record. -/
theorem Replayable.of_complete {cfg : Config} {status : Nat} {body : List UInt8}
    (h : validateResponse cfg status body cfg.maxResponseBytes = .ok ()) (r : IdempotencyORM)
    (now : Nat) : Replayable cfg (r.complete status body now) where
  completed := rfl
  response := ⟨status, body, rfl, rfl, validateResponse_mono h cfg.maxResponseBytes_le⟩
  retained := ⟨now, rfl, rfl⟩

/-- `begin` never raises a `RuntimeError` over a replayable record, nor anything but the
    conflict. -/
theorem Replayable.checkRecord {cfg : Config} {r : IdempotencyORM} (h : Replayable cfg r)
    (unexpired : Bool) (fingerprint : Text) :
    checkRecord cfg r unexpired fingerprint = .ok none ∧ unexpired = false ∨
      (∃ status body, checkRecord cfg r unexpired fingerprint = .ok (some (status, body)) ∧
        r.fingerprint = fingerprint ∧ r.responseStatus = some status ∧ r.responseBody = some body) ∨
      checkRecord cfg r unexpired fingerprint =
        .error (.http 409 "Idempotency-Key was already used with a different payload.") ∧
        r.fingerprint ≠ fingerprint := by
  obtain ⟨status, body, hstatus, hbody, hvalid⟩ := h.response
  unfold Mutation.checkRecord
  rw [if_neg (not_not.mpr h.completed)]
  cases unexpired with
  | false => exact .inl ⟨rfl, rfl⟩
  | true =>
      rw [if_pos rfl]
      by_cases hf : r.fingerprint = fingerprint
      · refine .inr (.inl ⟨status, body, ?_, hf, hstatus, hbody⟩)
        rw [if_neg (not_not.mpr hf), hstatus, hbody]
        simp only [hvalid]
      · exact .inr (.inr ⟨if_pos hf, hf⟩)

/-- A response that is replayed is the one the record holds, under the same fingerprint. -/
theorem checkRecord_replays {cfg : Config} {r : IdempotencyORM} {unexpired : Bool}
    {fingerprint : Text} {status : Nat} {body : List UInt8}
    (h : checkRecord cfg r unexpired fingerprint = .ok (some (status, body))) :
    unexpired = true ∧ r.fingerprint = fingerprint ∧ r.responseStatus = some status ∧
      r.responseBody = some body := by
  unfold checkRecord at h
  split at h
  · cases h
  · split at h
    · next hu =>
        split at h
        · cases h
        · next hf =>
            split at h
            · next hstatus hbody =>
                split at h
                · obtain ⟨rfl, rfl⟩ : _ = status ∧ _ = body := by simpa using h
                  exact ⟨hu, not_not.mp hf, hstatus, hbody⟩
                · cases h
            · cases h
    · cases h

end QuickApi.Mutation
