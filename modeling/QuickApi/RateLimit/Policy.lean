/-
  QuickApi.RateLimit.Policy

  The bounds of a rolling-window limiter (`app/config/rate_limit_policy.py`)
  and the records it stores and returns (`app/common/store/rate_limit.py`).
-/

import QuickApi.Lib.Ring
import Mathlib.Data.Rat.Floor
import Mathlib.Algebra.Order.Field.Rat

namespace QuickApi.RateLimit

open QuickApi.Lib

-- ============================================================================
-- Policy
-- ============================================================================

/-- `MAX_TIMESTAMP_SLOTS` -/
def maxTimestampSlots : Nat := 2000000

/-- A limiter policy; every capacity is at least one. -/
structure RateLimitPolicy where
  windowMs : Nat
  maxRequests : Nat
  maxClients : Nat
  windowMs_pos : 1 ≤ windowMs
  maxRequests_pos : 1 ≤ maxRequests
  maxClients_pos : 1 ≤ maxClients

/-- Why a policy is refused: a field outside its range, or too much storage. -/
inductive PolicyError where
  | windowMs
  | maxRequests
  | maxClients
  | storage
deriving DecidableEq, Repr

/-- `RateLimitPolicy(window_ms=…, max_requests=…, max_clients=…)`: the field ranges are
    checked first, then `validate_storage`. -/
def RateLimitPolicy.validate (windowMs maxRequests maxClients : Int) :
    Except PolicyError RateLimitPolicy :=
  if hw : 1 ≤ windowMs ∧ windowMs ≤ 86400000 then
    if hr : 1 ≤ maxRequests ∧ maxRequests ≤ 10000 then
      if hc : 1 ≤ maxClients ∧ maxClients ≤ 100000 then
        if maxRequests * maxClients > maxTimestampSlots then .error .storage
        else .ok {
          windowMs := windowMs.toNat
          maxRequests := maxRequests.toNat
          maxClients := maxClients.toNat
          windowMs_pos := by omega
          maxRequests_pos := by omega
          maxClients_pos := by omega }
      else .error .maxClients
    else .error .maxRequests
  else .error .windowMs

/-- A validated policy never needs more than `maxTimestampSlots` timestamp slots. -/
theorem RateLimitPolicy.validate_slots {w r c : Int} {policy : RateLimitPolicy}
    (h : RateLimitPolicy.validate w r c = .ok policy) :
    policy.maxRequests * policy.maxClients ≤ maxTimestampSlots := by
  unfold RateLimitPolicy.validate at h
  split at h
  · split at h
    · next hr =>
      split at h
      · next hc =>
        split at h
        · exact absurd h (by simp)
        · next hslots =>
          cases h
          have hr0 : ((r.toNat : Nat) : Int) = r := Int.toNat_of_nonneg (by omega)
          have hc0 : ((c.toNat : Nat) : Int) = c := Int.toNat_of_nonneg (by omega)
          have : ((r.toNat * c.toNat : Nat) : Int) ≤ (maxTimestampSlots : Nat) := by
            rw [Nat.cast_mul, hr0, hc0]
            exact not_lt.mp hslots
          exact_mod_cast this
      · exact absurd h (by simp)
    · exact absurd h (by simp)
  · exact absurd h (by simp)

-- ============================================================================
-- Stored and returned records
-- ============================================================================

/-- One client's ring of admission times, `capacity` slots long. -/
structure RateLimitState (capacity : Nat) where
  timestamps : Vector ℚ capacity
  head : Nat
  count : Nat
  expiresAt : ℚ

/-- `RateLimitState.new(capacity)` -/
def RateLimitState.new (capacity : Nat) : RateLimitState capacity where
  timestamps := Vector.replicate capacity 0
  head := 0
  count := 0
  expiresAt := 0

/-- The two statuses of a rejection. -/
inductive RejectStatus where
  | tooManyRequests
  | serviceUnavailable
deriving DecidableEq, Repr

/-- The HTTP status of a rejection. -/
def RejectStatus.code : RejectStatus → Nat
  | .tooManyRequests => 429
  | .serviceUnavailable => 503

/-- What `admit` answers. -/
structure RateLimitDecision where
  allowed : Bool
  status : Option RejectStatus := none
  retryAfterSeconds : Int := 0
deriving DecidableEq, Repr

/-- What the `usage` property reports. -/
structure RateLimitUsage where
  clients : Nat
  storedRequests : Int
  timestampSlots : Nat
deriving DecidableEq, Repr

namespace RateLimitState

variable {capacity : Nat}

/-- The value of slot `i`. -/
def slot (client : RateLimitState capacity) (i : Nat) : ℚ := client.timestamps[i]?.getD 0

/-- The retained admission times, oldest first. -/
def contents (client : RateLimitState capacity) : List ℚ :=
  ringContents client.slot capacity client.head client.count

@[simp] theorem contents_length (client : RateLimitState capacity) :
    client.contents.length = client.count := ringContents_length ..

@[simp] theorem contents_new : (RateLimitState.new capacity).contents = [] := rfl

/-- Head and count stay inside the ring. -/
structure InRing (client : RateLimitState capacity) : Prop where
  head_lt : client.head < capacity
  count_le : client.count ≤ capacity

theorem inRing_new (h : 1 ≤ capacity) : (RateLimitState.new capacity).InRing :=
  ⟨h, Nat.zero_le _⟩

/-- A nonempty ring is its head slot followed by the ring with that slot released. -/
theorem contents_eq_cons {client : RateLimitState capacity} {n : Nat} (h : client.InRing)
    (hn : client.count = n + 1) :
    client.contents = client.slot client.head ::
      { client with head := (client.head + 1) % capacity, count := n }.contents := by
  unfold contents
  rw [hn, ringContents_succ _ _ h.head_lt]
  rfl

/-- Writing the slot behind the youngest time appends to the contents. -/
theorem contents_write {client : RateLimitState capacity} (h : client.InRing)
    (hroom : client.count < capacity) (now expiresAt : ℚ) :
    ({ client with
        timestamps := client.timestamps.setIfInBounds
          ((client.head + client.count) % capacity) now
        count := client.count + 1
        expiresAt := expiresAt } : RateLimitState capacity).contents
      = client.contents ++ [now] := by
  have hlt : (client.head + client.count) % capacity < capacity :=
    Nat.mod_lt _ (Nat.lt_of_le_of_lt (Nat.zero_le _) h.head_lt)
  apply ringContents_push hroom
  · simp [slot, hlt]
  · intro j hj
    simp [slot, Vector.getElem?_setIfInBounds_ne (Ne.symm hj)]

end RateLimitState

end QuickApi.RateLimit
