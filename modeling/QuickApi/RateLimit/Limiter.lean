/-
  QuickApi.RateLimit.Limiter

  The limiter itself (`app/config/rate_limiter.py`): an ordered dictionary from
  identity digests to rings of admission times, pruned lazily.  Each function
  has its specification right behind it, in terms of the ring contents and of
  the dictionary entries.
-/

import QuickApi.Lib.OrderedDict
import QuickApi.Lib.SortedList
import QuickApi.RateLimit.Policy
import Mathlib.Tactic.Linarith

namespace QuickApi.RateLimit

open QuickApi.Lib

/-- One bounded rolling-window store.  `Key` is the type of identity digests. -/
structure RateLimiter (policy : RateLimitPolicy) (Key : Type) where
  clients : OrderedDict Key (RateLimitState policy.maxRequests)
  storedRequests : Int

namespace RateLimiter

variable {policy : RateLimitPolicy} {Key : Type}

/-- `RateLimiter(window_ms, max_requests, max_clients)` -/
def new (policy : RateLimitPolicy) (Key : Type) : RateLimiter policy Key where
  clients := OrderedDict.empty
  storedRequests := 0

/-- The `usage` property. -/
def usage (limiter : RateLimiter policy Key) : RateLimitUsage where
  clients := limiter.clients.size
  storedRequests := limiter.storedRequests
  timestampSlots := limiter.clients.size * policy.maxRequests

-- ============================================================================
-- _expire_clients
-- ============================================================================

/-- The loop of `_expire_clients` over the remaining entries and the request counter. -/
def expireLoop (now : ℚ) :
    List (Key × RateLimitState policy.maxRequests) → Int →
      List (Key × RateLimitState policy.maxRequests) × Int
  | [], stored => ([], stored)
  | (key, client) :: rest, stored =>
      if client.expiresAt > now then ((key, client) :: rest, stored)
      else expireLoop now rest (stored - client.count)

/-- The loop drops the leading expired entries and nothing else. -/
theorem expireLoop_fst (now : ℚ) (entries : List (Key × RateLimitState policy.maxRequests))
    (stored : Int) :
    (expireLoop now entries stored).1
      = entries.dropWhile (fun e => decide (e.2.expiresAt ≤ now)) := by
  induction entries generalizing stored with
  | nil => rfl
  | cons e rest ih =>
      obtain ⟨key, client⟩ := e
      by_cases h : client.expiresAt > now
      · simp [expireLoop, h, not_le.mpr h]
      · simp [expireLoop, h, not_lt.mp h, ih]

/-- `_expire_clients(now)` -/
def expireClients (limiter : RateLimiter policy Key) (now : ℚ) : RateLimiter policy Key where
  clients := {
    entries := (expireLoop now limiter.clients.entries limiter.storedRequests).1
    nodupKeys := by
      rw [expireLoop_fst]
      exact (limiter.clients.popWhile _).nodupKeys }
  storedRequests := (expireLoop now limiter.clients.entries limiter.storedRequests).2

-- ============================================================================
-- Pruning one client
-- ============================================================================

/-- `while client.count and client.timestamps[client.head] <= cutoff`, recursing on the
    count; the counter of stored requests goes down with it. -/
def pruneLoop {capacity : Nat} (cutoff : ℚ) :
    Nat → RateLimitState capacity → Int → RateLimitState capacity × Int
  | 0, client, stored => (client, stored)
  | n + 1, client, stored =>
      if client.slot client.head ≤ cutoff then
        pruneLoop cutoff n
          { client with head := (client.head + 1) % capacity, count := n } (stored - 1)
      else (client, stored)

/-- The pruning loop started at the client's own count. -/
def prune {capacity : Nat} (cutoff : ℚ) (client : RateLimitState capacity) (stored : Int) :
    RateLimitState capacity × Int :=
  pruneLoop cutoff client.count client stored

/-- What the pruning loop leaves: the same ring without its leading old times. -/
structure PruneSpec {capacity : Nat} (cutoff : ℚ) (client pruned : RateLimitState capacity) :
    Prop where
  inRing : pruned.InRing
  contents : pruned.contents = client.contents.dropWhile (fun t => decide (t ≤ cutoff))
  expiresAt : pruned.expiresAt = client.expiresAt

theorem pruneLoop_spec {capacity : Nat} (cutoff : ℚ) (n : Nat)
    (client : RateLimitState capacity) (stored : Int) (hring : client.InRing)
    (hn : client.count = n) : PruneSpec cutoff client (pruneLoop cutoff n client stored).1 := by
  induction n generalizing client stored with
  | zero =>
      have hnil : client.contents = [] := List.eq_nil_of_length_eq_zero (by simp [hn])
      exact ⟨hring, by simp [pruneLoop, hnil], rfl⟩
  | succ n ih =>
      have hcons := RateLimitState.contents_eq_cons hring hn
      simp only [pruneLoop]
      split
      · next hold =>
        have hring' : { client with
            head := (client.head + 1) % capacity, count := n }.InRing :=
          ⟨Nat.mod_lt _ (Nat.lt_of_le_of_lt (Nat.zero_le _) hring.head_lt),
            by have := hring.count_le; simp only; omega⟩
        obtain ⟨h1, h2, h3⟩ := ih _ (stored - 1) hring' rfl
        refine ⟨h1, ?_, h3⟩
        rw [h2, hcons, List.dropWhile_cons_of_pos (by simpa using hold)]
      · next hfresh =>
        refine ⟨hring, ?_, rfl⟩
        rw [hcons, List.dropWhile_cons_of_neg (by simpa using hfresh)]

theorem prune_spec {capacity : Nat} (cutoff : ℚ) (client : RateLimitState capacity)
    (stored : Int) (hring : client.InRing) :
    PruneSpec cutoff client (prune cutoff client stored).1 :=
  pruneLoop_spec cutoff _ client stored hring rfl

-- ============================================================================
-- admit
-- ============================================================================

/-- `_reject(status, available_at, now)` -/
def reject (status : RejectStatus) (availableAt now : ℚ) : RateLimitDecision where
  allowed := false
  status := some status
  retryAfterSeconds := max 1 ⌈(availableAt - now) / 1000⌉

section
variable [DecidableEq Key]

/-- The part of `admit` behind the lookup: `client` is the stored ring of `key`
    (`known`), or a fresh one that is not in the dictionary yet. -/
def admitClient (limiter : RateLimiter policy Key) (key : Key) (known : Bool)
    (client : RateLimitState policy.maxRequests) (now : ℚ) :
    RateLimitDecision × RateLimiter policy Key :=
  let cutoff := now - policy.windowMs
  let pruned := prune cutoff client limiter.storedRequests
  let client := pruned.1
  if client.count = policy.maxRequests then
    -- The ring is pruned in place: a stored client keeps its position.
    (reject .tooManyRequests (client.slot client.head + policy.windowMs) now,
      { clients := if known then limiter.clients.set key client else limiter.clients
        storedRequests := pruned.2 })
  else
    let tail := (client.head + client.count) % policy.maxRequests
    let client := { client with
      timestamps := client.timestamps.setIfInBounds tail now
      count := client.count + 1
      expiresAt := now + policy.windowMs }
    ({ allowed := true },
      { clients := (limiter.clients.set key client).moveToEnd key
        storedRequests := pruned.2 + 1 })

/-- `admit(identity)` at clock reading `now`; `sha256` digests the UTF-8 identity. -/
def admitRequest (sha256 : String → Key) (limiter : RateLimiter policy Key) (identity : String)
    (now : ℚ) : RateLimitDecision × RateLimiter policy Key :=
  let key := sha256 identity
  let limiter := limiter.expireClients now
  match limiter.clients.get? key with
  | some client => limiter.admitClient key true client now
  | none =>
      if policy.maxClients ≤ limiter.clients.size then
        -- A full store is not empty, so the first entry exists.
        let earliest := (limiter.clients.entries.head?.map fun e => e.2.expiresAt).getD now
        (reject .serviceUnavailable earliest now, limiter)
      else limiter.admitClient key false (RateLimitState.new policy.maxRequests) now

/-- The decisions of a sequence of `admit` calls, each with its clock reading. -/
def run (sha256 : String → Key) :
    RateLimiter policy Key → List (String × ℚ) → List RateLimitDecision
  | _, [] => []
  | limiter, (identity, now) :: calls =>
      let answer := limiter.admitRequest sha256 identity now
      answer.1 :: run sha256 answer.2 calls

end

end RateLimiter

end QuickApi.RateLimit
