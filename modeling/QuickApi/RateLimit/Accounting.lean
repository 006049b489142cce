/-
  QuickApi.RateLimit.Accounting

  The storage of the limiter: the request counter against the rings, the order
  of the entries, and the bounds of `usage`, after any sequence of `admit`
  calls.  No assumption on the digest is needed.
-/

import QuickApi.RateLimit.RetryAfter
import Mathlib.Algebra.BigOperators.Group.List.Basic

namespace QuickApi.RateLimit

open QuickApi.Lib

variable {policy : RateLimitPolicy} {Key : Type}

-- ============================================================================
-- The invariant
-- ============================================================================

/-- A stored ring: some times, in order and not in the future, the last of which the expiry is
    taken from. -/
structure RingStored (policy : RateLimitPolicy) (client : RateLimitState policy.maxRequests)
    (now : ℚ) : Prop where
  inRing : client.InRing
  count_pos : 1 ≤ client.count
  ordered : client.contents.Pairwise (· ≤ ·)
  past : ∀ t ∈ client.contents, t ≤ now
  youngest : client.contents.getLast? = some (client.expiresAt - policy.windowMs)

namespace RingStored

variable {client : RateLimitState policy.maxRequests} {now later : ℚ}

theorem mono (h : RingStored policy client now) (hle : now ≤ later) :
    RingStored policy client later :=
  ⟨h.inRing, h.count_pos, h.ordered, fun t ht => (h.past t ht).trans hle, h.youngest⟩

theorem expiresAt_le (h : RingStored policy client now) :
    client.expiresAt ≤ now + policy.windowMs := by
  have := h.past _ (List.mem_of_getLast? h.youngest)
  linarith

end RingStored

/-- The sum of the counts of the stored rings. -/
def storedCount (entries : List (Key × RateLimitState policy.maxRequests)) : Int :=
  (entries.map fun e => (e.2.count : Int)).sum

@[simp] theorem storedCount_nil :
    storedCount ([] : List (Key × RateLimitState policy.maxRequests)) = 0 := rfl

@[simp] theorem storedCount_cons (e : Key × RateLimitState policy.maxRequests)
    (entries : List (Key × RateLimitState policy.maxRequests)) :
    storedCount (e :: entries) = e.2.count + storedCount entries := List.sum_cons

@[simp] theorem storedCount_append (entries others : List (Key × RateLimitState policy.maxRequests)) :
    storedCount (entries ++ others) = storedCount entries + storedCount others := by
  rw [storedCount, List.map_append, List.sum_append]
  rfl

theorem storedCount_perm {entries others : List (Key × RateLimitState policy.maxRequests)}
    (h : entries.Perm others) : storedCount entries = storedCount others :=
  (h.map _).sum_eq

/-- The counter is the sum of the counts, the rings are as stored, the next expiry comes first,
    and there are no more clients than may be. -/
structure Accounted (limiter : RateLimiter policy Key) (now : ℚ) : Prop where
  counter : limiter.storedRequests = storedCount limiter.clients.entries
  rings : ∀ e ∈ limiter.clients.entries, RingStored policy e.2 now
  expiryOrder : limiter.clients.entries.Pairwise fun a b => a.2.expiresAt ≤ b.2.expiresAt
  size_le : limiter.clients.size ≤ policy.maxClients

theorem accounted_new (policy : RateLimitPolicy) (Key : Type) (now : ℚ) :
    Accounted (RateLimiter.new policy Key) now :=
  ⟨rfl, nofun, List.Pairwise.nil, Nat.zero_le _⟩

-- ============================================================================
-- Expiring and pruning
-- ============================================================================

namespace RateLimiter

/-- The counter goes down with the entries that are dropped. -/
theorem expireLoop_snd (now : ℚ) (entries : List (Key × RateLimitState policy.maxRequests))
    (stored : Int) :
    (expireLoop now entries stored).2 =
      stored - storedCount entries + storedCount (expireLoop now entries stored).1 := by
  induction entries generalizing stored with
  | nil => simp [expireLoop, storedCount]
  | cons e rest ih =>
      obtain ⟨key, client⟩ := e
      rw [expireLoop]
      split
      · ring
      · rw [ih, storedCount_cons]
        ring

theorem expireClients_suffix (limiter : RateLimiter policy Key) (now : ℚ) :
    (limiter.expireClients now).clients.entries <:+ limiter.clients.entries := by
  simp only [expireClients, expireLoop_fst]
  exact List.dropWhile_suffix _

/-- The counter goes down with the times that are pruned. -/
theorem pruneLoop_snd {capacity : Nat} (cutoff : ℚ) (n : Nat) (client : RateLimitState capacity)
    (stored : Int) (hn : client.count = n) :
    (pruneLoop cutoff n client stored).2 =
      stored - n + (pruneLoop cutoff n client stored).1.count := by
  induction n generalizing client stored with
  | zero => simp [pruneLoop, hn]
  | succ n ih =>
      rw [pruneLoop]
      split
      · rw [ih _ _ rfl]
        push_cast
        ring
      · simp [hn]

theorem pruneLoop_count_le {capacity : Nat} (cutoff : ℚ) (n : Nat)
    (client : RateLimitState capacity) (stored : Int) (hn : client.count = n) :
    (pruneLoop cutoff n client stored).1.count ≤ n := by
  induction n generalizing client stored with
  | zero => simp [pruneLoop, hn]
  | succ n ih =>
      rw [pruneLoop]
      split
      · exact (ih _ _ rfl).trans (Nat.le_succ n)
      · exact hn.le

/-- Pruning that leaves as many times as there were has done nothing. -/
theorem pruneLoop_eq_self {capacity : Nat} (cutoff : ℚ) (n : Nat)
    (client : RateLimitState capacity) (stored : Int) (hn : client.count = n)
    (h : (pruneLoop cutoff n client stored).1.count = n) :
    pruneLoop cutoff n client stored = (client, stored) := by
  cases n with
  | zero => rfl
  | succ n =>
      rw [pruneLoop] at h ⊢
      split
      · next hold =>
          rw [if_pos hold] at h
          have := pruneLoop_count_le cutoff n
            { client with head := (client.head + 1) % capacity, count := n } (stored - 1) rfl
          omega
      · rfl

end RateLimiter

variable {limiter : RateLimiter policy Key} {before now : ℚ}

theorem Accounted.expireClients (h : Accounted limiter before) (hle : before ≤ now) :
    Accounted (limiter.expireClients now) now where
  counter := by
    simp only [RateLimiter.expireClients, RateLimiter.expireLoop_snd, h.counter]
    ring
  rings e he := (h.rings e ((limiter.expireClients_suffix now).subset he)).mono hle
  expiryOrder := h.expiryOrder.sublist (limiter.expireClients_suffix now).sublist
  size_le := (limiter.expireClients_suffix now).length_le.trans h.size_le

-- ============================================================================
-- One call
-- ============================================================================

section
variable {key : Key} {client : RateLimitState policy.maxRequests} {known : Bool}

/-- The ring that `admit` goes on with: the stored one, or a fresh one of a client that there is
    room for. -/
def RingOf (limiter : RateLimiter policy Key) (key : Key) (known : Bool)
    (client : RateLimitState policy.maxRequests) (now : ℚ) : Prop :=
  if known then (key, client) ∈ limiter.clients.entries ∧ RingStored policy client now
  else client = RateLimitState.new policy.maxRequests ∧ key ∉ limiter.clients.keys ∧
    limiter.clients.size < policy.maxClients

theorem RingOf.inRing (h : RingOf limiter key known client now) : client.InRing := by
  cases known with
  | true => exact h.2.inRing
  | false =>
      obtain ⟨rfl, -⟩ := h
      exact RateLimitState.inRing_new policy.maxRequests_pos

theorem RingOf.ordered (h : RingOf limiter key known client now) :
    client.contents.Pairwise (· ≤ ·) ∧ ∀ t ∈ client.contents, t ≤ now := by
  cases known with
  | true => exact ⟨h.2.ordered, h.2.past⟩
  | false =>
      obtain ⟨rfl, -⟩ := h
      exact ⟨List.Pairwise.nil, nofun⟩

variable [DecidableEq Key]

/-- The other entries, and what they count. -/
theorem RingOf.others (h : RingOf limiter key known client now) :
    storedCount limiter.clients.entries =
        client.count + storedCount (limiter.clients.entries.filter fun e => e.1 ≠ key) ∧
      (limiter.clients.entries.filter fun e => e.1 ≠ key).length + 1 ≤
        max limiter.clients.size policy.maxClients := by
  cases known with
  | true =>
      have hperm := OrderedDict.filter_ne_perm h.1
      refine ⟨(storedCount_perm hperm).trans (storedCount_cons _ _), ?_⟩
      have hlength := hperm.length_eq
      rw [List.length_cons] at hlength
      exact le_max_of_le_left hlength.ge
  | false =>
      obtain ⟨rfl, hkey, hroom⟩ := h
      have hfilter : (limiter.clients.entries.filter fun e => e.1 ≠ key) =
          limiter.clients.entries := by
        refine List.filter_eq_self.mpr fun e he => decide_eq_true ?_
        rintro rfl
        exact hkey (List.mem_map_of_mem he)
      rw [hfilter]
      exact ⟨by simp [RateLimitState.new], le_max_of_le_right hroom⟩

/-- The ring of an admitted request, behind its pruning. -/
theorem ringStored_push {pruned : RateLimitState policy.maxRequests}
    (hordered : client.contents.Pairwise (· ≤ ·)) (hpast : ∀ t ∈ client.contents, t ≤ now)
    (hspec : RateLimiter.PruneSpec (now - policy.windowMs) client pruned)
    (hroom : pruned.count < policy.maxRequests) :
    RingStored policy
      { pruned with
        timestamps := pruned.timestamps.setIfInBounds
          ((pruned.head + pruned.count) % policy.maxRequests) now
        count := pruned.count + 1
        expiresAt := now + policy.windowMs } now := by
  have hcontents := RateLimitState.contents_write hspec.inRing hroom now (now + policy.windowMs)
  have hsublist : pruned.contents.Sublist client.contents := by
    rw [hspec.contents]
    exact List.dropWhile_sublist _
  have hpast' : ∀ t ∈ pruned.contents, t ≤ now := fun t ht => hpast t (hsublist.subset ht)
  refine ⟨⟨hspec.inRing.head_lt, hroom⟩, Nat.le_add_left 1 _, ?_, ?_, ?_⟩
  · rw [hcontents, List.pairwise_append]
    refine ⟨hordered.sublist hsublist, List.pairwise_singleton _ _, fun t ht t' ht' => ?_⟩
    rw [List.mem_singleton.mp ht']
    exact hpast' t ht
  · intro t ht
    rw [hcontents, List.mem_append, List.mem_singleton] at ht
    exact ht.elim (hpast' t) le_of_eq
  · rw [hcontents]
    simp

/-- An admitted request is counted; a rejected one leaves the store as it is. -/
theorem Accounted.admitClient (h : Accounted limiter now)
    (hring : RingOf limiter key known client now) :
    Accounted (limiter.admitClient key known client now).2 now ∧
      ((limiter.admitClient key known client now).1.allowed = false →
        (limiter.admitClient key known client now).2.clients.entries =
          limiter.clients.entries) := by
  obtain ⟨hordered, hpast⟩ := hring.ordered
  have hspec := RateLimiter.prune_spec (now - policy.windowMs) client limiter.storedRequests
    hring.inRing
  have hstored := RateLimiter.pruneLoop_snd (now - policy.windowMs) client.count client
    limiter.storedRequests rfl
  rw [← RateLimiter.prune] at hstored
  have hle := RateLimiter.pruneLoop_count_le (now - policy.windowMs) client.count client
    limiter.storedRequests rfl
  have hself := RateLimiter.pruneLoop_eq_self (now - policy.windowMs) client.count client
    limiter.storedRequests rfl
  rw [← RateLimiter.prune] at hle hself
  unfold RateLimiter.admitClient
  dsimp only
  generalize RateLimiter.prune (now - policy.windowMs) client limiter.storedRequests =
    pruned at hspec hstored hle hself ⊢
  split
  · next hfull =>
      -- a full ring has had nothing to prune
      have hcount : client.count = policy.maxRequests :=
        le_antisymm hring.inRing.count_le (hfull.symm.trans_le hle)
      obtain rfl := hself (hfull.trans hcount.symm)
      cases known with
      | false =>
          obtain ⟨rfl, -⟩ := hring
          have := policy.maxRequests_pos
          simp only [RateLimitState.new] at hcount
          omega
      | true =>
          have hentries := OrderedDict.set_entries_of_mem hring.1
          refine ⟨⟨?_, ?_, ?_, ?_⟩, fun _ => hentries⟩
          · simpa [hentries] using h.counter
          · simpa [hentries] using h.rings
          · simpa [hentries] using h.expiryOrder
          · simpa [OrderedDict.size, hentries] using h.size_le
  · next hroom =>
      have hlt : pruned.1.count < policy.maxRequests :=
        lt_of_le_of_ne hspec.inRing.count_le hroom
      obtain ⟨hsum, hlength⟩ := hring.others
      refine ⟨⟨?_, ?_, ?_, ?_⟩, fun hrejected => Bool.noConfusion hrejected⟩
      · rw [OrderedDict.set_moveToEnd_entries, storedCount_append, hstored, h.counter, hsum]
        simp only [storedCount_cons, storedCount_nil]
        push_cast
        ring
      · intro e he
        rw [OrderedDict.set_moveToEnd_entries, List.mem_append, List.mem_singleton] at he
        obtain he | rfl := he
        · exact h.rings e (List.mem_filter.mp he).1
        · exact ringStored_push hordered hpast hspec hlt
      · rw [OrderedDict.set_moveToEnd_entries, List.pairwise_append]
        refine ⟨h.expiryOrder.sublist List.filter_sublist, List.pairwise_singleton _ _, ?_⟩
        intro e he e' he'
        rw [List.mem_singleton.mp he']
        exact (h.rings e (List.mem_filter.mp he).1).expiresAt_le
      · rw [OrderedDict.size, OrderedDict.set_moveToEnd_entries, List.length_append]
        exact hlength.trans (max_le h.size_le le_rfl)

/-- A call keeps the accounts; one that is rejected only lets expired clients go. -/
theorem Accounted.admitRequest (h : Accounted limiter before) (hle : before ≤ now)
    (sha256 : String → Key) (identity : String) :
    Accounted (limiter.admitRequest sha256 identity now).2 now ∧
      ((limiter.admitRequest sha256 identity now).1.allowed = false →
        (limiter.admitRequest sha256 identity now).2.clients.entries <:+
          limiter.clients.entries) := by
  have hexpired := h.expireClients hle
  have hsuffix := limiter.expireClients_suffix now
  have hclient (known : Bool) {client : RateLimitState policy.maxRequests}
      (hring : RingOf (limiter.expireClients now) (sha256 identity) known client now) :
      Accounted ((limiter.expireClients now).admitClient (sha256 identity) known client now).2
          now ∧
        (((limiter.expireClients now).admitClient (sha256 identity) known client
            now).1.allowed = false →
          ((limiter.expireClients now).admitClient (sha256 identity) known client
            now).2.clients.entries <:+ limiter.clients.entries) := by
    obtain ⟨hkept, hsame⟩ := hexpired.admitClient hring
    exact ⟨hkept, fun hrejected => (hsame hrejected).symm ▸ hsuffix⟩
  unfold RateLimiter.admitRequest
  dsimp only
  cases hget : (limiter.expireClients now).clients.get? (sha256 identity) with
  | some client =>
      have hmem := OrderedDict.get?_eq_some_iff.mp hget
      exact hclient true ⟨hmem, hexpired.rings _ hmem⟩
  | none =>
      dsimp only
      split
      · exact ⟨hexpired, fun _ => hsuffix⟩
      · next hroom =>
          exact hclient false
            ⟨rfl, OrderedDict.get?_eq_none_iff.mp hget, not_le.mp hroom⟩

theorem accounted_after {sha256 : String → Key} (h : Accounted limiter before)
    {calls : List (String × ℚ)} (hclock : (before :: calls.map Prod.snd).Pairwise (· ≤ ·)) :
    ∃ last ∈ before :: calls.map Prod.snd, Accounted (limiter.after sha256 calls) last := by
  induction calls generalizing limiter before with
  | nil => exact ⟨before, List.mem_cons_self, h⟩
  | cons call calls ih =>
      obtain ⟨identity, now⟩ := call
      obtain ⟨hbefore, hrest⟩ := List.pairwise_cons.mp hclock
      have hstep := (h.admitRequest (hbefore now List.mem_cons_self) sha256 identity).1
      obtain ⟨last, hmem, hlast⟩ := ih hstep hrest
      exact ⟨last, List.mem_cons_of_mem _ hmem, hlast⟩

theorem accounted_new_after (policy : RateLimitPolicy) (sha256 : String → Key)
    {calls : List (String × ℚ)} (hclock : (calls.map Prod.snd).Pairwise (· ≤ ·)) (now : ℚ)
    (hnow : ∀ t ∈ calls.map Prod.snd, t ≤ now) :
    ∃ last, last ≤ now ∧ Accounted ((RateLimiter.new policy Key).after sha256 calls) last := by
  cases calls with
  | nil => exact ⟨now, le_rfl, accounted_new policy Key now⟩
  | cons call calls =>
      obtain ⟨hfirst, hrest⟩ := List.pairwise_cons.mp hclock
      have hclock' : (call.2 :: (call :: calls).map Prod.snd).Pairwise (· ≤ ·) :=
        List.pairwise_cons.mpr ⟨fun t ht => (List.mem_cons.mp ht).elim (fun h => h ▸ le_rfl)
          (hfirst t), hclock⟩
      obtain ⟨last, hmem, hlast⟩ := accounted_after (accounted_new policy Key call.2) hclock'
      refine ⟨last, ?_, hlast⟩
      obtain rfl | hmem := List.mem_cons.mp hmem
      · exact hnow _ List.mem_cons_self
      · exact hnow last hmem

/-- After any calls by a clock that does not go back, the counter is the number of retained times,
    every ring is ordered and ends with the time that its expiry is taken from, the clients stand
    in the order of their expiry, and `usage` is bounded; a rejection only lets clients go that
    have expired, in front of the others. -/
theorem storage_accounted (windowMs maxRequests maxClients : Int) (policy : RateLimitPolicy)
    (hpolicy : RateLimitPolicy.validate windowMs maxRequests maxClients = .ok policy)
    (sha256 : String → Key) (calls : List (String × ℚ))
    (hclock : (calls.map Prod.snd).Pairwise (· ≤ ·)) :
    let limiter := (RateLimiter.new policy Key).after sha256 calls
    (limiter.storedRequests = storedCount limiter.clients.entries ∧
        limiter.storedRequests =
          (limiter.clients.entries.flatMap fun e => e.2.contents).length) ∧
      (∀ e ∈ limiter.clients.entries,
        (1 ≤ e.2.count ∧ e.2.count ≤ policy.maxRequests) ∧
          e.2.contents.Pairwise (· ≤ ·) ∧
          e.2.contents.getLast?.map (· + (policy.windowMs : ℚ)) = some e.2.expiresAt) ∧
      (limiter.clients.entries.Pairwise fun a b => a.2.expiresAt ≤ b.2.expiresAt) ∧
      (limiter.usage.clients ≤ policy.maxClients ∧
        limiter.usage.timestampSlots ≤ policy.maxRequests * policy.maxClients ∧
        policy.maxRequests * policy.maxClients ≤ 2000000) ∧
      ∀ identity now, (∀ t ∈ calls.map Prod.snd, t ≤ now) →
        (limiter.admitRequest sha256 identity now).1.allowed = false →
        (limiter.admitRequest sha256 identity now).2.clients.entries <:+
          limiter.clients.entries := by
  intro limiter
  have hlength (entries : List (Key × RateLimitState policy.maxRequests)) :
      storedCount entries = (entries.flatMap fun e => e.2.contents).length := by
    induction entries with
    | nil => rfl
    | cons e entries ih =>
        rw [storedCount_cons, ih, List.flatMap_cons, List.length_append,
          RateLimitState.contents_length]
        push_cast
        rfl
  obtain ⟨bound, hbound⟩ : ∃ bound, ∀ t ∈ calls.map Prod.snd, t ≤ bound := by
    obtain hnil | hne := eq_or_ne (calls.map Prod.snd) []
    · exact ⟨0, by simp [hnil]⟩
    · exact ⟨(calls.map Prod.snd).getLast hne, fun t ht =>
        le_getLast_of_sorted hclock (List.getLast?_eq_some_getLast hne) ht⟩
  obtain ⟨last, -, haccounted⟩ := accounted_new_after policy sha256 hclock bound hbound
  refine ⟨⟨haccounted.counter, haccounted.counter.trans (hlength _)⟩, fun e he => ?_,
    haccounted.expiryOrder, ⟨haccounted.size_le, ?_, RateLimitPolicy.validate_slots hpolicy⟩, ?_⟩
  · have hring := haccounted.rings e he
    refine ⟨⟨hring.count_pos, hring.inRing.count_le⟩, hring.ordered, ?_⟩
    rw [hring.youngest, Option.map_some, sub_add_cancel]
  · rw [RateLimiter.usage, Nat.mul_comm]
    exact Nat.mul_le_mul_left _ haccounted.size_le
  · intro identity now hnow hrejected
    obtain ⟨last, hle, haccounted⟩ := accounted_new_after policy sha256 hclock now hnow
    exact (haccounted.admitRequest hle sha256 identity).2 hrejected

end

/-- One slot for one client: the second client is refused while the first is stored, and admitted
    when it has expired. -/
theorem storage_accounted_tiny :
    let limiter := (RateLimiter.new tinyPolicy (BitVec 256)).after sampleDigest
      [("a", 0), ("b", 5), ("b", 10)]
    limiter.storedRequests = 1 ∧ limiter.storedRequests = storedCount limiter.clients.entries ∧
      limiter.usage.timestampSlots ≤ 1 := by
  have h := storage_accounted 10 1 1 tinyPolicy rfl sampleDigest [("a", 0), ("b", 5), ("b", 10)]
    (by decide +kernel)
  exact ⟨by decide +kernel, h.1.1, h.2.2.2.1.2.1⟩

end QuickApi.RateLimit
