/-
  QuickApi.RateLimit.Refinement

  The limiter refines the sliding-window log.  `Represents` ties one ring to
  the admitted times of one identity, `Refines` ties the whole store to the
  log; every branch of `admit` keeps it and answers what the log answers.
-/

import QuickApi.RateLimit.Limiter
import QuickApi.RateLimit.Reference
import Mathlib.Data.List.TakeWhile
import Mathlib.Data.Set.Function
import Mathlib.Tactic.Linarith
import Mathlib.Tactic.Tauto

namespace QuickApi.RateLimit

open QuickApi.Lib

variable {policy : RateLimitPolicy} {Key : Type}

-- ============================================================================
-- One ring
-- ============================================================================

/-- A ring holds the admitted times of an identity except for a prefix that had left the
    window by `now`, and its expiry is the youngest time plus the window. -/
structure Represents (policy : RateLimitPolicy) (client : RateLimitState policy.maxRequests)
    (times : List ℚ) (now : ℚ) : Prop where
  inRing : client.InRing
  split : ∃ expired, times = expired ++ client.contents ∧
    ∀ t ∈ expired, t + policy.windowMs ≤ now
  youngest : client.contents.getLast? = some (client.expiresAt - policy.windowMs)

namespace Represents

variable {client pruned : RateLimitState policy.maxRequests} {times : List ℚ} {now later : ℚ}

theorem mono (h : Represents policy client times now) (hle : now ≤ later) :
    Represents policy client times later := by
  obtain ⟨hring, ⟨expired, htimes, hold⟩, hlast⟩ := h
  exact ⟨hring, ⟨expired, htimes, fun t ht => le_trans (hold t ht) hle⟩, hlast⟩

theorem youngest_mem (h : Represents policy client times now) :
    client.expiresAt - policy.windowMs ∈ times := by
  obtain ⟨expired, htimes, -⟩ := h.split
  rw [htimes]
  exact List.mem_append_right _ (List.mem_of_getLast? h.youngest)

/-- Every admitted time of the identity is at most the youngest one. -/
theorem le_youngest (h : Represents policy client times now) (hsorted : times.Pairwise (· ≤ ·))
    {t : ℚ} (ht : t ∈ times) : t ≤ client.expiresAt - policy.windowMs := by
  obtain ⟨expired, htimes, -⟩ := h.split
  subst htimes
  refine le_getLast_of_sorted hsorted ?_ ht
  rw [List.getLast?_append_of_ne_nil _ ?_, h.youngest]
  intro hnil
  simpa [hnil] using h.youngest

/-- After pruning at the window's cutoff the ring holds exactly the times in the window. -/
theorem prune_contents (h : Represents policy client times now)
    (hsorted : times.Pairwise (· ≤ ·)) (hbound : ∀ t ∈ times, t ≤ now)
    (hspec : RateLimiter.PruneSpec (now - policy.windowMs) client pruned) :
    pruned.contents = times.filter fun t => AdmittedLog.InWindow policy now t := by
  obtain ⟨expired, htimes, hold⟩ := h.split
  have hsorted' : client.contents.Pairwise (· ≤ ·) := by
    rw [htimes] at hsorted
    exact (List.pairwise_append.mp hsorted).2.1
  have hexpired : expired.filter (fun t => AdmittedLog.InWindow policy now t) = [] := by
    rw [List.filter_eq_nil_iff]
    intro t ht hwindow
    have hlt : now - policy.windowMs < t := (of_decide_eq_true hwindow).1
    have := hold t ht
    linarith
  have hdrop := dropWhile_le_eq_filter_lt (f := id) (now - policy.windowMs : ℚ) hsorted'
  simp only [id] at hdrop
  rw [hspec.contents, hdrop, htimes, List.filter_append, hexpired, List.nil_append]
  apply List.filter_congr
  intro t ht
  have hle : t ≤ now := hbound t (htimes ▸ List.mem_append_right _ ht)
  simp [AdmittedLog.InWindow, hle]

/-- Pruning moves times into the expired prefix. -/
theorem prune_split (h : Represents policy client times now)
    (hspec : RateLimiter.PruneSpec (now - policy.windowMs) client pruned) :
    ∃ expired, times = expired ++ pruned.contents ∧
      ∀ t ∈ expired, t + policy.windowMs ≤ now := by
  obtain ⟨expired, htimes, hold⟩ := h.split
  refine ⟨expired ++ client.contents.takeWhile
    (fun t => decide (t ≤ now - policy.windowMs)), ?_, ?_⟩
  · rw [hspec.contents, List.append_assoc, List.takeWhile_append_dropWhile, htimes]
  · intro t ht
    rcases List.mem_append.mp ht with ht | ht
    · exact hold t ht
    · have hle : t ≤ now - policy.windowMs := by simpa using List.mem_takeWhile_imp ht
      linarith

/-- A pruned ring that is not empty still represents the identity. -/
theorem prune (h : Represents policy client times now)
    (hspec : RateLimiter.PruneSpec (now - policy.windowMs) client pruned)
    (hkeep : pruned.contents ≠ []) : Represents policy pruned times now := by
  refine ⟨hspec.inRing, h.prune_split hspec, ?_⟩
  rw [hspec.contents] at hkeep ⊢
  rw [getLast?_dropWhile hkeep, h.youngest, hspec.expiresAt]

end Represents

-- ============================================================================
-- The whole store
-- ============================================================================

/-- The store holds exactly the identities that may still be in the window, each with its
    own ring, ordered by expiry. -/
structure Refines (sha256 : String → Key) (limiter : RateLimiter policy Key)
    (log : AdmittedLog) (now : ℚ) : Prop where
  ordered : (log.map Prod.snd).Pairwise (· ≤ ·)
  past : ∀ e ∈ log, e.2 ≤ now
  stored : ∀ e ∈ limiter.clients.entries, ∃ identity, (∃ t, (identity, t) ∈ log) ∧
    sha256 identity = e.1 ∧ Represents policy e.2 (log.timesOf identity) now
  gone : ∀ e ∈ log, sha256 e.1 ∉ limiter.clients.keys → e.2 + policy.windowMs ≤ now
  expiryOrder : limiter.clients.entries.Pairwise (fun a b => a.2.expiresAt ≤ b.2.expiresAt)

theorem refines_new (sha256 : String → Key) (now : ℚ) :
    Refines sha256 (RateLimiter.new policy Key) [] now where
  ordered := List.Pairwise.nil
  past := by simp
  stored := by simp [RateLimiter.new, OrderedDict.empty]
  gone := by simp
  expiryOrder := List.Pairwise.nil

theorem timesOf_sorted {log : AdmittedLog} (h : (log.map Prod.snd).Pairwise (· ≤ ·))
    (identity : String) : (log.timesOf identity).Pairwise (· ≤ ·) :=
  h.sublist (List.filter_sublist.map _)

/-- The digests of the identities seen so far, and of the next one, do not collide. -/
def NoCollision (sha256 : String → Key) (log : AdmittedLog) (identity : String) : Prop :=
  Set.InjOn sha256 {i | i = identity ∨ ∃ t, (i, t) ∈ log}

section
variable {sha256 : String → Key} {limiter : RateLimiter policy Key} {log : AdmittedLog}
  {before now : ℚ} {identity : String}

namespace Refines

/-- The ring stored under an identity's digest is the ring of that identity. -/
theorem represents (h : Refines sha256 limiter log now) (hinj : NoCollision sha256 log identity)
    {client : RateLimitState policy.maxRequests}
    (hmem : (sha256 identity, client) ∈ limiter.clients.entries) :
    Represents policy client (log.timesOf identity) now := by
  obtain ⟨other, ⟨t, ht⟩, hkey, hrep⟩ := h.stored _ hmem
  have : other = identity := hinj (Or.inr ⟨t, ht⟩) (Or.inl rfl) hkey
  exact this ▸ hrep

theorem timesOf_le (h : Refines sha256 limiter log now) {t : ℚ}
    (ht : t ∈ log.timesOf identity) : t ≤ now :=
  h.past _ (AdmittedLog.mem_timesOf.mp ht)

end Refines

-- ============================================================================
-- Expiring
-- ============================================================================

/-- After `_expire_clients` no expired entry is left. -/
def AllFresh (limiter : RateLimiter policy Key) (now : ℚ) : Prop :=
  ∀ e ∈ limiter.clients.entries, now < e.2.expiresAt

theorem expireClients_entries (h : Refines sha256 limiter log before) :
    (limiter.expireClients now).clients.entries
      = limiter.clients.entries.filter (fun e => decide (now < e.2.expiresAt)) := by
  simp only [RateLimiter.expireClients, RateLimiter.expireLoop_fst]
  exact dropWhile_le_eq_filter_lt now h.expiryOrder

theorem expireClients_fresh (h : Refines sha256 limiter log before) (now : ℚ) :
    AllFresh (limiter.expireClients now) now := by
  intro e he
  rw [expireClients_entries h] at he
  exact of_decide_eq_true (List.mem_filter.mp he).2

/-- Expiring removes only rings whose every time has left the window. -/
theorem expireClients_refines (h : Refines sha256 limiter log before) (hle : before ≤ now)
    (hinj : NoCollision sha256 log identity) :
    Refines sha256 (limiter.expireClients now) log now where
  ordered := h.ordered
  past e he := le_trans (h.past e he) hle
  stored e he := by
    rw [expireClients_entries h] at he
    obtain ⟨other, hseen, hkey, hrep⟩ := h.stored e (List.mem_filter.mp he).1
    exact ⟨other, hseen, hkey, hrep.mono hle⟩
  gone e he habsent := by
    by_cases hkey : sha256 e.1 ∈ limiter.clients.keys
    · -- The ring was there and has just expired.
      obtain ⟨⟨k, client⟩, hmem, rfl⟩ := List.mem_map.mp hkey
      obtain ⟨other, ⟨t, ht⟩, hother, hrep⟩ := h.stored _ hmem
      have hsame : other = e.1 := hinj (Or.inr ⟨t, ht⟩) (Or.inr ⟨e.2, he⟩) hother
      have hexpired : client.expiresAt ≤ now := by
        by_contra hfresh
        apply habsent
        rw [OrderedDict.keys, expireClients_entries h]
        exact List.mem_map.mpr ⟨_, List.mem_filter.mpr ⟨hmem, by simpa using hfresh⟩, rfl⟩
      have hyoung := hrep.le_youngest (timesOf_sorted h.ordered _)
        (hsame ▸ AdmittedLog.mem_timesOf.mpr he)
      linarith
    · exact le_trans (h.gone e he hkey) hle
  expiryOrder := by
    rw [expireClients_entries h]
    exact h.expiryOrder.sublist List.filter_sublist

-- ============================================================================
-- Tracked identities are stored identities
-- ============================================================================

theorem tracked_iff_stored (h : Refines sha256 limiter log now) (hfresh : AllFresh limiter now)
    (hinj : NoCollision sha256 log identity) :
    identity ∈ log.tracked policy now ↔ sha256 identity ∈ limiter.clients.keys := by
  rw [AdmittedLog.mem_tracked]
  constructor
  · rintro ⟨t, ht, hlt, -⟩
    by_contra habsent
    have := h.gone _ ht habsent
    simp only at this
    linarith
  · intro hkey
    obtain ⟨⟨k, client⟩, hmem, rfl⟩ := List.mem_map.mp hkey
    have hrep := h.represents hinj hmem
    have hyoung := hrep.youngest_mem
    have := hfresh _ hmem
    refine ⟨_, AdmittedLog.mem_timesOf.mp hyoung, ?_, h.timesOf_le hyoung⟩
    simp only at this
    linarith

theorem tracked_card [DecidableEq Key] (h : Refines sha256 limiter log now)
    (hfresh : AllFresh limiter now) (hinj : NoCollision sha256 log identity) :
    (log.tracked policy now).card = limiter.clients.size := by
  have hsub : ∀ i ∈ log.tracked policy now, i = identity ∨ ∃ t, (i, t) ∈ log := by
    intro i hi
    obtain ⟨t, ht, -⟩ := AdmittedLog.mem_tracked.mp hi
    exact Or.inr ⟨t, ht⟩
  have hnarrow : ∀ i, (∃ t, (i, t) ∈ log) → NoCollision sha256 log i := by
    rintro i ⟨t, ht⟩
    refine hinj.mono ?_
    rintro j (rfl | hj)
    · exact Or.inr ⟨t, ht⟩
    · exact Or.inr hj
  have himage : (log.tracked policy now).image sha256 = limiter.clients.keys.toFinset := by
    ext k
    simp only [Finset.mem_image, List.mem_toFinset]
    constructor
    · rintro ⟨i, hi, rfl⟩
      obtain ⟨t, ht, -⟩ := AdmittedLog.mem_tracked.mp hi
      exact (tracked_iff_stored h hfresh (hnarrow i ⟨t, ht⟩)).mp hi
    · intro hk
      obtain ⟨e, he, rfl⟩ := List.mem_map.mp hk
      obtain ⟨i, hseen, hkey, -⟩ := h.stored e he
      refine ⟨i, (tracked_iff_stored h hfresh (hnarrow i hseen)).mpr ?_, hkey⟩
      rw [hkey]
      exact hk
  have hcard := Finset.card_image_of_injOn (hinj.mono fun i hi => hsub i hi)
  have hsize : limiter.clients.keys.toFinset.card = limiter.clients.size := by
    rw [List.toFinset_card_of_nodup (l := limiter.clients.keys) limiter.clients.nodupKeys]
    simp [OrderedDict.keys, OrderedDict.size]
  rw [← hcard, himage, hsize]

-- ============================================================================
-- admit, one branch at a time
-- ============================================================================

section
variable [DecidableEq Key] {client pruned : RateLimitState policy.maxRequests}

/-- Pruning a stored ring in place (the 429 branch) keeps the refinement. -/
theorem refines_set_pruned (h : Refines sha256 limiter log now)
    (hinj : NoCollision sha256 log identity)
    (hget : limiter.clients.get? (sha256 identity) = some client)
    (hspec : RateLimiter.PruneSpec (now - policy.windowMs) client pruned)
    (hkeep : pruned.contents ≠ []) (storedRequests : Int) :
    Refines sha256
      { clients := limiter.clients.set (sha256 identity) pruned, storedRequests } log now := by
  have hmem := OrderedDict.get?_eq_some_iff.mp hget
  have hkey : sha256 identity ∈ limiter.clients.keys := List.mem_map_of_mem (f := Prod.fst) hmem
  have hentries : (limiter.clients.set (sha256 identity) pruned).entries
      = OrderedDict.replaceValue (sha256 identity) pruned limiter.clients.entries := if_pos hkey
  have hexpiry : (limiter.clients.set (sha256 identity) pruned).entries.map (·.2.expiresAt)
      = limiter.clients.entries.map (·.2.expiresAt) := by
    rw [hentries, OrderedDict.replaceValue, List.map_map]
    apply List.map_congr_left
    intro e he
    by_cases hek : e.1 = sha256 identity
    · have hsame : e = (sha256 identity, client) :=
        List.inj_on_of_nodup_map limiter.clients.nodupKeys he hmem hek
      simp [hsame, hspec.expiresAt]
    · simp [hek]
  refine ⟨h.ordered, h.past, ?_, ?_, ?_⟩
  · intro e he
    rw [hentries] at he
    obtain ⟨e₀, he₀, rfl⟩ := List.mem_map.mp he
    obtain ⟨other, hseen, hother, hrep⟩ := h.stored e₀ he₀
    by_cases hek : e₀.1 = sha256 identity
    · have hsame : other = identity :=
        hinj (Or.inr hseen) (Or.inl rfl) (hother.trans hek)
      rw [if_pos hek]
      exact ⟨other, hseen, hother.trans hek, hsame ▸ (h.represents hinj hmem).prune hspec hkeep⟩
    · rw [if_neg hek]
      exact ⟨other, hseen, hother, hrep⟩
  · intro e he habsent
    refine h.gone e he fun hk => habsent ?_
    rw [OrderedDict.keys, hentries, OrderedDict.replaceValue_keys]
    exact hk
  · have hle := List.pairwise_map.mpr h.expiryOrder
    rw [← hexpiry] at hle
    exact List.pairwise_map.mp hle

/-- Appending the admitted time to a pruned ring represents the extended times. -/
theorem represents_push {times : List ℚ}
    (hring : pruned.InRing) (hroom : pruned.count < policy.maxRequests)
    (hsplit : ∃ expired, times = expired ++ pruned.contents ∧
      ∀ t ∈ expired, t + policy.windowMs ≤ now) :
    Represents policy
      { pruned with
        timestamps := pruned.timestamps.setIfInBounds
          ((pruned.head + pruned.count) % policy.maxRequests) now
        count := pruned.count + 1
        expiresAt := now + policy.windowMs } (times ++ [now]) now := by
  obtain ⟨expired, htimes, hold⟩ := hsplit
  have hcontents := RateLimitState.contents_write hring hroom now (now + policy.windowMs)
  refine ⟨⟨hring.head_lt, hroom⟩, ⟨expired, ?_, hold⟩, ?_⟩
  · rw [hcontents, htimes, List.append_assoc]
  · rw [hcontents]
    simp

/-- Storing the extended ring as the youngest entry refines the extended log. -/
theorem refines_admitted (h : Refines sha256 limiter log now)
    (hinj : NoCollision sha256 log identity)
    (hrep : Represents policy pruned (log.timesOf identity ++ [now]) now)
    (hexpires : pruned.expiresAt = now + policy.windowMs) (storedRequests : Int) :
    Refines sha256
      { clients := (limiter.clients.set (sha256 identity) pruned).moveToEnd (sha256 identity)
        storedRequests } (log ++ [(identity, now)]) now := by
  have hentries := OrderedDict.set_moveToEnd_entries limiter.clients (sha256 identity) pruned
  refine ⟨?_, ?_, ?_, ?_, ?_⟩
  · rw [List.map_append, List.pairwise_append]
    refine ⟨h.ordered, List.pairwise_singleton _ _, ?_⟩
    intro t ht t' ht'
    obtain ⟨e, he, rfl⟩ := List.mem_map.mp ht
    have hnow : t' = now := by simpa using ht'
    exact hnow ▸ h.past e he
  · intro e he
    rcases List.mem_append.mp he with he | he
    · exact h.past e he
    · exact le_of_eq (by simpa using congrArg Prod.snd (List.mem_singleton.mp he))
  · intro e he
    rw [hentries] at he
    rcases List.mem_append.mp he with he | he
    · obtain ⟨hmem, hne⟩ := List.mem_filter.mp he
      obtain ⟨other, ⟨t, ht⟩, hother, hrep'⟩ := h.stored e hmem
      have hdiff : other ≠ identity := by
        rintro rfl
        simp [hother] at hne
      refine ⟨other, ⟨t, List.mem_append_left _ ht⟩, hother, ?_⟩
      rw [AdmittedLog.timesOf_append_ne hdiff]
      exact hrep'
    · obtain rfl := List.mem_singleton.mp he
      refine ⟨identity, ⟨now, by simp⟩, rfl, ?_⟩
      rw [AdmittedLog.timesOf_append_self]
      exact hrep
  · intro e he habsent
    have hne : sha256 e.1 ≠ sha256 identity := by
      intro heq
      apply habsent
      simp [OrderedDict.keys, hentries, heq]
    rcases List.mem_append.mp he with he | he
    · refine h.gone e he fun hk => habsent ?_
      obtain ⟨e', he', hk'⟩ := List.mem_map.mp hk
      rw [OrderedDict.keys, hentries, List.map_append]
      refine List.mem_append_left _ (List.mem_map.mpr ⟨e', List.mem_filter.mpr ⟨he', ?_⟩, hk'⟩)
      simpa [hk'] using hne
    · obtain rfl := List.mem_singleton.mp he
      exact absurd rfl hne
  · rw [hentries, List.pairwise_append]
    refine ⟨h.expiryOrder.sublist List.filter_sublist, List.pairwise_singleton _ _, ?_⟩
    intro e he e' he'
    obtain rfl := List.mem_singleton.mp he'
    obtain ⟨other, _, _, hrep'⟩ := h.stored e (List.mem_filter.mp he).1
    have := h.timesOf_le hrep'.youngest_mem
    simp only [hexpires]
    linarith

-- ============================================================================
-- admit
-- ============================================================================

/-- A decision carries exactly a reference verdict. -/
def Answers (decision : RateLimitDecision) (verdict : Option RejectStatus) : Prop :=
  decision.allowed = verdict.isNone ∧ decision.status = verdict

/-- The ring `admit` looks at once it is pruned: what it holds is what the log counts. -/
structure PrunedRing (log : AdmittedLog) (identity : String) (now : ℚ)
    (pruned : RateLimitState policy.maxRequests) : Prop where
  inRing : pruned.InRing
  contents : pruned.contents = log.recent policy now identity
  split : ∃ expired, log.timesOf identity = expired ++ pruned.contents ∧
    ∀ t ∈ expired, t + policy.windowMs ≤ now

theorem prunedRing_stored (h : Refines sha256 limiter log now)
    (hinj : NoCollision sha256 log identity)
    (hget : limiter.clients.get? (sha256 identity) = some client)
    (hspec : RateLimiter.PruneSpec (now - policy.windowMs) client pruned) :
    PrunedRing log identity now pruned := by
  have hrep := h.represents hinj (OrderedDict.get?_eq_some_iff.mp hget)
  have hsorted := timesOf_sorted h.ordered identity
  exact ⟨hspec.inRing, hrep.prune_contents hsorted (fun t ht => h.timesOf_le ht) hspec,
    hrep.prune_split hspec⟩

theorem prunedRing_unknown (h : Refines sha256 limiter log now)
    (hget : limiter.clients.get? (sha256 identity) = none) (cutoff : ℚ) (stored : Int) :
    PrunedRing log identity now
      (RateLimiter.prune cutoff (RateLimitState.new policy.maxRequests) stored).1 := by
  have habsent := OrderedDict.get?_eq_none_iff.mp hget
  have hgone : ∀ t ∈ log.timesOf identity, t + policy.windowMs ≤ now := fun t ht =>
    h.gone _ (AdmittedLog.mem_timesOf.mp ht) habsent
  refine ⟨RateLimitState.inRing_new policy.maxRequests_pos, ?_, log.timesOf identity, ?_, hgone⟩
  · symm
    rw [show (RateLimiter.prune cutoff (RateLimitState.new policy.maxRequests) stored).1
      = RateLimitState.new policy.maxRequests from rfl, RateLimitState.contents_new,
      AdmittedLog.recent, List.filter_eq_nil_iff]
    intro t ht hwindow
    have hlt : now - policy.windowMs < t := (of_decide_eq_true hwindow).1
    have := hgone t ht
    linarith
  · exact (List.append_nil _).symm

/-- The part of `admit` behind the lookup refines one step of the log. -/
theorem admitClient_refines (h : Refines sha256 limiter log now)
    (hfresh : AllFresh limiter now) (hinj : NoCollision sha256 log identity) {known : Bool}
    (hclient : (known = true ∧ limiter.clients.get? (sha256 identity) = some client) ∨
      (known = false ∧ limiter.clients.get? (sha256 identity) = none ∧
        client = RateLimitState.new policy.maxRequests ∧
        limiter.clients.size < policy.maxClients)) :
    Answers (limiter.admitClient (sha256 identity) known client now).1
        (log.verdict policy identity now) ∧
      Refines sha256 (limiter.admitClient (sha256 identity) known client now).2
        (log.record policy identity now) now := by
  have hspec : client.InRing → RateLimiter.PruneSpec (now - policy.windowMs) client
      (RateLimiter.prune (now - policy.windowMs) client limiter.storedRequests).1 :=
    RateLimiter.prune_spec _ client limiter.storedRequests
  have hpruned : PrunedRing log identity now
      (RateLimiter.prune (now - policy.windowMs) client limiter.storedRequests).1 := by
    rcases hclient with ⟨-, hget⟩ | ⟨-, hget, rfl, -⟩
    · have hrep := h.represents hinj (OrderedDict.get?_eq_some_iff.mp hget)
      exact prunedRing_stored h hinj hget (hspec hrep.inRing)
    · exact prunedRing_unknown h hget _ _
  have hlength := congrArg List.length hpruned.contents
  rw [RateLimitState.contents_length] at hlength
  have hnot503 : ¬ (identity ∉ log.tracked policy now ∧
      policy.maxClients ≤ (log.tracked policy now).card) := by
    rintro ⟨huntracked, hfull⟩
    rw [tracked_card h hfresh hinj] at hfull
    rw [tracked_iff_stored h hfresh hinj] at huntracked
    rcases hclient with ⟨-, hget⟩ | ⟨-, -, -, hroom⟩
    · exact huntracked (List.mem_map_of_mem (f := Prod.fst)
        (OrderedDict.get?_eq_some_iff.mp hget))
    · omega
  simp only [RateLimiter.admitClient]
  by_cases hfull : (RateLimiter.prune (now - policy.windowMs) client
      limiter.storedRequests).1.count = policy.maxRequests
  · have hverdict : log.verdict policy identity now = some .tooManyRequests := by
      rw [AdmittedLog.verdict, if_neg hnot503, if_pos (by omega)]
    have hpos := policy.maxRequests_pos
    rcases hclient with ⟨rfl, hget⟩ | ⟨-, -, rfl, -⟩
    · have hrep := h.represents hinj (OrderedDict.get?_eq_some_iff.mp hget)
      have hkeep : (RateLimiter.prune (now - policy.windowMs) client
          limiter.storedRequests).1.contents ≠ [] := by
        intro hnil
        have := congrArg List.length hnil
        rw [RateLimitState.contents_length, List.length_nil] at this
        omega
      rw [if_pos hfull, AdmittedLog.record_rejected hverdict, hverdict]
      exact ⟨⟨rfl, rfl⟩, refines_set_pruned h hinj hget (hspec hrep.inRing) hkeep _⟩
    · -- A fresh ring is empty, so it is never full.
      have hzero : (RateLimiter.prune (now - policy.windowMs)
          (RateLimitState.new policy.maxRequests) limiter.storedRequests).1.count = 0 := rfl
      omega
  · have hroom := lt_of_le_of_ne hpruned.inRing.count_le hfull
    have hverdict : log.verdict policy identity now = none := by
      rw [AdmittedLog.verdict, if_neg hnot503, if_neg (by omega)]
    rw [if_neg hfull, AdmittedLog.record_admitted hverdict, hverdict]
    exact ⟨⟨rfl, rfl⟩, refines_admitted h hinj
      (represents_push hpruned.inRing hroom hpruned.split) rfl _⟩

/-- One `admit` answers what the log answers and keeps the refinement. -/
theorem admit_refines (h : Refines sha256 limiter log before) (hle : before ≤ now)
    (hinj : NoCollision sha256 log identity) :
    Answers (limiter.admitRequest sha256 identity now).1 (log.verdict policy identity now) ∧
      Refines sha256 (limiter.admitRequest sha256 identity now).2
        (log.record policy identity now) now := by
  have hexpired := expireClients_refines h hle hinj
  have hfresh := expireClients_fresh h now
  cases hget : (limiter.expireClients now).clients.get? (sha256 identity) with
  | some client =>
      simp only [RateLimiter.admitRequest, hget]
      exact admitClient_refines hexpired hfresh hinj (Or.inl ⟨rfl, hget⟩)
  | none =>
      simp only [RateLimiter.admitRequest, hget]
      by_cases hfull : policy.maxClients ≤ (limiter.expireClients now).clients.size
      · have hverdict : log.verdict policy identity now = some .serviceUnavailable := by
          rw [AdmittedLog.verdict, if_pos]
          rw [tracked_iff_stored hexpired hfresh hinj, tracked_card hexpired hfresh hinj]
          exact ⟨OrderedDict.get?_eq_none_iff.mp hget, hfull⟩
        rw [if_pos hfull, AdmittedLog.record_rejected hverdict, hverdict]
        exact ⟨⟨rfl, rfl⟩, hexpired⟩
      · rw [if_neg hfull]
        exact admitClient_refines hexpired hfresh hinj
          (Or.inr ⟨rfl, hget, rfl, by omega⟩)

end

end

-- ============================================================================
-- Whole runs
-- ============================================================================

/-- The verdicts a list of decisions carries. -/
def verdicts (decisions : List RateLimitDecision) : List (Bool × Option RejectStatus) :=
  decisions.map fun d => (d.allowed, d.status)

/-- From any refining state, a run with a nondecreasing clock answers what the log
    answers, call by call. -/
theorem run_refines [DecidableEq Key] {sha256 : String → Key} (calls : List (String × ℚ))
    {limiter : RateLimiter policy Key} {log : AdmittedLog} {before : ℚ}
    (h : Refines sha256 limiter log before)
    (hclock : (before :: calls.map Prod.snd).Pairwise (· ≤ ·))
    (hinj : Set.InjOn sha256 {i | (∃ t, (i, t) ∈ calls) ∨ ∃ t, (i, t) ∈ log}) :
    verdicts (limiter.run sha256 calls)
      = (log.run policy calls).map fun v => (v.isNone, v) := by
  induction calls generalizing limiter log before with
  | nil => rfl
  | cons call calls ih =>
      obtain ⟨identity, now⟩ := call
      obtain ⟨hbefore, hlater⟩ := List.pairwise_cons.mp hclock
      have hnext : NoCollision sha256 log identity := by
        refine hinj.mono ?_
        rintro i (rfl | hi)
        · exact Or.inl ⟨now, by simp⟩
        · exact Or.inr hi
      have hstep := admit_refines h (hbefore now (by simp)) hnext
      have hrest := ih hstep.2 hlater (hinj.mono (by
          rintro i (⟨t, ht⟩ | ⟨t, ht⟩)
          · exact Or.inl ⟨t, List.mem_cons_of_mem _ ht⟩
          · unfold AdmittedLog.record at ht
            split at ht
            · rcases List.mem_append.mp ht with ht | ht
              · exact Or.inr ⟨t, ht⟩
              · obtain ⟨rfl, rfl⟩ := Prod.mk.inj (List.mem_singleton.mp ht)
                exact Or.inl ⟨t, by simp⟩
            · exact Or.inr ⟨t, ht⟩))
      simp only [RateLimiter.run, AdmittedLog.run, verdicts, List.map_cons] at hrest ⊢
      rw [hrest, hstep.1.1, hstep.1.2]

/-- A fresh limiter answers what the log answers. -/
theorem new_run_refines [DecidableEq Key] (policy : RateLimitPolicy) {sha256 : String → Key} {calls : List (String × ℚ)}
    (hclock : (calls.map Prod.snd).Pairwise (· ≤ ·))
    (hinj : Set.InjOn sha256 {i | ∃ t, (i, t) ∈ calls}) :
    verdicts ((RateLimiter.new policy Key).run sha256 calls)
      = (AdmittedLog.run policy [] calls).map fun v => (v.isNone, v) := by
  cases calls with
  | nil => rfl
  | cons call calls =>
      refine run_refines (call :: calls) (refines_new sha256 call.2) ?_ (by simpa using hinj)
      refine List.pairwise_cons.mpr ⟨?_, hclock⟩
      intro t ht
      rcases List.mem_cons.mp ht with rfl | ht
      · exact le_refl _
      · exact (List.pairwise_cons.mp hclock).1 t ht

/-- For every policy and every sequence of calls with a nondecreasing clock, `admit` returns
    exactly the decisions of the sliding-window log, and leaving a rejected call out of the
    sequence changes no other decision. -/
theorem limiter_refines_window_log [DecidableEq Key] (policy : RateLimitPolicy)
    (sha256 : String → Key) (calls : List (String × ℚ))
    (hclock : (calls.map Prod.snd).Pairwise (· ≤ ·))
    (hsha256 : Set.InjOn sha256 {i | ∃ t, (i, t) ∈ calls}) :
    verdicts ((RateLimiter.new policy Key).run sha256 calls)
        = (AdmittedLog.run policy [] calls).map (fun v => (v.isNone, v)) ∧
      ∀ earlier call later, calls = earlier ++ call :: later →
        (((RateLimiter.new policy Key).run sha256 calls)[earlier.length]?).map (·.allowed)
          = some false →
        verdicts ((RateLimiter.new policy Key).run sha256 (earlier ++ later))
          = (verdicts ((RateLimiter.new policy Key).run sha256 calls)).eraseIdx
              earlier.length := by
  have hrun := new_run_refines policy hclock hsha256
  refine ⟨hrun, ?_⟩
  rintro earlier call later rfl hrejected
  have hsub : (earlier ++ later).Sublist (earlier ++ call :: later) :=
    List.Sublist.append_left (List.sublist_cons_self call later) earlier
  have hshort := new_run_refines policy
    (hclock.sublist (hsub.map Prod.snd))
    (hsha256.mono (by
      rintro i ⟨t, ht⟩
      exact ⟨t, hsub.subset ht⟩))
  have hreference : (AdmittedLog.run policy [] (earlier ++ call :: later))[earlier.length]?
      ≠ some none := by
    intro hnone
    have hentry := congrArg (·[earlier.length]?) hrun
    simp only [verdicts, List.getElem?_map, hnone, Option.map_some] at hentry
    cases hd : ((RateLimiter.new policy Key).run sha256
        (earlier ++ call :: later))[earlier.length]? with
    | none => simp [hd] at hentry
    | some d => simp_all
  rw [hshort, hrun, AdmittedLog.run_drop_rejected policy [] earlier later call hreference,
    List.eraseIdx_map]

/-- One request per client, one client, a window of ten milliseconds. -/
def tinyPolicy : RateLimitPolicy := ⟨10, 1, 1, by decide, by decide, by decide⟩

/-- The SHA-256 digests of the two identities of the sample run. -/
def sampleDigest (identity : String) : BitVec 256 :=
  if identity = "a" then 0xca978112ca1bbdcafac231b39a23dc4da786eff8147c4e72b9807785afee48bb
  else 0x3e23e8160039594a33894f6564e1b1348bbd7a0088d42c4acb73eeaed59c009d

theorem limiter_refines_window_log_tiny :
    verdicts ((RateLimiter.new tinyPolicy (BitVec 256)).run sampleDigest
        [("a", 0), ("b", 1), ("a", 2), ("a", 10)])
      = [(true, none), (false, some .serviceUnavailable), (false, some .tooManyRequests),
          (true, none)] := by
  have hclock : (([("a", 0), ("b", 1), ("a", 2), ("a", 10)] : List (String × ℚ)).map
      Prod.snd).Pairwise (· ≤ ·) := by decide +kernel
  have hsha256 : Set.InjOn sampleDigest
      {i | ∃ t, (i, t) ∈ ([("a", 0), ("b", 1), ("a", 2), ("a", 10)] : List (String × ℚ))} := by
    have hids : ∀ i, (∃ t, (i, t) ∈ ([("a", 0), ("b", 1), ("a", 2), ("a", 10)] :
        List (String × ℚ))) → i = "a" ∨ i = "b" := by
      rintro i ⟨t, ht⟩
      simp only [List.mem_cons, Prod.mk.injEq, List.not_mem_nil, or_false] at ht
      tauto
    intro i hi j hj h
    rcases hids i hi with rfl | rfl <;> rcases hids j hj with rfl | rfl <;>
      first | rfl | exact absurd h (by decide)
  exact (limiter_refines_window_log tinyPolicy sampleDigest _ hclock hsha256).1.trans
    (by decide +kernel)

end QuickApi.RateLimit
