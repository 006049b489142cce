/-
  QuickApi.RateLimit.RetryAfter

  What a rejection promises.  In the sliding-window log an identity that is
  refused stays refused, with the same status, up to one instant and is
  admitted from that instant on, as long as nobody is admitted in between; it
  is the instant that `_reject` derives `retry_after_seconds` from.
-/

import QuickApi.RateLimit.Refinement

namespace QuickApi.RateLimit

open QuickApi.Lib

variable {policy : RateLimitPolicy} {Key : Type}

-- ============================================================================
-- The log keeps its bounds
-- ============================================================================

namespace AdmittedLog

variable {log : AdmittedLog} {identity : String} {now later : ℚ}

/-- Nothing in the log is younger than `now`. -/
def Past (log : AdmittedLog) (now : ℚ) : Prop := ∀ e ∈ log, e.2 ≤ now

/-- What was in the window later was in it before. -/
theorem inWindow_of_later {t : ℚ} (hle : now ≤ later) (ht : t ≤ now)
    (h : InWindow policy later t) : InWindow policy now t := by
  have hlt := h.1
  exact ⟨by linarith, ht⟩

theorem tracked_subset (hpast : log.Past now) (hle : now ≤ later) :
    log.tracked policy later ⊆ log.tracked policy now := by
  intro i hi
  obtain ⟨t, ht, hwindow⟩ := mem_tracked.mp hi
  exact mem_tracked.mpr ⟨t, ht, inWindow_of_later hle (hpast _ ht) hwindow⟩

/-- The times in the later window are among those in the earlier one. -/
theorem recent_later (hpast : log.Past now) (hle : now ≤ later) (identity : String) :
    log.recent policy later identity =
      (log.recent policy now identity).filter fun t => InWindow policy later t := by
  rw [recent, recent, List.filter_filter]
  apply List.filter_congr
  intro t ht
  by_cases hwindow : InWindow policy later t
  · have hnow := inWindow_of_later hle (hpast _ (mem_timesOf.mp ht)) hwindow
    simp [hwindow, hnow]
  · simp [hwindow]

theorem recent_eq_nil (h : identity ∉ log.tracked policy now) :
    log.recent policy now identity = [] := by
  rw [recent, List.filter_eq_nil_iff]
  intro t ht hwindow
  exact h (mem_tracked.mpr ⟨t, mem_timesOf.mp ht, of_decide_eq_true hwindow⟩)

/-- The window never holds more than the policy allows. -/
structure Bounded (policy : RateLimitPolicy) (log : AdmittedLog) (now : ℚ) : Prop where
  clients : (log.tracked policy now).card ≤ policy.maxClients
  requests : ∀ identity, (log.recent policy now identity).length ≤ policy.maxRequests

theorem bounded_nil (now : ℚ) : Bounded policy [] now := ⟨Nat.zero_le _, fun _ => Nat.zero_le _⟩

theorem Bounded.mono (h : Bounded policy log now) (hpast : log.Past now) (hle : now ≤ later) :
    Bounded policy log later where
  clients := le_trans (Finset.card_le_card (tracked_subset hpast hle)) h.clients
  requests identity := by
    rw [recent_later hpast hle]
    exact le_trans (List.length_filter_le _ _) (h.requests identity)

theorem verdict_eq_none_iff : log.verdict policy identity now = none ↔
    (identity ∈ log.tracked policy now ∨ (log.tracked policy now).card < policy.maxClients) ∧
      (log.recent policy now identity).length < policy.maxRequests := by
  unfold verdict
  split
  · next h =>
    simp only [reduceCtorEq, false_iff, not_and]
    rintro (hmem | hcard)
    · exact absurd hmem h.1
    · exact absurd hcard (not_lt.mpr h.2)
  · next h =>
    have hroom : identity ∈ log.tracked policy now ∨
        (log.tracked policy now).card < policy.maxClients := by
      by_contra hno
      obtain ⟨huntracked, hfull⟩ := not_or.mp hno
      exact h ⟨huntracked, not_lt.mp hfull⟩
    split
    · next hfull => simp [not_lt.mpr hfull]
    · next hfew => simp [hroom, not_le.mp hfew]

/-- An admission leaves the log within its bounds. -/
theorem Bounded.of_record (h : Bounded policy log now) (identity : String) :
    Bounded policy (log.record policy identity now) now := by
  by_cases hverdict : log.verdict policy identity now = none
  · obtain ⟨hroom, hfew⟩ := verdict_eq_none_iff.mp hverdict
    rw [record_admitted hverdict]
    have hnow : InWindow policy now now := by
      have hpos : (0 : ℚ) < policy.windowMs := by exact_mod_cast policy.windowMs_pos
      exact ⟨by linarith, le_refl now⟩
    have htracked : tracked policy now (log ++ [(identity, now)]) =
        insert identity (log.tracked policy now) := by
      ext i
      rw [Finset.mem_insert, mem_tracked, mem_tracked]
      constructor
      · rintro ⟨t, ht, hwindow⟩
        rcases List.mem_append.mp ht with ht | ht
        · exact Or.inr ⟨t, ht, hwindow⟩
        · exact Or.inl (congrArg Prod.fst (List.mem_singleton.mp ht))
      · rintro (rfl | ⟨t, ht, hwindow⟩)
        · exact ⟨now, by simp, hnow⟩
        · exact ⟨t, List.mem_append_left _ ht, hwindow⟩
    refine ⟨?_, ?_⟩
    · rw [htracked]
      rcases hroom with hmem | hcard
      · rw [Finset.insert_eq_of_mem hmem]
        exact h.clients
      · exact le_trans (Finset.card_insert_le _ _) hcard
    · intro other
      by_cases hother : other = identity
      · subst hother
        have hrecent : recent policy now (log ++ [(other, now)]) other =
            log.recent policy now other ++ [now] := by
          simp [recent, List.filter_append, hnow]
        rw [hrecent, List.length_append]
        exact hfew
      · rw [recent, timesOf_append_ne hother]
        exact h.requests other
  · rw [record, if_neg hverdict]
    exact h

-- ============================================================================
-- Until when an identity is refused
-- ============================================================================

/-- From `now` on the identity is refused with `status` before `availableAt`, and admitted from
    then on. -/
structure AvailableFrom (policy : RateLimitPolicy) (log : AdmittedLog) (identity : String)
    (now : ℚ) (status : RejectStatus) (availableAt : ℚ) : Prop where
  refused : ∀ t, now ≤ t → t < availableAt → log.verdict policy identity t = some status
  admitted : ∀ t, now ≤ t → availableAt ≤ t → log.verdict policy identity t = none

/-- A full window is open again when its oldest time leaves it. -/
theorem availableFrom_tooManyRequests (hordered : (log.map Prod.snd).Pairwise (· ≤ ·))
    (hpast : log.Past now) (hbounded : Bounded policy log now) {oldest : ℚ} {rest : List ℚ}
    (hrecent : log.recent policy now identity = oldest :: rest)
    (hfull : rest.length + 1 = policy.maxRequests) :
    AvailableFrom policy log identity now .tooManyRequests (oldest + policy.windowMs) := by
  have hmem : oldest ∈ log.recent policy now identity := hrecent ▸ List.mem_cons_self
  obtain ⟨hlogged, hin⟩ := List.mem_filter.mp hmem
  have hwindow : InWindow policy now oldest := of_decide_eq_true hin
  have hsorted : (oldest :: rest).Pairwise (· ≤ ·) :=
    hrecent ▸ (timesOf_sorted hordered identity).sublist List.filter_sublist
  have hoccurs := mem_timesOf.mp hlogged
  refine ⟨?_, ?_⟩
  · intro t hle hlt
    have hstays : ∀ x ∈ oldest :: rest, InWindow policy t x := by
      intro x hx
      have hmin : oldest ≤ x := by
        rcases List.mem_cons.mp hx with rfl | hx
        · exact le_refl _
        · exact (List.pairwise_cons.mp hsorted).1 x hx
      have hpastx : InWindow policy now x :=
        of_decide_eq_true (List.mem_filter.mp (hrecent ▸ hx : x ∈ log.recent policy now identity)).2
      exact ⟨by linarith, le_trans hpastx.2 hle⟩
    have htracked : identity ∈ log.tracked policy t :=
      mem_tracked.mpr ⟨oldest, hoccurs, hstays oldest List.mem_cons_self⟩
    have hsame : log.recent policy t identity = oldest :: rest := by
      rw [recent_later hpast hle, hrecent, List.filter_eq_self]
      exact fun x hx => decide_eq_true (hstays x hx)
    rw [verdict, if_neg (fun h => h.1 htracked), if_pos (by rw [hsame, List.length_cons]; omega)]
  · intro t hle hgone
    have hleft : ¬ InWindow policy t oldest := fun h => by
      have := h.1
      linarith
    have hfew : (log.recent policy t identity).length < policy.maxRequests := by
      rw [recent_later hpast hle, hrecent, List.filter_cons_of_neg (by simpa using hleft)]
      have := List.length_filter_le (fun x => decide (InWindow policy t x)) rest
      omega
    refine verdict_eq_none_iff.mpr ⟨?_, hfew⟩
    by_cases htracked : identity ∈ log.tracked policy t
    · exact Or.inl htracked
    · -- The identity itself has left the window, so there is room for one more.
      have hssub : log.tracked policy t ⊂ log.tracked policy now :=
        (Finset.ssubset_iff_of_subset (tracked_subset hpast hle)).mpr
          ⟨identity, mem_tracked.mpr ⟨oldest, hoccurs, hwindow⟩, htracked⟩
      exact Or.inr (lt_of_lt_of_le (Finset.card_lt_card hssub) hbounded.clients)

/-- A full store is open again when the identity that leaves the window first has left it. -/
theorem availableFrom_serviceUnavailable (hpast : log.Past now) (hbounded : Bounded policy log now)
    (huntracked : identity ∉ log.tracked policy now)
    (hfull : policy.maxClients ≤ (log.tracked policy now).card) {availableAt : ℚ}
    (hlast : ∀ i ∈ log.tracked policy now, ∃ t, (i, t) ∈ log ∧ availableAt ≤ t + policy.windowMs)
    (hfirst : ∃ i ∈ log.tracked policy now, ∀ t, (i, t) ∈ log → t + policy.windowMs ≤ availableAt) :
    AvailableFrom policy log identity now .serviceUnavailable availableAt := by
  refine ⟨?_, ?_⟩
  · intro t hle hlt
    have hstays : log.tracked policy now ⊆ log.tracked policy t := by
      intro i hi
      obtain ⟨x, hx, hreach⟩ := hlast i hi
      exact mem_tracked.mpr ⟨x, hx, by linarith, le_trans (hpast _ hx) hle⟩
    rw [verdict, if_pos ⟨fun h => huntracked (tracked_subset hpast hle h),
      le_trans hfull (Finset.card_le_card hstays)⟩]
  · intro t hle hgone
    obtain ⟨i, hi, hleaves⟩ := hfirst
    have hleft : i ∉ log.tracked policy t := by
      intro htracked
      obtain ⟨x, hx, hwindow⟩ := mem_tracked.mp htracked
      have hlt := hwindow.1
      have hend := hleaves x hx
      linarith
    have hssub : log.tracked policy t ⊂ log.tracked policy now :=
      (Finset.ssubset_iff_of_subset (tracked_subset hpast hle)).mpr ⟨i, hi, hleft⟩
    have hnil : log.recent policy t identity = [] :=
      recent_eq_nil fun h => huntracked (tracked_subset hpast hle h)
    refine verdict_eq_none_iff.mpr
      ⟨Or.inr (lt_of_lt_of_le (Finset.card_lt_card hssub) hbounded.clients), ?_⟩
    rw [hnil]
    exact policy.maxRequests_pos

end AdmittedLog

-- ============================================================================
-- What admit reports
-- ============================================================================

section
variable [DecidableEq Key] {sha256 : String → Key} {limiter : RateLimiter policy Key}
  {log : AdmittedLog} {before now : ℚ} {identity : String}

/-- A rejection of a client reports when its oldest time leaves the window. -/
theorem admitClient_rejected (h : Refines sha256 limiter log now)
    (hinj : NoCollision sha256 log identity) (hbounded : log.Bounded policy now)
    {client : RateLimitState policy.maxRequests} {known : Bool}
    (hclient : limiter.clients.get? (sha256 identity) = some client ∨
      limiter.clients.get? (sha256 identity) = none ∧
        client = RateLimitState.new policy.maxRequests)
    (hrejected : (limiter.admitClient (sha256 identity) known client now).1.allowed = false) :
    ∃ availableAt, (limiter.admitClient (sha256 identity) known client now).1 =
        RateLimiter.reject .tooManyRequests availableAt now ∧
      log.AvailableFrom policy identity now .tooManyRequests availableAt := by
  have hpruned : PrunedRing log identity now
      (RateLimiter.prune (now - policy.windowMs) client limiter.storedRequests).1 := by
    rcases hclient with hget | ⟨hget, rfl⟩
    · have hrep := h.represents hinj (OrderedDict.get?_eq_some_iff.mp hget)
      exact prunedRing_stored h hinj hget (RateLimiter.prune_spec _ _ _ hrep.inRing)
    · exact prunedRing_unknown h hget _ _
  simp only [RateLimiter.admitClient] at hrejected ⊢
  split at hrejected
  · next hfull =>
    rw [if_pos hfull]
    obtain ⟨n, hn⟩ : ∃ n, policy.maxRequests = n + 1 :=
      ⟨policy.maxRequests - 1, by have := policy.maxRequests_pos; omega⟩
    have hcons := RateLimitState.contents_eq_cons hpruned.inRing (hfull.trans hn)
    rw [hpruned.contents] at hcons
    refine ⟨_, rfl, AdmittedLog.availableFrom_tooManyRequests h.ordered h.past hbounded hcons ?_⟩
    have hlength := congrArg List.length hcons
    rw [← hpruned.contents, RateLimitState.contents_length, List.length_cons] at hlength
    omega
  · cases hrejected

/-- A full store has room when its first entry expires. -/
theorem availableFrom_firstEntry (h : Refines sha256 limiter log now)
    (hfresh : AllFresh limiter now) (hinj : NoCollision sha256 log identity)
    (hbounded : log.Bounded policy now) (habsent : sha256 identity ∉ limiter.clients.keys)
    (hfull : policy.maxClients ≤ limiter.clients.size)
    {e : Key × RateLimitState policy.maxRequests}
    {rest : List (Key × RateLimitState policy.maxRequests)}
    (hentries : limiter.clients.entries = e :: rest) :
    log.AvailableFrom policy identity now .serviceUnavailable e.2.expiresAt := by
  have hmin : ∀ e' ∈ limiter.clients.entries, e.2.expiresAt ≤ e'.2.expiresAt := by
    have horder := h.expiryOrder
    rw [hentries] at horder ⊢
    intro e' he'
    rcases List.mem_cons.mp he' with rfl | he'
    · exact le_refl _
    · exact (List.pairwise_cons.mp horder).1 e' he'
  have hlast : ∀ i ∈ log.tracked policy now,
      ∃ t, (i, t) ∈ log ∧ e.2.expiresAt ≤ t + policy.windowMs := by
    intro i hi
    obtain ⟨t, ht, -⟩ := AdmittedLog.mem_tracked.mp hi
    have hinj' : NoCollision sha256 log i := by
      refine hinj.mono ?_
      rintro j (rfl | hj)
      · exact Or.inr ⟨t, ht⟩
      · exact Or.inr hj
    have hkey := (tracked_iff_stored h hfresh hinj').mp hi
    obtain ⟨⟨key, client⟩, hmem, rfl⟩ := List.mem_map.mp hkey
    have hyoung := (h.represents hinj' hmem).youngest_mem
    have hle := hmin _ hmem
    exact ⟨_, AdmittedLog.mem_timesOf.mp hyoung, by linarith⟩
  have hfirst : ∃ i ∈ log.tracked policy now,
      ∀ t, (i, t) ∈ log → t + policy.windowMs ≤ e.2.expiresAt := by
    have hmem : e ∈ limiter.clients.entries := hentries ▸ List.mem_cons_self
    obtain ⟨i, -, -, hrep⟩ := h.stored e hmem
    have hyoung := hrep.youngest_mem
    have hlater := hfresh e hmem
    refine ⟨i, AdmittedLog.mem_tracked.mpr ⟨_, AdmittedLog.mem_timesOf.mp hyoung, by linarith,
      h.timesOf_le hyoung⟩, ?_⟩
    intro t ht
    have hle := hrep.le_youngest (timesOf_sorted h.ordered i) (AdmittedLog.mem_timesOf.mpr ht)
    linarith
  refine AdmittedLog.availableFrom_serviceUnavailable h.past hbounded ?_ ?_ hlast hfirst
  · rw [tracked_iff_stored h hfresh hinj]
    exact habsent
  · rw [tracked_card h hfresh hinj]
    exact hfull

/-- A rejection reports the instant up to which the identity is refused. -/
theorem admit_rejected (h : Refines sha256 limiter log before) (hle : before ≤ now)
    (hinj : NoCollision sha256 log identity) (hbounded : log.Bounded policy before)
    (hrejected : (limiter.admitRequest sha256 identity now).1.allowed = false) :
    ∃ status availableAt, (limiter.admitRequest sha256 identity now).1 =
        RateLimiter.reject status availableAt now ∧
      log.AvailableFrom policy identity now status availableAt := by
  have hexpired := expireClients_refines h hle hinj
  have hfresh := expireClients_fresh h now
  have hbounded := hbounded.mono h.past hle
  cases hget : (limiter.expireClients now).clients.get? (sha256 identity) with
  | some client =>
      simp only [RateLimiter.admitRequest, hget] at hrejected ⊢
      exact ⟨_, admitClient_rejected hexpired hinj hbounded (Or.inl hget) hrejected⟩
  | none =>
      simp only [RateLimiter.admitRequest, hget] at hrejected ⊢
      by_cases hfull : policy.maxClients ≤ (limiter.expireClients now).clients.size
      · rw [if_pos hfull]
        have habsent := OrderedDict.get?_eq_none_iff.mp hget
        have hpos := policy.maxClients_pos
        cases hentries : (limiter.expireClients now).clients.entries with
        | nil =>
            rw [OrderedDict.size, hentries, List.length_nil] at hfull
            omega
        | cons e rest =>
            exact ⟨_, _, rfl,
              availableFrom_firstEntry hexpired hfresh hinj hbounded habsent hfull hentries⟩
      · rw [if_neg hfull] at hrejected ⊢
        exact ⟨_, admitClient_rejected hexpired hinj hbounded (Or.inr ⟨hget, rfl⟩) hrejected⟩

end

-- ============================================================================
-- Whole runs
-- ============================================================================

section
variable {sha256 : String → Key} {limiter : RateLimiter policy Key} {log : AdmittedLog}
  {before now later : ℚ}

/-- One identity for each digest: to the limiter, identities of one digest are the same. -/
noncomputable def representative (sha256 : String → Key) (identity : String) : String :=
  Function.invFun sha256 (sha256 identity)

theorem sha256_representative (sha256 : String → Key) (identity : String) :
    sha256 (representative sha256 identity) = sha256 identity :=
  Function.invFun_eq ⟨identity, rfl⟩

/-- The log knows the representatives only. -/
def Representatives (sha256 : String → Key) (log : AdmittedLog) : Prop :=
  ∀ e ∈ log, ∃ identity, representative sha256 identity = e.1

theorem Representatives.noCollision (h : Representatives sha256 log) (identity : String) :
    NoCollision sha256 log (representative sha256 identity) := by
  have hfixed : ∀ i, (i = representative sha256 identity ∨ ∃ t, (i, t) ∈ log) →
      Function.invFun sha256 (sha256 i) = i := by
    intro i hi
    obtain ⟨j, rfl⟩ : ∃ j, representative sha256 j = i := by
      rcases hi with rfl | ⟨t, ht⟩
      · exact ⟨identity, rfl⟩
      · exact h _ ht
    rw [sha256_representative sha256]
    rfl
  intro i hi j hj heq
  rw [← hfixed i hi, ← hfixed j hj, heq]

theorem admitRequest_representative [DecidableEq Key] (sha256 : String → Key)
    (limiter : RateLimiter policy Key) (identity : String) (now : ℚ) :
    limiter.admitRequest sha256 (representative sha256 identity) now =
      limiter.admitRequest sha256 identity now := by
  unfold RateLimiter.admitRequest
  rw [sha256_representative sha256]

/-- What holds of the limiter between two calls. -/
structure Tracks (sha256 : String → Key) (limiter : RateLimiter policy Key) (log : AdmittedLog)
    (now : ℚ) : Prop where
  refines : Refines sha256 limiter log now
  bounded : log.Bounded policy now
  representatives : Representatives sha256 log

theorem tracks_new (policy : RateLimitPolicy) (sha256 : String → Key) (now : ℚ) :
    Tracks sha256 (RateLimiter.new policy Key) [] now :=
  ⟨refines_new sha256 now, AdmittedLog.bounded_nil now, by simp [Representatives]⟩

variable [DecidableEq Key]

theorem Answers.ne_none {decision : RateLimitDecision} {verdict : Option RejectStatus}
    (h : Answers decision verdict) (hrejected : decision.allowed = false) : verdict ≠ none := by
  intro hnone
  have hallowed := h.1
  rw [hrejected, hnone] at hallowed
  cases hallowed

namespace Tracks

/-- A call answers what the log answers for the representative, and the log records it. -/
theorem answers (h : Tracks sha256 limiter log before) (hle : before ≤ now) (identity : String) :
    Answers (limiter.admitRequest sha256 identity now).1
        (log.verdict policy (representative sha256 identity) now) ∧
      Tracks sha256 (limiter.admitRequest sha256 identity now).2
        (log.record policy (representative sha256 identity) now) now := by
  obtain ⟨hanswers, hrefines⟩ :=
    admit_refines h.refines hle (h.representatives.noCollision identity)
  rw [admitRequest_representative] at hanswers hrefines
  refine ⟨hanswers, hrefines, (h.bounded.mono h.refines.past hle).of_record _, ?_⟩
  intro e he
  unfold AdmittedLog.record at he
  split at he
  · rcases List.mem_append.mp he with he | he
    · exact h.representatives e he
    · exact ⟨identity, (congrArg Prod.fst (List.mem_singleton.mp he)).symm⟩
  · exact h.representatives e he

end Tracks

namespace RateLimiter

/-- The limiter after a sequence of `admit` calls. -/
def after (sha256 : String → Key) :
    RateLimiter policy Key → List (String × ℚ) → RateLimiter policy Key
  | limiter, [] => limiter
  | limiter, (identity, now) :: calls =>
      after sha256 (limiter.admitRequest sha256 identity now).2 calls

/-- Some log explains the limiter after any sequence of calls. -/
theorem tracks_after (h : Tracks sha256 limiter log before) {calls : List (String × ℚ)}
    (hclock : (before :: (calls.map Prod.snd ++ [later])).Pairwise (· ≤ ·)) :
    ∃ log' last, last ≤ later ∧ Tracks sha256 (limiter.after sha256 calls) log' last := by
  induction calls generalizing limiter log before with
  | nil => exact ⟨log, before, (List.pairwise_cons.mp hclock).1 later (by simp), h⟩
  | cons call calls ih =>
      obtain ⟨identity, now⟩ := call
      obtain ⟨hbefore, hrest⟩ := List.pairwise_cons.mp hclock
      exact ih (h.answers (hbefore now (by simp)) identity).2 hrest

/-- Some log explains what a limiter has become. -/
theorem tracks_new_after (policy : RateLimitPolicy) (sha256 : String → Key)
    {calls : List (String × ℚ)}
    (hclock : (calls.map Prod.snd ++ [later]).Pairwise (· ≤ ·)) :
    ∃ log last, last ≤ later ∧
      Tracks sha256 ((RateLimiter.new policy Key).after sha256 calls) log last := by
  cases calls with
  | nil => exact ⟨[], later, le_refl later, tracks_new policy sha256 later⟩
  | cons call calls =>
      refine tracks_after (tracks_new policy sha256 call.2) (List.pairwise_cons.mpr ⟨?_, hclock⟩)
      intro t ht
      rcases List.mem_cons.mp ht with rfl | ht
      · exact le_refl _
      · exact (List.pairwise_cons.mp hclock).1 t ht

/-- Calls that are rejected leave the log as it is. -/
theorem tracks_rejected (h : Tracks sha256 limiter log before) {calls : List (String × ℚ)}
    (hclock : (before :: (calls.map Prod.snd ++ [later])).Pairwise (· ≤ ·))
    (hrejected : ∀ decision ∈ limiter.run sha256 calls, decision.allowed = false) :
    ∃ last, last ≤ later ∧ Tracks sha256 (limiter.after sha256 calls) log last := by
  induction calls generalizing limiter before with
  | nil => exact ⟨before, (List.pairwise_cons.mp hclock).1 later (by simp), h⟩
  | cons call calls ih =>
      obtain ⟨identity, now⟩ := call
      obtain ⟨hbefore, hrest⟩ := List.pairwise_cons.mp hclock
      obtain ⟨hfirst, hothers⟩ := List.forall_mem_cons.mp hrejected
      obtain ⟨hanswers, htracks⟩ := h.answers (hbefore now (by simp)) identity
      rw [AdmittedLog.record, if_neg (hanswers.ne_none hfirst)] at htracks
      exact ih htracks hrest hothers

end RateLimiter

-- ============================================================================
-- Retry-After
-- ============================================================================

/-- The decision is a rejection with this status. -/
def RateLimitDecision.RejectedWith (decision : RateLimitDecision) (status : RejectStatus) : Prop :=
  decision.allowed = false ∧ decision.status = some status

/-- `retry_after_seconds` is at least one, reaches the instant it was derived from, and reaches
    it with its last second. -/
theorem reject_retryAfter (status : RejectStatus) (availableAt now : ℚ) :
    1 ≤ (RateLimiter.reject status availableAt now).retryAfterSeconds ∧
      availableAt ≤ now + 1000 * (RateLimiter.reject status availableAt now).retryAfterSeconds ∧
      (2 ≤ (RateLimiter.reject status availableAt now).retryAfterSeconds →
        now + 1000 * ((RateLimiter.reject status availableAt now).retryAfterSeconds - 1)
          < availableAt) := by
  have hceil := Int.le_ceil ((availableAt - now) / 1000)
  refine ⟨le_max_left _ _, ?_, ?_⟩
  · have hmax : (⌈(availableAt - now) / 1000⌉ : ℚ) ≤ (max 1 ⌈(availableAt - now) / 1000⌉ : ℤ) := by
      exact_mod_cast le_max_right 1 ⌈(availableAt - now) / 1000⌉
    simp only [RateLimiter.reject]
    linarith
  · intro htwo
    simp only [RateLimiter.reject] at htwo ⊢
    have hmax : max 1 ⌈(availableAt - now) / 1000⌉ = ⌈(availableAt - now) / 1000⌉ := by omega
    have hlt := Int.ceil_lt_add_one ((availableAt - now) / 1000)
    rw [hmax]
    linarith

/-- After any calls, a rejection is derived from one later instant, up to which the same identity
    stays refused, with the same status, and from which on it is admitted, unless somebody is
    admitted in between; `retry_after_seconds` reaches that instant with its last second. -/
theorem retry_after_sound_and_tight (policy : RateLimitPolicy) (sha256 : String → Key)
    (earlier : List (String × ℚ)) (identity : String) (now : ℚ)
    (hclock : (earlier.map Prod.snd ++ [now]).Pairwise (· ≤ ·))
    (hrejected : (((RateLimiter.new policy Key).after sha256 earlier).admitRequest sha256 identity
      now).1.allowed = false) :
    let answer := ((RateLimiter.new policy Key).after sha256 earlier).admitRequest sha256 identity now
    let seconds := answer.1.retryAfterSeconds
    ∃ status availableAt, answer.1 = RateLimiter.reject status availableAt now ∧
      now < availableAt ∧ 1 ≤ seconds ∧
      ∀ between later, (now :: (between.map Prod.snd ++ [later])).Pairwise (· ≤ ·) →
        (∀ decision ∈ answer.2.run sha256 between, decision.allowed = false) →
        let again := ((answer.2.after sha256 between).admitRequest sha256 identity later).1
        (now + 1000 * seconds ≤ later → again.allowed = true) ∧
          (availableAt ≤ later → again.allowed = true) ∧
          (later < availableAt → again.RejectedWith status) ∧
          (2 ≤ seconds → later ≤ now + 1000 * (seconds - 1) → again.RejectedWith status) := by
  intro answer seconds
  obtain ⟨log, last, hlast, htracks⟩ := RateLimiter.tracks_new_after policy sha256 hclock
  obtain ⟨hanswers, hnext⟩ := htracks.answers hlast identity
  have hverdict := hanswers.ne_none hrejected
  have hinj := htracks.representatives.noCollision identity
  have hagain := admitRequest_representative sha256
    ((RateLimiter.new policy Key).after sha256 earlier) identity now
  obtain ⟨status, availableAt, hdecision, havailable⟩ :=
    admit_rejected htracks.refines hlast hinj htracks.bounded (hagain ▸ hrejected)
  rw [hagain] at hdecision
  rw [AdmittedLog.record, if_neg hverdict] at hnext
  obtain ⟨hone, hreach, htight⟩ := reject_retryAfter status availableAt now
  have hseconds : seconds = (RateLimiter.reject status availableAt now).retryAfterSeconds :=
    congrArg RateLimitDecision.retryAfterSeconds hdecision
  rw [← hseconds] at hone hreach htight
  have hfuture : now < availableAt := by
    by_contra hpast
    exact hverdict (havailable.admitted now (le_refl now) (not_lt.mp hpast))
  refine ⟨status, availableAt, hdecision, hfuture, hone, ?_⟩
  intro between later hlater hbetween again
  obtain ⟨last', hlast', htracks'⟩ := RateLimiter.tracks_rejected hnext hlater hbetween
  obtain ⟨⟨hallowed, hstatus⟩, -⟩ := htracks'.answers hlast' identity
  have hnow : now ≤ later := (List.pairwise_cons.mp hlater).1 later (by simp)
  have hadmitted : availableAt ≤ later → again.allowed = true := by
    intro hle
    rw [havailable.admitted later hnow hle] at hallowed
    exact hallowed
  have hrefused : later < availableAt → again.RejectedWith status := by
    intro hlt
    rw [havailable.refused later hnow hlt] at hallowed hstatus
    exact ⟨hallowed, hstatus⟩
  refine ⟨fun hle => hadmitted (le_trans hreach hle), hadmitted, hrefused, ?_⟩
  intro htwo hle
  exact hrefused (lt_of_le_of_lt hle (htight htwo))

end

/-- One request of one client in two and a half seconds. -/
def singlePolicy : RateLimitPolicy := ⟨2500, 1, 1, by decide, Nat.one_pos, Nat.one_pos⟩

/-- The client comes back after 400 ms and is told to wait for three seconds: after two more it is
    still refused, and it is admitted after three, and already at the instant that the delay was
    derived from. -/
theorem retry_after_sound_and_tight_single :
    ∃ status availableAt, 400 < availableAt ∧
      (((RateLimiter.new singlePolicy (BitVec 256)).after sampleDigest
        [("a", 0), ("a", 400), ("b", 500)]).admitRequest sampleDigest "a" 2400).1.RejectedWith
          status ∧
      (((RateLimiter.new singlePolicy (BitVec 256)).after sampleDigest
        [("a", 0), ("a", 400), ("b", 500)]).admitRequest sampleDigest "a" 3400).1.allowed = true ∧
      (((RateLimiter.new singlePolicy (BitVec 256)).after sampleDigest
        [("a", 0), ("a", 400)]).admitRequest sampleDigest "a" availableAt).1.allowed = true := by
  obtain ⟨status, availableAt, -, hfuture, -, hlater⟩ := retry_after_sound_and_tight singlePolicy
    sampleDigest [("a", 0)] "a" 400 (by decide +kernel) (by decide +kernel)
  have hrefused := hlater [("b", 500)] 2400 (by decide +kernel) (by decide +kernel)
  have hadmitted := hlater [("b", 500)] 3400 (by decide +kernel) (by decide +kernel)
  have hopen := hlater [] availableAt (by simpa using hfuture.le) (by simp [RateLimiter.run])
  exact ⟨status, availableAt, hfuture, hrefused.2.2.2 (by decide +kernel) (by decide +kernel),
    hadmitted.1 (by decide +kernel), hopen.2.1 (le_refl availableAt)⟩

end QuickApi.RateLimit
