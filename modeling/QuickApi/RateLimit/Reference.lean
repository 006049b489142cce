/-
  QuickApi.RateLimit.Reference

  What the limiter is for: a plain sliding-window log.  The reference keeps
  every admitted (identity, time) pair for ever and decides each call by
  counting in the half-open window `(now - window, now]`.
-/

import QuickApi.RateLimit.Policy
import Mathlib.Data.Finset.Card

namespace QuickApi.RateLimit

/-- All admitted calls, oldest first. -/
abbrev AdmittedLog := List (String × ℚ)

namespace AdmittedLog

/-- The admitted times of one identity. -/
def timesOf (log : AdmittedLog) (identity : String) : List ℚ :=
  (log.filter fun e => e.1 = identity).map Prod.snd

/-- `t` lies in the window that ends at `now`. -/
def InWindow (policy : RateLimitPolicy) (now t : ℚ) : Prop :=
  now - policy.windowMs < t ∧ t ≤ now

instance (policy : RateLimitPolicy) (now t : ℚ) : Decidable (InWindow policy now t) :=
  inferInstanceAs (Decidable (_ ∧ _))

/-- The identities with an admitted time in the window. -/
def tracked (policy : RateLimitPolicy) (now : ℚ) (log : AdmittedLog) : Finset String :=
  ((log.filter fun e => InWindow policy now e.2).map Prod.fst).toFinset

/-- The admitted times of one identity in the window. -/
def recent (policy : RateLimitPolicy) (now : ℚ) (log : AdmittedLog) (identity : String) : List ℚ :=
  (log.timesOf identity).filter fun t => InWindow policy now t

/-- The reference decision: `none` admits. -/
def verdict (policy : RateLimitPolicy) (log : AdmittedLog) (identity : String) (now : ℚ) :
    Option RejectStatus :=
  if identity ∉ log.tracked policy now ∧ policy.maxClients ≤ (log.tracked policy now).card then
    some .serviceUnavailable
  else if policy.maxRequests ≤ (log.recent policy now identity).length then
    some .tooManyRequests
  else none

/-- The log after a call: only an admission is recorded. -/
def record (policy : RateLimitPolicy) (log : AdmittedLog) (identity : String) (now : ℚ) :
    AdmittedLog :=
  if log.verdict policy identity now = none then log ++ [(identity, now)] else log

/-- The reference decisions of a sequence of calls. -/
def run (policy : RateLimitPolicy) : AdmittedLog → List (String × ℚ) → List (Option RejectStatus)
  | _, [] => []
  | log, (identity, now) :: calls =>
      log.verdict policy identity now :: run policy (log.record policy identity now) calls

theorem record_admitted {policy : RateLimitPolicy} {log : AdmittedLog} {identity : String}
    {now : ℚ} (h : log.verdict policy identity now = none) :
    log.record policy identity now = log ++ [(identity, now)] := if_pos h

theorem record_rejected {policy : RateLimitPolicy} {log : AdmittedLog} {identity : String}
    {now : ℚ} {status : RejectStatus} (h : log.verdict policy identity now = some status) :
    log.record policy identity now = log := by
  rw [record, if_neg (by simp [h])]

theorem mem_tracked {policy : RateLimitPolicy} {now : ℚ} {log : AdmittedLog} {identity : String} :
    identity ∈ log.tracked policy now ↔ ∃ t, (identity, t) ∈ log ∧ InWindow policy now t := by
  simp [tracked]

theorem mem_timesOf {log : AdmittedLog} {identity : String} {t : ℚ} :
    t ∈ log.timesOf identity ↔ (identity, t) ∈ log := by
  simp [timesOf]

@[simp] theorem timesOf_append_self (log : AdmittedLog) (identity : String) (t : ℚ) :
    timesOf (log ++ [(identity, t)]) identity = log.timesOf identity ++ [t] := by
  simp [timesOf]

theorem timesOf_append_ne {identity other : String} (h : identity ≠ other) (log : AdmittedLog)
    (t : ℚ) : timesOf (log ++ [(other, t)]) identity = log.timesOf identity := by
  simp [timesOf, Ne.symm h]

/-- Dropping a rejected call changes no decision of the reference but its own. -/
theorem run_drop_rejected (policy : RateLimitPolicy) (log : AdmittedLog)
    (calls later : List (String × ℚ)) (call : String × ℚ)
    (hrejected : (run policy log (calls ++ call :: later))[calls.length]? ≠ some none) :
    run policy log (calls ++ later)
      = (run policy log (calls ++ call :: later)).eraseIdx calls.length := by
  induction calls generalizing log with
  | nil =>
      obtain ⟨identity, now⟩ := call
      have hverdict : log.verdict policy identity now ≠ none := by
        simpa [run] using hrejected
      simp [run, record, hverdict]
  | cons c calls ih =>
      obtain ⟨identity, now⟩ := c
      simpa [run] using ih (log.record policy identity now) (by simpa [run] using hrejected)

end AdmittedLog

end QuickApi.RateLimit
