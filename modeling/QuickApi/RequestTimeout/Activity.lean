/-
  QuickApi.RequestTimeout.Activity

  The activity that the transport and the owner of a mutation share
  (`app/common/handlers/request_activity.py`).  An inactive activity stays
  inactive and keeps its first reason.
-/

import Mathlib.Algebra.Order.Field.Rat

namespace QuickApi.RequestTimeout

/-- `RESPONSE_DEADLINE_MESSAGE` -/
def responseDeadlineMessage : String := "Application response deadline exceeded."

/-- `RequestActivity`; `expiresAt` is `none` for `float('inf')`. -/
structure RequestActivity where
  expiresAt : Option ℚ
  abandoned : Option String
  ownsMutation : Bool
deriving DecidableEq, Repr

namespace RequestActivity

/-- `RequestActivity()` -/
def new : RequestActivity := ⟨none, none, false⟩

/-- `abandon` -/
def abandon (a : RequestActivity) (reason : String) : RequestActivity :=
  if a.abandoned = none then { a with abandoned := some reason } else a

/-- `time.monotonic() >= self.expires_at` -/
def Expired (a : RequestActivity) (now : ℚ) : Prop := ∃ e ∈ a.expiresAt, e ≤ now

instance (a : RequestActivity) (now : ℚ) : Decidable (a.Expired now) :=
  match h : a.expiresAt with
  | none => isFalse (by simp [Expired, h])
  | some e => decidable_of_iff (e ≤ now) (by simp [Expired, h])

/-- `assert_active` with the reading of the clock it would make: the detail of the
    `RequestExpired` it raises, if it does, and the activity behind it. -/
def assertActive (a : RequestActivity) (now : ℚ) : Option String × RequestActivity :=
  match a.abandoned with
  | some reason => (some reason, a)
  | none =>
      if a.Expired now then
        let a := a.abandon responseDeadlineMessage
        (some (a.abandoned.getD responseDeadlineMessage), a)
      else (none, a)

/-- Neither abandoned nor past its deadline. -/
def Active (a : RequestActivity) (now : ℚ) : Prop := a.abandoned = none ∧ ¬ a.Expired now

instance (a : RequestActivity) (now : ℚ) : Decidable (a.Active now) :=
  inferInstanceAs (Decidable (_ ∧ _))

-- ============================================================================
-- Inactivity is permanent
-- ============================================================================

/-- `b` is a later state of the activity `a`: the deadline is the same and a recorded reason
    is kept. -/
structure Later (a b : RequestActivity) : Prop where
  expiresAt : b.expiresAt = a.expiresAt
  abandoned : ∀ reason, a.abandoned = some reason → b.abandoned = some reason
  ownsMutation : a.ownsMutation = true → b.ownsMutation = true

theorem Later.refl (a : RequestActivity) : a.Later a := ⟨rfl, fun _ h => h, fun h => h⟩

theorem Later.trans {a b c : RequestActivity} (h : a.Later b) (h' : b.Later c) : a.Later c where
  expiresAt := h'.expiresAt.trans h.expiresAt
  abandoned reason hr := h'.abandoned reason (h.abandoned reason hr)
  ownsMutation ho := h'.ownsMutation (h.ownsMutation ho)

theorem later_abandon (a : RequestActivity) (reason : String) : a.Later (a.abandon reason) := by
  unfold abandon
  split
  · next h =>
      refine ⟨rfl, ?_, fun ho => ho⟩
      intro r hr
      rw [h] at hr
      cases hr
  · exact .refl a

theorem abandoned_abandon (a : RequestActivity) (reason : String) :
    (a.abandon reason).abandoned ≠ none := by
  unfold abandon
  split
  · exact nofun
  · assumption

theorem assertActive_none_iff {a : RequestActivity} {now : ℚ} :
    (a.assertActive now).1 = none ↔ a.Active now := by
  unfold assertActive Active
  cases a.abandoned with
  | some reason => simp
  | none =>
      by_cases h : a.Expired now <;> simp [h]

theorem later_assertActive (a : RequestActivity) (now : ℚ) : a.Later (a.assertActive now).2 := by
  unfold assertActive
  split
  · exact .refl a
  · split
    · exact later_abandon a _
    · exact .refl a

/-- An inactive activity is inactive at every later time. -/
theorem Later.not_active {a b : RequestActivity} (h : a.Later b) {now later : ℚ}
    (hle : now ≤ later) (ha : ¬ a.Active now) : ¬ b.Active later := by
  rintro ⟨hb, hexpired⟩
  apply ha
  refine ⟨?_, ?_⟩
  · cases hr : a.abandoned with
    | none => rfl
    | some reason =>
        rw [h.abandoned reason hr] at hb
        cases hb
  · rintro ⟨e, he, hnow⟩
    exact hexpired ⟨e, h.expiresAt ▸ he, hnow.trans hle⟩

end RequestActivity

end QuickApi.RequestTimeout
