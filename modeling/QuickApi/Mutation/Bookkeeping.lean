/-
  QuickApi.Mutation.Bookkeeping

  The session keeps the contract: what `Txn` says about the session, its
  connection and what is known of it holds through every statement, flush and
  failure inside `async with session.begin()`.
-/

import QuickApi.Mutation.Contract

namespace QuickApi.Mutation

open QuickApi.Fingerprint (Text)
open QuickApi.RequestTimeout (RequestActivity)
open QuickApi.Lib QuickApi.Lib.Program

-- ============================================================================
-- Assertions
-- ============================================================================

section Rules

variable {W D α β : Type} {cfg : Config} {v : Vars} {P Q' : Core W → SessionState W → Prop}
  {Q : α → Core W → SessionState W → Prop} {E : Core W → SessionState W → Prop}

/-- The activity has only grown older since it was last seen, and the response that a commit was
    sent with is still the prepared one. -/
structure Ghost.Agrees (g : Ghost W) (activity : RequestActivity) (vars : Vars) : Prop where
  seen : g.seen.Later activity
  sent : ∀ r, g.sent = some r → vars.response = some r

/-- Behind the answer to an operation that is no commit. -/
theorem Ghost.Agrees.after {g : Ghost W} {s s' : Local W} (h : g.Agrees s.activity s.vars)
    (hvars : s'.vars = s.vars) (op : Op W) (hop : op ≠ .stmt .commit) (a : op.Ans D) :
    (g.after op a s').Agrees s'.activity s'.vars where
  seen := .refl _
  sent r hr := by
    rw [hvars]
    cases op with
    | stmt st =>
        cases st with
        | commit => exact absurd rfl hop
        | _ => exact h.sent r hr
    | _ => exact h.sent r hr

/-- The variables are `v`, the connection and the session in `P`. -/
def At (v : Vars) (P : Core W → SessionState W → Prop) (g : Ghost W) (s : Local W) : Prop :=
  g.Agrees s.activity s.vars ∧ s.vars = v ∧ P g.core s.session

/-- The triple of a program that leaves the variables alone. -/
def Meets (cfg : Config) (v : Vars) (P : Core W → SessionState W → Prop) (p : Task W D α)
    (Q : α → Core W → SessionState W → Prop) (E : Core W → SessionState W → Prop) : Prop :=
  Triple (contract cfg) (At v P) p (fun a => At v (Q a)) fun _ => At v E

theorem At.imp {g : Ghost W} {s : Local W} (h : At v P g s) (hQ : ∀ c ss, P c ss → Q' c ss) :
    At v Q' g s := ⟨h.1, h.2.1, hQ _ _ h.2.2⟩

theorem Meets.conseq {P' F : Core W → SessionState W → Prop}
    {Q' : α → Core W → SessionState W → Prop} {p : Task W D α} (h : Meets cfg v P p Q E)
    (hP : ∀ c ss, P' c ss → P c ss) (hQ : ∀ a c ss, Q a c ss → Q' a c ss)
    (hE : ∀ c ss, E c ss → F c ss) : Meets cfg v P' p Q' F :=
  Triple.conseq h (fun _ _ hs => hs.imp hP) (fun a _ _ hs => hs.imp (hQ a))
    fun _ _ _ hs => hs.imp hE

theorem Meets.pre {P' : Core W → SessionState W → Prop} {p : Task W D α}
    (h : Meets cfg v P p Q E) (hP : ∀ c ss, P' c ss → P c ss) : Meets cfg v P' p Q E :=
  h.conseq hP (fun _ _ _ h => h) fun _ _ h => h

/-- A weaker account of what holds where the program raises. -/
theorem Meets.raising {F : Ghost W → Local W → Prop} {p : Task W D α} (h : Meets cfg v P p Q E)
    (hE : ∀ g s, At v E g s → F g s) :
    Triple (contract cfg) (At v P) p (fun a => At v (Q a)) fun _ => F :=
  Triple.conseq h (fun _ _ hs => hs) (fun _ _ _ hs => hs) fun _ => hE

theorem Meets.bind {f : α → Task W D β} {R : β → Core W → SessionState W → Prop}
    {p : Task W D α} (hp : Meets cfg v P p Q E) (hf : ∀ a, Meets cfg v (Q a) (f a) R E) :
    Meets cfg v P (p >>= f) R E := Triple.bind hp hf

theorem meets_pure {a : α} (h : ∀ c ss, P c ss → Q a c ss) :
    Meets cfg v P (pure a : Task W D α) Q E := fun _ _ hs => hs.imp h

theorem meets_raise {e : Exc} (h : ∀ c ss, P c ss → E c ss) :
    Meets cfg v P (Program.raise e : Task W D α) Q E := fun _ _ hs => hs.imp h

theorem triple_modifySession {f : SessionState W → SessionState W}
    {E : Exc → Ghost W → Local W → Prop} (h : ∀ c ss, P c ss → Q' c (f ss)) :
    Triple (contract cfg) (At v P) (Task.modifySession f : Task W D Unit) (fun _ => At v Q') E :=
  fun _ _ hs => ⟨hs.1, hs.2.1, h _ _ hs.2.2⟩

theorem meets_modifySession {f : SessionState W → SessionState W}
    (h : ∀ c ss, P c ss → Q' c (f ss)) :
    Meets cfg v P (Task.modifySession f : Task W D Unit) (fun _ => Q') E := triple_modifySession h

/-- Reading the session names it. -/
theorem meets_session {f : SessionState W → Task W D α}
    (h : ∀ o, Meets cfg v (fun c ss => P c ss ∧ ss = o) (f o) Q E) :
    Meets cfg v P (Task.session >>= f) Q E := fun g s hs =>
  h s.session g s ⟨hs.1, hs.2.1, hs.2.2, rfl⟩

theorem triple_session {R : Ghost W → Local W → Prop} {Q : α → Ghost W → Local W → Prop}
    {E : Exc → Ghost W → Local W → Prop} {f : SessionState W → Task W D α}
    (h : ∀ o, Triple (contract cfg) (fun g s => R g s ∧ s.session = o) (f o) Q E) :
    Triple (contract cfg) R (Task.session >>= f) Q E := fun g s hs => h s.session g s ⟨hs, rfl⟩

theorem triple_thenAlways {R : Ghost W → Local W → Prop} {Q S : α → Ghost W → Local W → Prop}
    {E F : Exc → Ghost W → Local W → Prop} {p : Task W D α} {q : Task W D Unit}
    (hp : Triple (contract cfg) R p S F) (hok : ∀ a, Triple (contract cfg) (S a) q (fun _ => Q a) E)
    (herr : ∀ e, Triple (contract cfg) (F e) q (fun _ => E e) E) :
    Triple (contract cfg) R (Task.thenAlways p q) Q E := Triple.finallyDo hp hok herr

/-- The response is prepared once. -/
theorem triple_modifyVars {f : Vars → Vars} {E : Exc → Ghost W → Local W → Prop}
    (hf : v.response = none ∨ (f v).response = v.response) :
    Triple (contract cfg) (At v P) (Task.modifyVars f : Task W D Unit) (fun _ => At (f v) P) E := by
  rintro g s ⟨⟨hseen, hsent⟩, rfl, hP⟩
  refine ⟨⟨hseen, fun r hr => ?_⟩, rfl, hP⟩
  rcases hf with hnone | hsame
  · exact absurd (hnone.symm.trans (hsent r hr)) nofun
  · exact hsame.trans (hsent r hr)

theorem triple_vars {Q : α → Ghost W → Local W → Prop} {E : Exc → Ghost W → Local W → Prop}
    {f : Vars → Task W D α} (h : Triple (contract cfg) (At v P) (f v) Q E) :
    Triple (contract cfg) (At v P) (Task.vars >>= f) Q E := by
  rintro g s ⟨hseen, rfl, hP⟩
  exact h g s ⟨hseen, rfl, hP⟩

/-- A value or an exception that does not depend on the state. -/
theorem triple_ofExcept {R : Ghost W → Local W → Prop} {Q : β → Ghost W → Local W → Prop}
    {E : Exc → Ghost W → Local W → Prop} {r : Except Exc α} {f : α → Task W D β}
    (hok : ∀ a, r = .ok a → Triple (contract cfg) R (f a) Q E)
    (herr : ∀ e, r = .error e → ∀ g s, R g s → E e g s) :
    Triple (contract cfg) R (Task.ofExcept r >>= f) Q E := by
  cases r with
  | ok a => exact hok a rfl
  | error e => exact herr e rfl

theorem meets_vars {f : Vars → Task W D α} (h : Meets cfg v P (f v) Q E) :
    Meets cfg v P (Task.vars >>= f) Q E := by
  rintro g s ⟨hseen, rfl, hP⟩
  exact h g s ⟨hseen, rfl, hP⟩

theorem meets_of_cond {c : Prop} {p : Task W D α} (h : c → Meets cfg v P p Q E)
    (hP : ∀ k ss, P k ss → c) : Meets cfg v P p Q E :=
  Triple.of_cond h fun _ _ hs => hP _ _ hs.2.2

/-- An assertion of the form "for some `x`" is met at each `x`. -/
theorem meets_exists {ι : Type} {P : ι → Core W → SessionState W → Prop} {p : Task W D α}
    (h : ∀ x, Meets cfg v (P x) p Q E) : Meets cfg v (fun c ss => ∃ x, P x c ss) p Q E := by
  rintro g s ⟨hseen, hv, x, hP⟩
  exact h x g s ⟨hseen, hv, hP⟩

theorem Meets.thenAlways {p : Task W D α} {q : Task W D Unit}
    {R : α → Core W → SessionState W → Prop} {F : Core W → SessionState W → Prop}
    (hp : Meets cfg v P p Q F) (hok : ∀ a, Meets cfg v (Q a) q (fun _ => R a) E)
    (herr : Meets cfg v F q (fun _ => E) E) : Meets cfg v P (Task.thenAlways p q) R E :=
  Triple.finallyDo hp hok fun _ => herr

/-- A check of the activity changes nothing else, and one that passes is fresh. -/
theorem assertActive_triple :
    Triple (contract cfg) (At v P) (Task.assertActive : Task W D Unit)
      (fun _ g s => At v P g s ∧ g.fresh = true) fun _ => At v P := by
  rintro g s ⟨hseen, hv, hP⟩
  rw [Task.assertActive, wp_bind, wp_get]
  dsimp only
  cases hab : s.activity.abandoned with
  | some reason => exact ⟨hseen, hv, hP⟩
  | none =>
      refine ⟨⟨hseen.seen, trivial, nofun⟩, ?_⟩
      rintro (t : ℚ) s' ⟨hsession, hvars, -, hactivity⟩
      have hagrees := hseen.after (D := D) hvars .clock nofun t
      change wp (contract cfg) (Task.assertActiveAt t)
        (Ghost.after (D := D) g Op.clock t s') s' _
      rw [Task.assertActiveAt, wp_bind, wp_get]
      cases hcheck : s'.activity.assertActive t with
      | mk detail activity =>
          have hlater := s'.activity.later_assertActive t
          simp only [hcheck] at hlater ⊢
          cases detail with
          | none =>
              have hactive : s'.activity.Active t :=
                RequestTimeout.RequestActivity.assertActive_none_iff.mp (by rw [hcheck])
              exact ⟨⟨⟨hlater, hagrees.sent⟩, hvars.trans hv, by rw [hsession]; exact hP⟩,
                decide_eq_true hactive⟩
          | some detail =>
              exact ⟨⟨hlater, hagrees.sent⟩, hvars.trans hv, by rw [hsession]; exact hP⟩

theorem assertActive_meets :
    Meets cfg v P (Task.assertActive : Task W D Unit) (fun _ => P) P :=
  assertActive_triple.post fun _ _ _ h => h.1

/-- An operation whose reply says nothing about the database. -/
theorem pause_meets : Meets cfg v P (Task.pause : Task W D D) (fun _ => P) P := by
  rintro g s ⟨hseen, hv, hP⟩
  refine ⟨⟨hseen.seen, trivial, nofun⟩, ?_⟩
  rintro a s' ⟨hsession, hvars, -, -⟩
  have hat : At v P (g.after Op.pause a s') s' := ⟨hseen.after hvars .pause nofun _, hvars.trans hv, hsession ▸ hP⟩
  cases a with
  | ok d => exact hat
  | failed e => exact hat
  | lost e => exact hat

/-- A statement that is no commit: not sent on an invalid connection, answered, refused, or
    lost. -/
theorem execute_meets {q : Stmt W} {Q : q.Value D → Core W → SessionState W → Prop}
    (hq : q ≠ .commit)
    (hallowed : ∀ c ss fresh, P c ss → ss.invalidated = false →
      c.out = true ∧ c.doomed = false ∧ q.Allowed cfg c fresh v)
    (hok : ∀ c ss a, P c ss → ss.invalidated = false → Q a (c.answered q a) ss)
    (hfailed : ∀ c ss, P c ss → ss.invalidated = false → E (c.failed q) ss)
    (hlost : ∀ c ss, P c ss → ss.invalidated = false →
      E c.lost { ss with invalidated := true })
    (hinvalid : ∀ c ss, P c ss → ss.invalidated = true → E c ss) :
    Meets cfg v P (Task.execute q : Task W D (q.Value D)) Q E := by
  refine meets_session fun o => ?_
  cases hinv : o.invalidated with
  | true =>
      refine meets_raise ?_
      rintro c ss ⟨hP, rfl⟩
      exact hinvalid c _ hP hinv
  | false =>
      rintro g s ⟨hseen, hv, hP, hs⟩
      have hinv' : s.session.invalidated = false := by rw [hs, hinv]
      have hop : Op.stmt q ≠ .stmt .commit := fun heq => hq (Op.stmt.inj heq)
      refine ⟨⟨hseen.seen, hv ▸ hallowed _ _ g.fresh hP hinv', fun heq => absurd heq hop⟩, ?_⟩
      rintro a s' ⟨hsession, hvars, -, -⟩
      have hagrees := hseen.after (D := D) hvars (.stmt q) hop a
      cases a with
      | ok a =>
          refine ⟨hagrees, hvars.trans hv, ?_⟩
          rw [hsession]
          exact hok _ _ a hP hinv'
      | failed e =>
          refine ⟨hagrees, hvars.trans hv, ?_⟩
          rw [hsession]
          exact hfailed _ _ hP hinv'
      | lost e =>
          refine ⟨hagrees, hvars.trans hv, ?_⟩
          have hlost' := hlost _ _ hP hinv'
          rw [← hsession] at hlost'
          exact hlost'

theorem checkout_meets
    (hallowed : ∀ c ss, P c ss → c.taken = false)
    (hok : ∀ c ss, P c ss →
      Q' c.connected { ss with invalidated := false, inTransaction := false })
    (herr : ∀ c ss, P c ss → E c ss) :
    Meets cfg v P (Task.checkout : Task W D Unit) (fun _ => Q') E := by
  rintro g s ⟨hseen, hv, hP⟩
  refine ⟨⟨hseen.seen, hallowed _ _ hP, nofun⟩, ?_⟩
  rintro a s' ⟨hsession, hvars, -, -⟩
  have hagrees := hseen.after (D := D) hvars .checkout nofun a
  cases a with
  | ok _ =>
      refine ⟨hagrees, hvars.trans hv, ?_⟩
      have hok' := hok _ _ hP
      rw [← hsession] at hok'
      exact hok'
  | failed e => exact ⟨hagrees, hvars.trans hv, hsession ▸ herr _ _ hP⟩
  | lost e => exact ⟨hagrees, hvars.trans hv, hsession ▸ herr _ _ hP⟩

/-- However it ends, an invalidation that was started dooms the connection. -/
theorem invalidate_meets (hout : ∀ c ss, P c ss → ss.invalidated = false → c.out = true)
    (hvalid : ∀ c ss, P c ss → ss.invalidated = true → Q' c ss)
    (hok : ∀ c ss, P c ss → ss.invalidated = false →
      Q' c.lost { ss with invalidated := true } ∧ E c.lost { ss with invalidated := true } ∧
        E c.lost ss) :
    Meets cfg v P (Task.invalidate : Task W D Unit) (fun _ => Q') E := by
  refine meets_session fun o => ?_
  cases hinv : o.invalidated with
  | true =>
      refine meets_pure ?_
      rintro c ss ⟨hP, rfl⟩
      exact hvalid c _ hP hinv
  | false =>
      rintro g s ⟨hseen, hv, hP, hs⟩
      have hinv' : s.session.invalidated = false := by rw [hs, hinv]
      refine ⟨⟨hseen.seen, hout _ _ hP hinv', nofun⟩, ?_⟩
      rintro a s' ⟨hsession, hvars, -, -⟩
      have hagrees := hseen.after (D := D) hvars .invalidate nofun a
      obtain ⟨hdone, hlost, hfailed⟩ := hok _ _ hP hinv'
      rw [← hsession] at hdone hlost hfailed
      cases a with
      | ok _ => exact ⟨hagrees, hvars.trans hv, hdone⟩
      | failed e => exact ⟨hagrees, hvars.trans hv, hfailed⟩
      | lost e => exact ⟨hagrees, hvars.trans hv, hlost⟩

theorem close_meets
    (hallowed : ∀ c ss, P c ss → c.out = true ∧
      (c.doomed = false → c.view.lock = .free ∧ (c.role.isKeyed = true → v.failed = false)))
    (hclosed : ∀ c ss, P c ss → Q' c.closed ss ∧ E c.closed ss) :
    Meets cfg v P (Task.close : Task W D Unit) (fun _ => Q') E := by
  rintro g s ⟨hseen, hv, hP⟩
  refine ⟨⟨hseen.seen, hv ▸ hallowed _ _ hP, nofun⟩, ?_⟩
  rintro a s' ⟨hsession, hvars, -, -⟩
  have hagrees := hseen.after (D := D) hvars .close nofun a
  obtain ⟨hok, herr⟩ := hclosed _ _ hP
  rw [← hsession] at hok herr
  cases a with
  | ok _ => exact ⟨hagrees, hvars.trans hv, hok⟩
  | failed e => exact ⟨hagrees, hvars.trans hv, herr⟩
  | lost e => exact ⟨hagrees, hvars.trans hv, herr⟩

end Rules

end QuickApi.Mutation
