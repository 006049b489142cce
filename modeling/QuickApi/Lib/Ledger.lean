/-
  QuickApi.Lib.Ledger

  A ledger of changes to one value: each entry has the value before and behind
  it and its time.  Entries are only appended, each to the value of the last,
  so that what every entry keeps holds from one entry to any later one.
-/

import Mathlib.Data.List.Chain

namespace QuickApi.Lib

variable {ε σ : Type*}

/-- The entries `es` have led to the value `current`, up to the time `now`. -/
structure Ledger (before after : ε → σ) (time : ε → ℕ) (es : List ε) (current : σ) (now : ℕ) :
    Prop where
  linked : es.IsChain fun e e' => before e' = after e
  last : ∀ e ∈ es.getLast?, after e = current
  times : es.Pairwise fun e e' => time e ≤ time e'
  past : ∀ e ∈ es, time e ≤ now

namespace Ledger

variable {before after : ε → σ} {time : ε → ℕ} {es : List ε} {current : σ} {now : ℕ}

theorem nil (current : σ) (now : ℕ) : Ledger before after time [] current now where
  linked := .nil
  last := nofun
  times := .nil
  past := nofun

theorem pass (h : Ledger before after time es current now) {later : ℕ} (hle : now ≤ later) :
    Ledger before after time es current later where
  linked := h.linked
  last := h.last
  times := h.times
  past e he := (h.past e he).trans hle

/-- A change of the current value is entered. -/
theorem append (h : Ledger before after time es current now) {e : ε} (hbefore : before e = current)
    (htime : time e = now) : Ledger before after time (es ++ [e]) (after e) now where
  linked := by
    refine h.linked.append (.singleton e) fun x hx y hy => ?_
    obtain rfl : e = y := Option.some.inj hy
    exact hbefore.trans (h.last x hx).symm
  last x hx := by
    rw [List.getLast?_append] at hx
    obtain rfl : e = x := Option.some.inj hx
    rfl
  times := by
    refine List.pairwise_append.mpr ⟨h.times, List.pairwise_singleton .., fun x hx y hy => ?_⟩
    obtain rfl := List.mem_singleton.mp hy
    exact (h.past x hx).trans htime.ge
  past x hx := by
    rcases List.mem_append.mp hx with hx | hx
    · exact h.past x hx
    · obtain rfl := List.mem_singleton.mp hx
      exact htime.le

/-- What holds behind an entry, and what every entry up to a later one keeps, holds before the
    later one. -/
theorem keeps (h : Ledger before after time es current now) {P : σ → Prop} {e e' : ε}
    {pre mid post : List ε} (hes : es = pre ++ e :: (mid ++ e' :: post)) (he : P (after e))
    (hmid : ∀ x ∈ mid, time x ≤ time e' → P (before x) → P (after x)) : P (before e') := by
  induction mid generalizing pre e with
  | nil =>
      have hlinked := hes ▸ h.linked
      have hlink : before e' = after e := (List.isChain_append_cons_cons.mp hlinked).2.1
      exact hlink ▸ he
  | cons x mid ih =>
      have hlinked := hes ▸ h.linked
      have hlink : before x = after e := (List.isChain_append_cons_cons.mp hlinked).2.1
      have htimes := hes ▸ h.times
      have htime : time x ≤ time e' := by
        have htail := (List.pairwise_append.mp htimes).2.1
        have hrest := (List.pairwise_cons.mp (List.pairwise_cons.mp htail).2).1
        exact hrest e' (List.mem_append_right mid List.mem_cons_self)
      have hsplit : es = (pre ++ [e]) ++ x :: (mid ++ e' :: post) := by
        rw [hes]
        simp
      refine ih hsplit ?_ fun y hy => ?_
      · exact hmid x List.mem_cons_self htime (hlink ▸ he)
      · exact hmid y (List.mem_cons_of_mem x hy)

/-- The value behind an entry is the one before the next, or the current one. -/
theorem later (h : Ledger before after time es current now) {e : ε} (he : e ∈ es) :
    (∃ e' ∈ es, before e' = after e) ∨ after e = current := by
  obtain ⟨pre, post, rfl⟩ := List.append_of_mem he
  cases post with
  | nil => exact .inr (h.last e (List.getLast?_concat ..))
  | cons e' post =>
      have hlink : before e' = after e := (List.isChain_append_cons_cons.mp h.linked).2.1
      exact .inl ⟨e', by simp, hlink⟩

end Ledger

end QuickApi.Lib
