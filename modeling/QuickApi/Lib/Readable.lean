/-
  QuickApi.Lib.Readable

  Unique readability of concatenated texts.  A text that is read from the
  front of a longer one ends either where its own alphabet ends
  (`append_inj_of_alphabet`) or at a closing character after a separated
  sequence (`joinWith_unique`).
-/

import Mathlib.Data.List.Basic
import Mathlib.Data.List.Forall2

namespace QuickApi.Lib

variable {χ α β : Type*}

/-- `rest` is empty or starts with a character of `D`. -/
def StartsIn (D : χ → Prop) (rest : List χ) : Prop := ∀ c ∈ rest.head?, D c

theorem startsIn_nil (D : χ → Prop) : StartsIn D [] := by
  intro c hc
  cases hc

theorem startsIn_cons {D : χ → Prop} {c : χ} {rest : List χ} (h : D c) :
    StartsIn D (c :: rest) := by
  intro d hd
  obtain rfl : c = d := Option.some.inj hd
  exact h

/-- Two texts over an alphabet `p`, each followed by something that starts outside it, are
    read apart. -/
theorem append_inj_of_alphabet {p : χ → Prop} {s t r r' : List χ}
    (hs : ∀ c ∈ s, p c) (ht : ∀ c ∈ t, p c)
    (hr : StartsIn (fun c => ¬ p c) r) (hr' : StartsIn (fun c => ¬ p c) r')
    (h : s ++ r = t ++ r') : s = t ∧ r = r' := by
  induction s generalizing t with
  | nil =>
      cases t with
      | nil => exact ⟨rfl, h⟩
      | cons c t =>
          have hc : r.head? = some c := by
            rw [show r = c :: (t ++ r') from h]
            rfl
          exact absurd (ht c List.mem_cons_self) (hr c hc)
  | cons c s ih =>
      cases t with
      | nil =>
          have hc : r'.head? = some c := by
            rw [← show c :: (s ++ r) = r' from h]
            rfl
          exact absurd (hs c List.mem_cons_self) (hr' c hc)
      | cons d t =>
          obtain ⟨rfl, htail⟩ := List.cons.inj h
          obtain ⟨rfl, hrest⟩ := ih (fun x hx => hs x (List.mem_cons_of_mem _ hx))
            (fun x hx => ht x (List.mem_cons_of_mem _ hx)) htail
          exact ⟨rfl, hrest⟩

theorem exists_of_forall₂_left {R : α → β → Prop} {xs : List α} {ys : List β}
    (h : List.Forall₂ R xs ys) {x : α} (hx : x ∈ xs) : ∃ y ∈ ys, R x y := by
  induction h with
  | nil => cases hx
  | cons hR _ ih =>
      obtain rfl | hx := List.mem_cons.mp hx
      · exact ⟨_, List.mem_cons_self, hR⟩
      · obtain ⟨y, hy, hxy⟩ := ih hx
        exact ⟨y, List.mem_cons_of_mem _ hy, hxy⟩

theorem exists_of_forall₂_right {R : α → β → Prop} {xs : List α} {ys : List β}
    (h : List.Forall₂ R xs ys) {y : β} (hy : y ∈ ys) : ∃ x ∈ xs, R x y :=
  exists_of_forall₂_left h.flip hy

/-- Pieces that are read one by one. -/
theorem mapM_eq_some_iff {f : α → Option β} {xs : List α} {ys : List β} :
    xs.mapM f = some ys ↔ List.Forall₂ (fun x y => f x = some y) xs ys := by
  induction xs generalizing ys with
  | nil => simp [eq_comm]
  | cons x xs ih =>
      rw [List.mapM_cons]
      constructor
      · intro h
        obtain ⟨y, hy, h⟩ := Option.bind_eq_some_iff.mp h
        obtain ⟨ys', hys', h⟩ := Option.bind_eq_some_iff.mp h
        obtain rfl := Option.some.inj h
        exact .cons hy (ih.mp hys')
      · rintro (_ | ⟨hy, hys⟩)
        simp [hy, ih.mpr hys]

theorem mapM_isSome_iff {f : α → Option β} {xs : List α} :
    (xs.mapM f).isSome = true ↔ ∀ x ∈ xs, (f x).isSome = true := by
  constructor
  · intro h x hx
    obtain ⟨ys, hys⟩ := Option.isSome_iff_exists.mp h
    obtain ⟨y, -, hxy⟩ := exists_of_forall₂_left (mapM_eq_some_iff.mp hys) hx
    rw [hxy]
    rfl
  · intro h
    induction xs with
    | nil => rfl
    | cons x xs ih =>
        obtain ⟨y, hy⟩ := Option.isSome_iff_exists.mp (h x List.mem_cons_self)
        obtain ⟨ys, hys⟩ := Option.isSome_iff_exists.mp
          (ih fun x hx => h x (List.mem_cons_of_mem _ hx))
        rw [List.mapM_cons, hy, hys]
        rfl

/-- What was written piece by piece is read piece by piece. -/
theorem mapM_map_eq_some {f : β → Option α} {g : α → β} {xs : List α}
    (h : ∀ x ∈ xs, f (g x) = some x) : (xs.map g).mapM f = some xs := by
  rw [mapM_eq_some_iff, List.forall₂_map_left_iff]
  exact List.forall₂_same.mpr h

/-- The pieces separated by `sep`. -/
def joinWith (sep : χ) : List (List χ) → List χ
  | [] => []
  | [piece] => piece
  | piece :: next :: pieces => piece ++ sep :: joinWith sep (next :: pieces)

/-- A nonempty joined sequence is its first piece followed by a separator or by the end. -/
theorem joinWith_cons (sep close : χ) (piece : List χ) (pieces : List (List χ)) (r : List χ) :
    ∃ rest, joinWith sep (piece :: pieces) ++ close :: r = piece ++ rest ∧
      StartsIn (fun c => c = sep ∨ c = close) rest ∧
      ((pieces = [] ∧ rest = close :: r) ∨
        (pieces ≠ [] ∧ rest = sep :: (joinWith sep pieces ++ close :: r))) := by
  cases pieces with
  | nil => exact ⟨close :: r, rfl, startsIn_cons (Or.inr rfl), Or.inl ⟨rfl, rfl⟩⟩
  | cons next pieces =>
      refine ⟨sep :: (joinWith sep (next :: pieces) ++ close :: r), ?_,
        startsIn_cons (Or.inl rfl), Or.inr ⟨List.cons_ne_nil _ _, rfl⟩⟩
      simp [joinWith]

section
variable {f : α → List χ} {g : β → List χ} {R : α → β → Prop} {D : χ → Prop} {sep close : χ}

/-- Separated sequences are read apart when their pieces are: equal texts up to the closing
    character carry pointwise related elements and continue equally. -/
theorem joinWith_unique {xs : List α} {ys : List β} {r r' : List χ} (hne : sep ≠ close)
    (hsep : D sep) (hclose : D close)
    (hf : ∀ x ∈ xs, ∃ c rest, f x = c :: rest ∧ c ≠ close)
    (hg : ∀ y ∈ ys, ∃ c rest, g y = c :: rest ∧ c ≠ close)
    (hread : ∀ x ∈ xs, ∀ y ∈ ys, ∀ q q', StartsIn D q → StartsIn D q' →
      f x ++ q = g y ++ q' → R x y ∧ q = q')
    (h : joinWith sep (xs.map f) ++ close :: r = joinWith sep (ys.map g) ++ close :: r') :
    List.Forall₂ R xs ys ∧ r = r' := by
  have hweak : ∀ q : List χ, StartsIn (fun c => c = sep ∨ c = close) q → StartsIn D q := by
    intro q hq c hc
    rcases hq c hc with rfl | rfl
    · exact hsep
    · exact hclose
  induction xs generalizing ys with
  | nil =>
      cases ys with
      | nil => exact ⟨.nil, (List.cons.inj h).2⟩
      | cons y ys =>
          obtain ⟨rest, heq, -, -⟩ := joinWith_cons sep close (g y) (ys.map g) r'
          obtain ⟨c, tail, hy, hc⟩ := hg y List.mem_cons_self
          rw [List.map_cons, heq, hy] at h
          exact absurd (List.cons.inj h).1.symm hc
  | cons x xs ih =>
      cases ys with
      | nil =>
          obtain ⟨rest, heq, -, -⟩ := joinWith_cons sep close (f x) (xs.map f) r
          obtain ⟨c, tail, hx, hc⟩ := hf x List.mem_cons_self
          rw [List.map_cons, heq, hx] at h
          exact absurd (List.cons.inj h).1 hc
      | cons y ys =>
          obtain ⟨rest, heq, hstart, hcase⟩ := joinWith_cons sep close (f x) (xs.map f) r
          obtain ⟨rest', heq', hstart', hcase'⟩ := joinWith_cons sep close (g y) (ys.map g) r'
          rw [List.map_cons, List.map_cons, heq, heq'] at h
          obtain ⟨hR, hrest⟩ := hread x List.mem_cons_self y List.mem_cons_self rest rest'
            (hweak _ hstart) (hweak _ hstart') h
          rcases hcase with ⟨hnil, rfl⟩ | ⟨hcons, rfl⟩ <;>
            rcases hcase' with ⟨hnil', rfl⟩ | ⟨hcons', rfl⟩
          · obtain rfl := List.map_eq_nil_iff.mp hnil
            obtain rfl := List.map_eq_nil_iff.mp hnil'
            exact ⟨.cons hR .nil, (List.cons.inj hrest).2⟩
          · exact absurd (List.cons.inj hrest).1.symm hne
          · exact absurd (List.cons.inj hrest).1 hne
          · obtain ⟨hall, htail⟩ := ih (fun x hx => hf x (List.mem_cons_of_mem _ hx))
              (fun y hy => hg y (List.mem_cons_of_mem _ hy))
              (fun x hx y hy => hread x (List.mem_cons_of_mem _ hx) y (List.mem_cons_of_mem _ hy))
              (List.cons.inj hrest).2
            exact ⟨.cons hR hall, htail⟩

end

end QuickApi.Lib
