/-
  QuickApi.Lib.Weave

  A list with one more item put in before some of its members, the places
  named by their index in the list as it was. Inserting from the highest place
  down leaves the lower ones where they are, so a run of single insertions
  makes the same list.
-/
import Mathlib.Data.Nat.Count
import Mathlib.Data.List.Sort

namespace QuickApi.Lib

variable {α : Type*}

/-- Insertion at an index, as in `lines.insert(index, item)`. -/
def insertAt (item : α) (lines : List α) (index : Nat) : List α :=
  lines.take index ++ item :: lines.drop index

/-- The list whose first member has the index `n`, with `item` before each
    member whose index is marked. -/
def weave (item : α) (marks : List Nat) : Nat → List α → List α
  | _, [] => []
  | n, line :: lines =>
    if n ∈ marks then item :: line :: weave item marks (n + 1) lines
    else line :: weave item marks (n + 1) lines

/-- Where the line with the number `l`, counted from 1, stands afterwards. -/
def moved (marks : List Nat) (l : Nat) : Nat := l + Nat.count (· ∈ marks) l

/-! ## The lines that move -/

section Moved

variable (marks : List Nat)

@[simp] theorem moved_zero : moved marks 0 = 0 := by simp [moved]

theorem le_moved (l : Nat) : l ≤ moved marks l := Nat.le_add_right l _

theorem moved_strictMono : StrictMono (moved marks) := by
  intro a b h
  have hcount : Nat.count (· ∈ marks) a ≤ Nat.count (· ∈ marks) b := Nat.count_monotone _ h.le
  simp only [moved]
  omega

theorem moved_mono {a b : Nat} (h : a ≤ b) : moved marks a ≤ moved marks b :=
  (moved_strictMono marks).monotone h

@[simp] theorem moved_le_moved_iff {a b : Nat} : moved marks a ≤ moved marks b ↔ a ≤ b :=
  (moved_strictMono marks).le_iff_le

theorem moved_succ (l : Nat) :
    moved marks (l + 1) = moved marks l + 1 + if l ∈ marks then 1 else 0 := by
  simp only [moved, Nat.count_succ]
  omega

@[simp] theorem moved_nil (l : Nat) : moved [] l = l := by
  induction l with
  | zero => rfl
  | succ l ih => simp [moved_succ, ih]

theorem moved_add_le {a b : Nat} (h : a ≤ b) : moved marks a + (b - a) ≤ moved marks b := by
  have hcount : Nat.count (· ∈ marks) a ≤ Nat.count (· ∈ marks) b := Nat.count_monotone _ h
  simp only [moved]
  omega

/-- A stretch of lines grows exactly when a mark lies in it. -/
theorem exists_mark_iff {a b : Nat} (h : a ≤ b) :
    (∃ i ∈ marks, a ≤ i ∧ i < b) ↔ moved marks a + (b - a) < moved marks b := by
  induction b, h using Nat.le_induction with
  | base =>
    simp only [Nat.sub_self, Nat.add_zero, lt_irrefl, iff_false]
    rintro ⟨i, -, hlo, hhi⟩
    omega
  | succ b hab ih =>
    have hgrow := moved_add_le marks hab
    have hdiff : b + 1 - a = b - a + 1 := by omega
    rw [moved_succ, hdiff]
    by_cases hmark : b ∈ marks
    · have hmore : moved marks a + (b - a + 1) < moved marks b + 1 + 1 := by omega
      rw [if_pos hmark]
      exact iff_of_true ⟨b, hmark, hab, Nat.lt_succ_self b⟩ hmore
    · have hsame : (∃ i ∈ marks, a ≤ i ∧ i < b + 1) ↔ ∃ i ∈ marks, a ≤ i ∧ i < b := by
        refine exists_congr fun i => and_congr_right fun hi => and_congr_right fun _ => ?_
        have hne : i ≠ b := fun heq => hmark (heq ▸ hi)
        omega
      rw [hsame, ih, if_neg hmark]
      omega

end Moved

/-! ## The woven list -/

section Weave

variable (item : α) (marks : List Nat)

@[simp] theorem weave_nil_marks (n : Nat) (lines : List α) : weave item [] n lines = lines := by
  induction lines generalizing n with
  | nil => rfl
  | cons line lines ih => simp [weave, ih]

theorem weave_append (n : Nat) (front back : List α) :
    weave item marks n (front ++ back)
      = weave item marks n front ++ weave item marks (n + front.length) back := by
  induction front generalizing n with
  | nil => simp [weave]
  | cons line front ih =>
    have hlength : n + 1 + front.length = n + (front.length + 1) := by omega
    by_cases hn : n ∈ marks <;> simp [weave, hn, ih, hlength]

theorem mem_weave {n : Nat} {line : α} {lines : List α} (h : line ∈ weave item marks n lines) :
    line = item ∨ line ∈ lines := by
  induction lines generalizing n with
  | nil => simp [weave] at h
  | cons first lines ih =>
    by_cases hn : n ∈ marks
    · simp only [weave, if_pos hn, List.mem_cons] at h
      rcases h with rfl | rfl | h
      · exact .inl rfl
      · exact .inr List.mem_cons_self
      · exact (ih h).imp_right (List.mem_cons_of_mem _)
    · simp only [weave, if_neg hn, List.mem_cons] at h
      rcases h with rfl | h
      · exact .inr List.mem_cons_self
      · exact (ih h).imp_right (List.mem_cons_of_mem _)

/-- Only the marks at the members' own indexes matter. -/
theorem weave_congr (marks' : List Nat) {n : Nat} {lines : List α}
    (h : ∀ i, n ≤ i → i < n + lines.length → (i ∈ marks ↔ i ∈ marks')) :
    weave item marks n lines = weave item marks' n lines := by
  induction lines generalizing n with
  | nil => rfl
  | cons line lines ih =>
    have hn : n ∈ marks ↔ n ∈ marks' := h n le_rfl (by simp)
    have hrest := ih (n := n + 1) fun i hi hlt =>
      h i (by omega) (by simp only [List.length_cons]; omega)
    simp only [weave, hn, hrest]

theorem length_weave_take {k : Nat} {lines : List α} (h : k ≤ lines.length) :
    (weave item marks 0 (lines.take k)).length = moved marks k := by
  induction k with
  | zero => simp [weave]
  | succ k ih =>
    have hk : k < lines.length := h
    rw [List.take_succ_eq_append_getElem hk, weave_append, List.length_append, ih hk.le, moved_succ]
    by_cases hmark : k ∈ marks <;>
      simp [weave, hmark, List.length_take, Nat.min_eq_left hk.le]

theorem length_weave (lines : List α) :
    (weave item marks 0 lines).length = moved marks lines.length := by
  simpa using length_weave_take item marks (le_refl lines.length)

/-- The list cut before the member with the index `k` and what is put in
    before it. -/
theorem weave_split (k : Nat) {lines : List α} (h : k ≤ lines.length) :
    weave item marks 0 lines
      = weave item marks 0 (lines.take k) ++ weave item marks k (lines.drop k) := by
  conv_lhs => rw [← List.take_append_drop k lines]
  rw [weave_append, List.length_take, Nat.min_eq_left h, Nat.zero_add]

/-- The line numbered `k + 1` carries its new number. -/
theorem getElem?_weave_moved {k : Nat} {lines : List α} (h : k < lines.length) :
    (weave item marks 0 lines)[moved marks (k + 1) - 1]? = lines[k]? := by
  have hlength := length_weave_take item marks h.le
  rw [weave_split item marks k h.le, List.getElem?_append_right (by rw [hlength, moved_succ]; omega),
    hlength, moved_succ, List.drop_eq_getElem_cons h, List.getElem?_eq_getElem h]
  by_cases hmark : k ∈ marks <;> simp [weave, hmark]

/-- At a marked index stands the item. -/
theorem getElem?_weave_mark {k : Nat} {lines : List α} (h : k < lines.length) (hmark : k ∈ marks) :
    (weave item marks 0 lines)[moved marks k]? = some item := by
  have hlength := length_weave_take item marks h.le
  rw [weave_split item marks k h.le, List.getElem?_append_right (by rw [hlength]), hlength,
    List.drop_eq_getElem_cons h]
  simp [weave, hmark]

/-- The lines above a line, together with what is put in right before it. -/
theorem take_weave {k : Nat} {lines : List α} (h : k < lines.length) :
    (weave item marks 0 lines).take (moved marks (k + 1) - 1)
      = weave item marks 0 (lines.take k) ++ if k ∈ marks then [item] else [] := by
  have hlength := length_weave_take item marks h.le
  rw [weave_split item marks k h.le, moved_succ, List.drop_eq_getElem_cons h]
  by_cases hmark : k ∈ marks
  · have hroom : moved marks k + 1 + 1 - 1 = (weave item marks 0 (lines.take k)).length + 1 := by
      omega
    simp only [if_pos hmark, weave, hroom, List.take_length_add_append, List.take_succ_cons,
      List.take_zero]
  · have hroom : moved marks k + 1 + 0 - 1 = (weave item marks 0 (lines.take k)).length := by
      omega
    simp only [if_neg hmark, hroom, List.take_left, List.append_nil]

theorem mem_take_weave {k : Nat} {line : α} {lines : List α} (h : k < lines.length)
    (hmem : line ∈ (weave item marks 0 lines).take (moved marks (k + 1) - 1)) :
    line = item ∨ line ∈ lines.take k := by
  rw [take_weave item marks h, List.mem_append] at hmem
  rcases hmem with hfront | hback
  · exact mem_weave item marks hfront
  · by_cases hmark : k ∈ marks
    · exact .inl (by simpa [hmark] using hback)
    · simp [hmark] at hback

/-! ## Lists woven in two ways -/

theorem countP_weave {p : α → Bool} (hp : p item = false) (n : Nat) (lines : List α) :
    (weave item marks n lines).countP p = lines.countP p := by
  induction lines generalizing n with
  | nil => rfl
  | cons line lines ih =>
    by_cases hn : n ∈ marks <;> simp [weave, hn, List.countP_cons, hp, ih]

/-- A member that the item is not has as many such members above it as before. -/
theorem countP_take_weave {p : α → Bool} (hp : p item = false) {k : Nat} {lines : List α}
    (h : k < lines.length) :
    ((weave item marks 0 lines).take (moved marks (k + 1) - 1)).countP p
      = (lines.take k).countP p := by
  rw [take_weave item marks h, List.countP_append, countP_weave item marks hp]
  by_cases hmark : k ∈ marks <;> simp [hmark, hp]

theorem countP_take_lt {p : α → Bool} {lines : List α} {a b : Nat} {line : α} (hab : a < b)
    (hline : lines[a]? = some line) (hp : p line = true) :
    (lines.take a).countP p < (lines.take b).countP p := by
  have hlt : a < lines.length := (List.getElem?_eq_some_iff.mp hline).1
  have hget : lines[a] = line := (List.getElem?_eq_some_iff.mp hline).2
  have hsub : (lines.take (a + 1)).Sublist (lines.take b) := List.take_sublist_take_left hab
  have hcount : (lines.take (a + 1)).countP p ≤ (lines.take b).countP p := hsub.countP_le
  rw [List.take_succ_eq_append_getElem hlt, List.countP_append, hget] at hcount
  simp only [List.countP_singleton, hp, if_true] at hcount
  omega

/-- Two sets of marks with one result give the lines unlike the item the same
    numbers. -/
theorem moved_eq_of_weave_eq {marks' : List Nat} {p : α → Bool} (hp : p item = false)
    {lines : List α} (h : weave item marks 0 lines = weave item marks' 0 lines) {k : Nat} {line : α}
    (hline : lines[k]? = some line) (hpline : p line = true) :
    moved marks (k + 1) = moved marks' (k + 1) := by
  have hlt : k < lines.length := (List.getElem?_eq_some_iff.mp hline).1
  have hat := (getElem?_weave_moved item marks hlt).trans hline
  have hat' := (getElem?_weave_moved item marks' hlt).trans hline
  have hcount := countP_take_weave item marks hp hlt
  have hcount' := countP_take_weave item marks' hp hlt
  rw [← h] at hat' hcount'
  have hle := le_moved marks (k + 1)
  have hle' := le_moved marks' (k + 1)
  rcases Nat.lt_trichotomy (moved marks (k + 1) - 1) (moved marks' (k + 1) - 1) with hlt' | heq | hgt
  · have := countP_take_lt hlt' hat hpline
    omega
  · omega
  · have := countP_take_lt hgt hat' hpline
    omega

end Weave

/-! ## Insertions from the highest index down -/

section Insertions

variable (item : α)

theorem foldl_insertAt_append {marks : List Nat} {front : List α} (back : List α)
    (h : ∀ i ∈ marks, i ≤ front.length) :
    marks.foldl (insertAt item) (front ++ back) = marks.foldl (insertAt item) front ++ back := by
  induction marks generalizing front with
  | nil => rfl
  | cons i marks ih =>
    have hi : i ≤ front.length := h i List.mem_cons_self
    have hinsert : insertAt item (front ++ back) i = insertAt item front i ++ back := by
      simp [insertAt, List.take_append_of_le_length hi, List.drop_append_of_le_length hi]
    rw [List.foldl_cons, List.foldl_cons, hinsert]
    refine ih fun j hj => (h j (List.mem_cons_of_mem _ hj)).trans ?_
    simp [insertAt, Nat.min_eq_left hi]
    omega

/-- A descending run of insertions weaves the item in at all of its indexes. -/
theorem foldl_insertAt_eq_weave {marks : List Nat} {lines : List α}
    (hsorted : marks.Pairwise (· > ·)) (h : ∀ i ∈ marks, i < lines.length) :
    marks.foldl (insertAt item) lines = weave item marks 0 lines := by
  induction marks generalizing lines with
  | nil => simp
  | cons i marks ih =>
    obtain ⟨hbelow, hsorted⟩ := List.pairwise_cons.mp hsorted
    have hi : i < lines.length := h i List.mem_cons_self
    have htake : (lines.take i).length = i := by simp [hi.le]
    -- The lower insertions all fall among the lines above the first one.
    have hfront : marks.foldl (insertAt item) (lines.take i) = weave item marks 0 (lines.take i) :=
      ih hsorted fun j hj => htake.symm ▸ hbelow j hj
    have habove : weave item marks 0 (lines.take i) = weave item (i :: marks) 0 (lines.take i) :=
      weave_congr item marks (i :: marks) fun j _ hj => by
        have hne : j ≠ i := by omega
        simp [hne]
    have hbelowRest : weave item (i :: marks) (i + 1) (lines.drop (i + 1)) = lines.drop (i + 1) := by
      refine (weave_congr item (i :: marks) [] fun j hj _ => ?_).trans
        (weave_nil_marks item _ _)
      have hne : j ≠ i := by omega
      have hnot : j ∉ marks := fun hmem => by have := hbelow j hmem; omega
      simp [hne, hnot]
    calc (i :: marks).foldl (insertAt item) lines
        = marks.foldl (insertAt item) (lines.take i ++ item :: lines.drop i) := rfl
      _ = weave item marks 0 (lines.take i) ++ item :: lines.drop i := by
          rw [foldl_insertAt_append item _ fun j hj => by have := hbelow j hj; omega, hfront]
      _ = weave item (i :: marks) 0 lines := by
          rw [weave_split item (i :: marks) i hi.le, habove, List.drop_eq_getElem_cons hi]
          simp [weave, hbelowRest]

end Insertions

end QuickApi.Lib
