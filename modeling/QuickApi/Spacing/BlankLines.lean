/-
  QuickApi.Spacing.BlankLines

  A text with blank lines before some of its lines: its lines, how the pass's
  insertions make it, and that the formatter directives protect the same lines
  at their new places.
-/
import QuickApi.Spacing.Insertion

namespace QuickApi.Spacing

open QuickApi.Lib

/-! ## Blank lines in a text -/

/-- A blank line. -/
def blank : List Char := ['\n']

/-- The lines of the text with blank lines before the marked ones. -/
def spacedLines (marks : List Nat) (source : List Char) : List (List Char) :=
  weave blank marks 0 (newlineLines source)

/-- The text with blank lines before the marked lines. -/
def spacedText (marks : List Nat) (source : List Char) : List Char :=
  (spacedLines marks source).flatten

theorem lineList_weave {marks : List Nat} {n : Nat} {lines : List (List Char)}
    (h : LineList lines) : LineList (weave blank marks n lines) := by
  induction lines generalizing n with
  | nil => trivial
  | cons line lines ih =>
    have hrest : LineList (line :: weave blank marks (n + 1) lines) := by
      cases lines with
      | nil => exact h
      | cons next lines =>
        have htail := ih (n := n + 1) h.tail
        by_cases hn : n + 1 ∈ marks
        · simp only [weave, if_pos hn] at htail ⊢
          exact ⟨h.1, htail⟩
        · simp only [weave, if_neg hn] at htail ⊢
          exact ⟨h.1, htail⟩
    by_cases hn : n ∈ marks
    · simp only [weave, if_pos hn]
      exact hrest.newline_cons
    · simpa only [weave, if_neg hn] using hrest

theorem spacedLines_lineList (marks : List Nat) (source : List Char) :
    LineList (spacedLines marks source) :=
  lineList_weave (newlineLines_lineList source)

theorem newlineLines_spacedText (marks : List Nat) (source : List Char) :
    newlineLines (spacedText marks source) = spacedLines marks source :=
  (spacedLines_lineList marks source).newlineLines_flatten

theorem length_spacedLines (marks : List Nat) (source : List Char) :
    (spacedLines marks source).length = moved marks (newlineLines source).length :=
  length_weave blank marks _

theorem spacedText_nil (source : List Char) : spacedText [] source = source := by
  rw [spacedText, spacedLines, weave_nil_marks, newlineLines_flatten]

/-- Above an unbroken stretch `splitlines` numbers the lines as the text
    does. -/
theorem take_splitLines {lines : List (List Char)} (h : LineList lines) {k : Nat}
    (hk : k ≤ lines.length) (hfront : ∀ line ∈ lines.take k, Unbroken line) :
    (splitLines lines.flatten).take k = lines.take k := by
  rw [h.splitLines_of_unbroken hfront, List.take_append_of_le_length (by simp [hk]), List.take_take,
    Nat.min_self]

theorem weave_last {marks : List Nat} {n : Nat} {lines : List (List Char)} (hn : n ∈ marks)
    (hmax : ∀ i ∈ marks, i ≤ n) (hne : lines ≠ []) :
    weave blank marks n lines = blank :: lines := by
  obtain ⟨line, lines, rfl⟩ := List.exists_cons_of_ne_nil hne
  have hrest : weave blank marks (n + 1) lines = lines := by
    refine (weave_congr blank marks [] fun i hi _ => ?_).trans (weave_nil_marks blank _ _)
    have hnot : i ∉ marks := fun hmem => by
      have := hmax i hmem
      omega
    simp [hnot]
  simp only [weave, if_pos hn, hrest]

/-- Insertion in the lines of `splitlines` gives the text with blank lines,
    when nothing above the last insertion breaks a line. -/
theorem flatten_insertAll {source : List Char} {marks : List Nat}
    (hsorted : marks.Pairwise (· > ·))
    (hlt : ∀ i ∈ marks, i < (newlineLines source).length)
    (hfront : ∀ i ∈ marks, ∀ line ∈ (newlineLines source).take i, Unbroken line) :
    (marks.foldl (insertAt blank) (splitLines source)).flatten = spacedText marks source := by
  have hlength := newlineLines_length_le source
  rw [foldl_insertAt_eq_weave blank hsorted fun i hi => (hlt i hi).trans_le hlength]
  cases marks with
  | nil => simp [spacedText_nil, splitLines_flatten]
  | cons last marks =>
    have hmem : last ∈ last :: marks := List.mem_cons_self
    have hmax : ∀ i ∈ last :: marks, i ≤ last :=
      List.forall_mem_cons.mpr ⟨le_rfl, fun i hi => (List.rel_of_pairwise_cons hsorted hi).le⟩
    have hlast := hlt last hmem
    obtain ⟨back, hback⟩ : ∃ back, back = (newlineLines source).drop last := ⟨_, rfl⟩
    have hbackNe : back ≠ [] := by
      rw [hback, ne_eq, List.drop_eq_nil_iff, not_le]
      exact hlast
    have hsplit : splitLines source
        = (newlineLines source).take last ++ back.flatMap splitLines := by
      have h := (newlineLines_lineList source).splitLines_of_unbroken (hfront last hmem)
      rwa [newlineLines_flatten, ← hback] at h
    have htake : ((newlineLines source).take last).length = last := by simp [hlast.le]
    have hpieces : back.flatMap splitLines ≠ [] := fun hnil => by
      rw [hsplit, hnil, List.append_nil, htake] at hlength
      omega
    rw [hsplit, weave_append, htake, Nat.zero_add, weave_last hmem hmax hpieces, spacedText,
      spacedLines, weave_split blank _ last hlast.le, ← hback, weave_last hmem hmax hbackNe]
    simp [flatten_flatMap_splitLines]

/-- A blank line in front of a line is still in front of it. -/
theorem blankBetween_moved {marks : List Nat} {source : List Char} {lo hi : Nat}
    (h : BlankBetween (newlineLines source) lo (hi - 1)) :
    BlankBetween (spacedLines marks source) (moved marks lo) (moved marks hi - 1) := by
  obtain ⟨j, line, hj, hblank, hlo, hhi⟩ := h
  have hlt : j < (newlineLines source).length := (List.getElem?_eq_some_iff.mp hj).1
  have hmove : moved marks lo ≤ moved marks j := moved_mono marks hlo
  have hstep : moved marks j < moved marks (j + 1) := moved_strictMono marks (Nat.lt_succ_self j)
  have hbelow : moved marks (j + 1) < moved marks hi := moved_strictMono marks (by omega)
  exact ⟨moved marks (j + 1) - 1, line, (getElem?_weave_moved blank marks hlt).trans hj, hblank,
    by omega, by omega⟩

/-- A marked index between two lines puts a blank line between them. -/
theorem blankBetween_of_mark {marks : List Nat} {source : List Char} {lo hi i : Nat} (hmark : i ∈ marks)
    (hlt : i < (newlineLines source).length) (hlo : lo ≤ i) (hhi : i < hi) :
    BlankBetween (spacedLines marks source) (moved marks lo) (moved marks hi - 1) := by
  have hmove : moved marks lo ≤ moved marks i := moved_mono marks hlo
  have hsucc : moved marks (i + 1) = moved marks i + 1 + 1 := by rw [moved_succ, if_pos hmark]
  have hbelow : moved marks (i + 1) ≤ moved marks hi := moved_mono marks hhi
  exact ⟨moved marks i, blank, getElem?_weave_mark blank marks hlt hmark, rfl, hmove, by omega⟩

/-- Without a mark between two lines a blank line between them was there
    before. -/
theorem blankBetween_of_moved {marks : List Nat} {source : List Char} {lo hi : Nat}
    (h : BlankBetween (spacedLines marks source) (moved marks lo) (moved marks hi - 1))
    (hhi : hi ≤ (newlineLines source).length) (hnone : ¬ ∃ i ∈ marks, lo ≤ i ∧ i < hi) :
    BlankBetween (newlineLines source) lo (hi - 1) := by
  obtain ⟨k, line, hk, hblank, hlow, hhigh⟩ := h
  have hle : lo ≤ hi := (moved_le_moved_iff marks).mp (by omega)
  -- The lines from `lo` to `hi` move by one amount.
  have heven : ∀ j, lo ≤ j → j ≤ hi → moved marks j = moved marks lo + (j - lo) := by
    intro j hj hjhi
    have hfewer : ¬ ∃ i ∈ marks, lo ≤ i ∧ i < j := fun ⟨i, hi, hlo, hlt⟩ =>
      hnone ⟨i, hi, hlo, hlt.trans_le hjhi⟩
    rw [exists_mark_iff marks hj, not_lt] at hfewer
    exact hfewer.antisymm (moved_add_le marks hj)
  obtain ⟨j, rfl⟩ : ∃ j, k = moved marks lo + j := ⟨k - moved marks lo, by omega⟩
  have hend := heven hi hle le_rfl
  have hline := heven (lo + j + 1) (by omega) (by omega)
  have hindex : moved marks (lo + j + 1) - 1 = moved marks lo + j := by omega
  have hget := getElem?_weave_moved blank marks (show lo + j < (newlineLines source).length by omega)
  rw [hindex] at hget
  exact ⟨lo + j, line, hget.symm.trans hk, hblank, Nat.le_add_right lo j, by omega⟩

/-! ## Directives below inserted lines -/

section Directives

variable {f : Nat → Nat} (hf : Monotone f)

include hf

theorem mem_lineRange_map {first stop l : Nat} (h : l ∈ lineRange first (stop + 1)) :
    f l ∈ lineRange (f first) (f stop + 1) := by
  simp only [lineRange, List.mem_range'_1] at h ⊢
  have hfirst : f first ≤ f l := hf (by omega)
  have hstop : f l ≤ f stop := hf (by omega)
  omega

/-- Reading the moved comments protects the moved lines. -/
theorem foldl_read_shift (tokens : List Comment) (state state' : Directives)
    (hlines : ∀ l ∈ state.protectedLines, f l ∈ state'.protectedLines)
    (hdisabled : state'.disabled = state.disabled.map f) :
    (∀ l ∈ (tokens.foldl Directives.read state).protectedLines,
        f l ∈ ((tokens.map (Comment.shift f)).foldl Directives.read state').protectedLines) ∧
      ((tokens.map (Comment.shift f)).foldl Directives.read state').disabled
        = (tokens.foldl Directives.read state).disabled.map f := by
  induction tokens generalizing state state' with
  | nil => exact ⟨hlines, hdisabled⟩
  | cons token tokens ih =>
    have hdirective : (token.shift f).directive = token.directive := rfl
    rw [List.map_cons, List.foldl_cons, List.foldl_cons]
    by_cases hoff : token.directive = "fmt: off".toList ∧ state.disabled = none
    · have hoff' : token.directive = "fmt: off".toList ∧ state'.disabled = none :=
        ⟨hoff.1, by rw [hdisabled, hoff.2]; rfl⟩
      rw [Directives.read, if_pos hoff, Directives.read, hdirective, if_pos hoff']
      exact ih _ _ hlines rfl
    · have hoff' : ¬ (token.directive = "fmt: off".toList ∧ state'.disabled = none) := by
        rw [hdisabled, Option.map_eq_none_iff]
        exact hoff
      rw [Directives.read, if_neg hoff, Directives.read, hdirective, if_neg hoff']
      split_ifs with hon hskip
      · rw [hdisabled]
        cases hstate : state.disabled with
        | none => exact ih state state' hlines hdisabled
        | some first =>
          refine ih _ _ (List.forall_mem_append.mpr ⟨fun l hl => ?_, fun l hl => ?_⟩) rfl
          · exact List.mem_append_left _ (hlines l hl)
          · exact List.mem_append_right _ (mem_lineRange_map hf hl)
      · refine ih _ _ (List.forall_mem_append.mpr ⟨fun l hl => ?_, fun l hl => ?_⟩) hdisabled
        · exact List.mem_append_left _ (hlines l hl)
        · rw [List.mem_singleton.mp hl]
          exact List.mem_append_right _ List.mem_cons_self
      · exact ih _ _ hlines hdisabled

theorem mem_protectedLines_shift {source result : List Char} {tokens : List Comment} {n l : Nat}
    (hn : f n ≤ (splitLines result).length) (hl : l ∈ protectedLines source tokens)
    (hln : l ≤ n) : f l ∈ protectedLines result (tokens.map (Comment.shift f)) := by
  have hread := foldl_read_shift hf tokens {} {} (by simp) rfl
  simp only [protectedLines] at hl ⊢
  rw [hread.2]
  cases hstate : (tokens.foldl Directives.read {}).disabled with
  | none =>
    rw [hstate] at hl
    exact hread.1 l hl
  | some first =>
    rw [hstate] at hl
    rcases List.mem_append.mp hl with hl | hl
    · exact List.mem_append_left _ (hread.1 l hl)
    · refine List.mem_append_right _ ?_
      simp only [lineRange, List.mem_range'_1] at hl ⊢
      have hfirst : f first ≤ f l := hf (by omega)
      have hlast : f l ≤ f n := hf hln
      omega

end Directives

end QuickApi.Spacing
