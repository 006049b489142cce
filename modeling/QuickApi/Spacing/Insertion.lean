/-
  QuickApi.Spacing.Insertion

  What the body of the loop decides for one pair: it asks for a blank line
  between statements on separate lines that are to be parted, and puts it above
  the comments that lead the later one.
-/
import QuickApi.Spacing.Layout

namespace QuickApi.Spacing

open QuickApi.Lib

/-- The pass wants a blank line in the pair: the later statement starts on a
    line below, the two are to be separated, no docstring leads and no
    protected line is touched. -/
structure Pair.Calls (pair : Pair) (protectedLines : List Nat) : Prop where
  separate : pair.previous.lastLine < pair.start
  required : pair.required = true
  unled : pair.docstringLed = false
  untouched : pair.touches protectedLines = false

/-- Some line from the index `lo` on and below `hi` is blank. -/
def BlankBetween (lines : List (List Char)) (lo hi : Nat) : Prop :=
  ∃ j line, lines[j]? = some line ∧ isBlank line = true ∧ lo ≤ j ∧ j < hi

theorem any_isBlank_iff {lines : List (List Char)} {lo hi : Nat} :
    ((lines.take hi).drop lo).any isBlank = true ↔ BlankBetween lines lo hi := by
  rw [List.any_eq_true]
  constructor
  · rintro ⟨line, hmem, hblank⟩
    obtain ⟨j, hj⟩ := List.mem_iff_getElem?.mp hmem
    rw [List.getElem?_drop, List.getElem?_take] at hj
    split_ifs at hj with hlt
    exact ⟨lo + j, line, hj, hblank, Nat.le_add_right lo j, hlt⟩
  · rintro ⟨j, line, hj, hblank, hlo, hhi⟩
    refine ⟨line, List.mem_iff_getElem?.mpr ⟨j - lo, ?_⟩, hblank⟩
    have hindex : lo + (j - lo) = j := by omega
    rw [List.getElem?_drop, hindex, List.getElem?_take, if_pos hhi, hj]

theorem BlankBetween.mono {lines : List (List Char)} {lo hi hi' : Nat}
    (h : BlankBetween lines lo hi) (hle : hi ≤ hi') : BlankBetween lines lo hi' := by
  obtain ⟨j, line, hj, hblank, hlo, hhi⟩ := h
  exact ⟨j, line, hj, hblank, hlo, hhi.trans_le hle⟩

/-- Only the lines above matter. -/
theorem BlankBetween.congr {lines lines' : List (List Char)} {lo hi : Nat}
    (h : lines.take hi = lines'.take hi) (hblank : BlankBetween lines lo hi) :
    BlankBetween lines' lo hi := by
  rw [← any_isBlank_iff] at hblank ⊢
  rwa [← h]

/-! ## Above the leading comments -/

section AboveComments

variable (lines : List (List Char)) (stop : Nat)

theorem aboveComments_le (n : Nat) : aboveComments lines stop n ≤ n := by
  induction n with
  | zero => exact le_rfl
  | succ n ih =>
    simp only [aboveComments]
    split_ifs
    · omega
    · exact le_rfl

theorem le_aboveComments {n : Nat} (h : stop ≤ n) : stop ≤ aboveComments lines stop n := by
  induction n with
  | zero => exact h
  | succ n ih =>
    simp only [aboveComments]
    split_ifs with hcomment
    · exact ih (by omega)
    · exact h

/-- What it leaves below are comments. -/
theorem isCommentLine_of_aboveComments_le {n j : Nat} (h : aboveComments lines stop n ≤ j)
    (hj : j < n) : (lines[j]?).any isCommentLine = true := by
  induction n with
  | zero => omega
  | succ n ih =>
    simp only [aboveComments] at h
    split_ifs at h with hcomment
    · rcases Nat.lt_succ_iff_lt_or_eq.mp hj with hlt | rfl
      · exact ih h hlt
      · exact hcomment.2
    · omega

/-- Right above it stands no comment that it could still pass. -/
theorem aboveComments_top {n : Nat} (h : stop ≤ n) :
    aboveComments lines stop n = stop ∨
      (lines[aboveComments lines stop n - 1]?).any isCommentLine = false := by
  induction n with
  | zero =>
    have hstop : stop = 0 := by omega
    exact .inl hstop.symm
  | succ n ih =>
    simp only [aboveComments]
    split_ifs with hcomment
    · exact ih (by omega)
    · by_cases hstop : stop < n + 1
      · exact .inr (by simpa [hstop] using hcomment)
      · exact .inl (by omega)

theorem aboveComments_congr {lines' : List (List Char)} {n : Nat}
    (h : lines.take n = lines'.take n) :
    aboveComments lines stop n = aboveComments lines' stop n := by
  induction n with
  | zero => rfl
  | succ n ih =>
    have hline : lines[n]? = lines'[n]? := by
      have hget := congrArg (·[n]?) h
      simpa [List.getElem?_take] using hget
    have htake : lines.take n = lines'.take n := by
      have hprefixes := congrArg (List.take n) h
      simpa [List.take_take] using hprefixes
    simp only [aboveComments, hline, ih htake]

end AboveComments

/-! ## The decision for a pair -/

section Insertion

variable {pair : Pair} {lines : List (List Char)} {protectedLines : List Nat} {hi : Nat}

theorem Pair.insertion_eq_some_iff (hplaced : pair.Placed hi) {i : Nat} :
    pair.insertion lines protectedLines = some i ↔
      pair.Calls protectedLines ∧ ¬ BlankBetween lines pair.previous.lastLine (pair.start - 1) ∧
        aboveComments lines pair.previous.lastLine (pair.start - 1) = i := by
  rw [Pair.insertion, hplaced.previous.ends, ← any_isBlank_iff]
  simp only []
  constructor
  · intro h
    split_ifs at h with hsame hled hfree hblank
    have hfree : pair.required = true ∧ pair.touches protectedLines = false := by
      simpa using hfree
    exact ⟨⟨not_le.mp hsame, hfree.1, by simpa using hled, hfree.2⟩, hblank, by simpa using h⟩
  · rintro ⟨hcalls, hblank, rfl⟩
    rw [if_neg (not_le.mpr hcalls.separate), if_neg (by simp [hcalls.unled]),
      if_neg (by simp [hcalls.required, hcalls.untouched]), if_neg hblank]

/-- The decision reads only the lines above the later statement. -/
theorem Pair.insertion_congr (hplaced : pair.Placed hi) (lines' : List (List Char))
    (h : pair.Calls protectedLines → lines.take (pair.start - 1) = lines'.take (pair.start - 1)) :
    pair.insertion lines protectedLines = pair.insertion lines' protectedLines := by
  refine Option.ext fun i => ?_
  rw [Pair.insertion_eq_some_iff hplaced, Pair.insertion_eq_some_iff hplaced]
  refine and_congr_right fun hcalls => ?_
  have htake := h hcalls
  rw [aboveComments_congr lines _ htake]
  refine and_congr_left fun _ => not_congr ⟨fun hb => hb.congr htake, fun hb => hb.congr htake.symm⟩

end Insertion

end QuickApi.Spacing
