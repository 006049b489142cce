/-
  QuickApi.Spacing.Exact

  Where the blank lines end up. On a text whose lines above a pair are the same
  for `splitlines` and for the tokenizer, and whose definitions open on the
  line the pass takes for their start, each blank line stands in the gap of a
  pair, above the comments that lead the later statement, and the pass leaves
  its own result alone.
-/
import QuickApi.Spacing.BlankLines

namespace QuickApi.Spacing

open QuickApi.Lib

/-- The line with the number `n` holds more than white space. -/
def Written (lines : List (List Char)) (n : Nat) : Prop :=
  ∃ k line, n = k + 1 ∧ lines[k]? = some line ∧ isBlank line = false

/-- What the readers of Python text do with the source: both accept it, the
    tree is laid out on its newline-ended lines, and blank lines between
    sibling statements move the nodes and comments below them and change
    nothing else.  So between two of them no line ends in a backslash: a blank
    line behind one would end the continuation. -/
structure Reads (lib : Library) (source : List Char) (tree : Value) (tokens : List Comment) :
    Prop where
  parse : lib.parse source = some tree
  comments : lib.comments source = some tokens
  laid : ∃ last, tree.laid 1 = some last ∧ last ≤ (newlineLines source).length
  written : ∀ pair ∈ pairs tree, Written (newlineLines source) pair.previous.lastLine ∧
    Written (newlineLines source) pair.following.position.opening ∧
    Written (newlineLines source) pair.start
  opens : ∀ pair ∈ pairs tree, pair.previous.lastLine < pair.following.position.opening →
    ((newlineLines source)[pair.following.position.opening - 1]?).any isCommentLine = false
  parse_spaced : ∀ marks : List Nat, (∀ i ∈ marks, ∃ pair ∈ pairs tree, pair.InGap i) →
    lib.parse (spacedText marks source) = some (tree.shift (moved marks))
  comments_spaced : ∀ marks : List Nat, (∀ i ∈ marks, ∃ pair ∈ pairs tree, pair.InGap i) →
    lib.comments (spacedText marks source) = some (tokens.map (Comment.shift (moved marks)))

/-- A line of one of the two statements, decorators included, or of the gap is
    protected. -/
def Pair.Reaches (pair : Pair) (protectedLines : List Nat) : Prop :=
  ∃ line ∈ protectedLines, pair.previous.position.opening ≤ line ∧ line ≤ pair.following.lastLine

/-- The index right above the later statement and the comments that lead it. -/
def Pair.Top (pair : Pair) (lines : List (List Char)) (i : Nat) : Prop :=
  (∀ j, i ≤ j → j + 1 < pair.following.position.opening → (lines[j]?).any isCommentLine = true) ∧
    (i = pair.previous.lastLine ∨ (lines[i - 1]?).any isCommentLine = false)

/-- The result is the source with blank lines between sibling statements. -/
structure Spaced (source : List Char) (tree : Value) (tokens : List Comment) (marks : List Nat) :
    Prop where
  /-- Each stands in the gap of a pair, above the leading comments. -/
  inGap : ∀ i ∈ marks, ∃ pair ∈ pairs tree, pair.InGap i ∧ pair.Top (newlineLines source) i
  /-- A pair has one at most. -/
  atMostOne : ∀ pair ∈ pairs tree, ∀ i ∈ marks, ∀ j ∈ marks, pair.InGap i → pair.InGap j → i = j
  /-- A pair on separate lines that needs one and reaches no protected line has
      a blank line between its statements. -/
  parted : ∀ pair ∈ pairs tree, pair.previous.lastLine < pair.start →
    pair.required = true → pair.docstringLed = false →
    ¬ pair.Reaches (protectedLines source tokens) →
    BlankBetween (spacedLines marks source) (moved marks pair.previous.lastLine)
      (moved marks pair.following.position.opening - 1)
  /-- A pair that reaches a protected line has none of them. -/
  kept : ∀ pair ∈ pairs tree, pair.Reaches (protectedLines source tokens) →
    ∀ i ∈ marks, ¬ pair.InGap i

/-- `spaced_source` returns, with blank lines placed exactly, and returns the
    same text when it is applied again. -/
def SpacesExactly (lib : Library) (source : List Char) (tree : Value) (tokens : List Comment) :
    Prop :=
  ∃ marks : List Nat, Spaced source tree tokens marks ∧
    spacedSource lib source = some (spacedText marks source) ∧
    spacedSource lib (spacedText marks source) = some (spacedText marks source)

/-- When the pass wants a blank line in the pair, what it takes for the lines of
    the two statements is enough. A protected line that the pair reaches only by
    a decorator of the earlier statement, which the pass does not look at, has
    a blank line before the later statement already. Else a blank line is there
    already or the later statement opens where the pass takes it to start: the
    `@` of its first decorator stands on the line of the decorator's
    expression. -/
structure Pair.Settled (pair : Pair) (lines : List (List Char)) (protectedLines : List Nat) :
    Prop where
  reaching : pair.Reaches protectedLines →
    BlankBetween lines pair.previous.lastLine (pair.start - 1)
  free : ¬ pair.Reaches protectedLines →
    BlankBetween lines pair.previous.lastLine (pair.following.position.opening - 1) ∨
      pair.start = pair.following.position.opening

instance (pair : Pair) (protectedLines : List Nat) : Decidable (pair.Calls protectedLines) :=
  decidable_of_iff
    (pair.previous.lastLine < pair.start ∧ pair.required = true ∧ pair.docstringLed = false ∧
      pair.touches protectedLines = false)
    ⟨fun h => ⟨h.1, h.2.1, h.2.2.1, h.2.2.2⟩,
      fun h => ⟨h.separate, h.required, h.unled, h.untouched⟩⟩

/-! ## A pair whose lines move -/

section Shift

variable {pair : Pair} {hi : Nat}

theorem Node.Stands.shift_lastLine {statement : Node} (h : statement.Stands hi) (f : Nat → Nat) :
    (statement.shift f).lastLine = f statement.lastLine := by
  have hends : (statement.shift f).position.endLineno = some (f statement.lastLine) :=
    congrArg (Option.map f) h.ends
  rw [Node.lastLine, hends]
  rfl

/-- `following.end_lineno or start` is the last line. -/
theorem Pair.stop_eq (hends : pair.following.position.endLineno = some pair.following.lastLine)
    (hpos : 0 < pair.following.lastLine) : pair.stop = pair.following.lastLine := by
  obtain ⟨n, hn⟩ : ∃ n, pair.following.lastLine = n + 1 :=
    ⟨pair.following.lastLine - 1, by omega⟩
  rw [hn] at hends ⊢
  rw [Pair.stop, hends]

theorem Pair.touches_iff (h : pair.Placed hi) (hpos : 0 < pair.start)
    {protectedLines : List Nat} :
    pair.touches protectedLines = true ↔ ∃ line ∈ protectedLines,
      pair.previous.position.lineno ≤ line ∧ line ≤ pair.following.lastLine := by
  rw [Pair.touches, Pair.stop_eq h.following.ends (hpos.trans_le h.start_le_lastLine),
    List.any_eq_true]
  simp only [lineRange, List.mem_range'_1, decide_eq_true_eq]
  constructor
  · rintro ⟨line, ⟨hlo, hhi⟩, hmem⟩
    exact ⟨line, hmem, hlo, by omega⟩
  · rintro ⟨line, hmem, hlo, hhi⟩
    exact ⟨line, ⟨hlo, by omega⟩, hmem⟩

variable {marks : List Nat}

/-- A moved pair still covers its lines in order. -/
theorem Node.Stands.shift {statement : Node} (h : statement.Stands hi) :
    (statement.shift (moved marks)).Stands (moved marks hi) where
  ends := by
    rw [h.shift_lastLine]
    exact congrArg (Option.map (moved marks)) h.ends
  opening_le := by
    rw [statementStart_shift _ (moved_strictMono marks).monotone]
    exact moved_mono marks h.opening_le
  start_le := Node.statementStart_le _
  lineno_le := by
    rw [h.shift_lastLine]
    exact moved_mono marks h.lineno_le
  lastLine_le := by
    rw [h.shift_lastLine]
    exact moved_mono marks h.lastLine_le

theorem Pair.Placed.shift (h : pair.Placed hi) :
    (pair.shift (moved marks)).Placed (moved marks hi) where
  previous := h.previous.shift
  following := h.following.shift
  inOrder := by
    have hlast := h.previous.shift_lastLine (moved marks)
    exact hlast.le.trans (moved_mono marks h.inOrder)

theorem Pair.start_shift : (pair.shift (moved marks)).start = moved marks pair.start :=
  statementStart_shift _ (moved_strictMono marks).monotone pair.following

theorem Pair.docstringLed_shift (pair : Pair) (f : Nat → Nat) :
    (pair.shift f).docstringLed = pair.docstringLed := by
  simp only [Pair.docstringLed, Pair.shift, isStringExpr_shift]
  rfl

/-- A moved pair that calls for a blank line called for one before. -/
theorem Pair.Calls.of_shift (h : pair.Placed hi) {lines lines' : List Nat}
    (hlines : ∀ line ∈ lines, line ≤ hi → moved marks line ∈ lines')
    (hcalls : (pair.shift (moved marks)).Calls lines') : pair.Calls lines := by
  have hlast := h.previous.shift_lastLine (moved marks)
  have hseparate : pair.previous.lastLine < pair.start := by
    have := hcalls.separate
    rw [Pair.start_shift] at this
    exact (moved_strictMono marks).lt_iff_lt.mp (hlast ▸ this)
  have hpos : 0 < (pair.shift (moved marks)).start := by
    rw [Pair.start_shift]
    exact (by omega : 0 < pair.start).trans_le (le_moved marks _)
  refine ⟨hseparate, hcalls.required, ?_, ?_⟩
  · rw [← Pair.docstringLed_shift pair (moved marks)]
    exact hcalls.unled
  · refine Bool.eq_false_iff.mpr fun htouches => ?_
    obtain ⟨line, hmem, hlo, hhi⟩ := (Pair.touches_iff h (by omega)).mp htouches
    have htouched : (pair.shift (moved marks)).touches lines' = true := by
      have hstop := h.following.shift_lastLine (moved marks)
      exact (Pair.touches_iff h.shift hpos).mpr
        ⟨moved marks line, hlines line hmem (hhi.trans h.following.lastLine_le),
          moved_mono marks hlo, (moved_mono marks hhi).trans hstop.ge⟩
    exact Bool.false_ne_true (hcalls.untouched.symm.trans htouched)

end Shift

/-! ## The run of the pass -/

/-- The sorted insertions of a run. -/
def insertions (source : List Char) (tree : Value) (tokens : List Comment) : List Nat :=
  ((pairs tree).filterMap
    (Pair.insertion (splitLines source) (protectedLines source tokens))).dedup.insertionSort (· ≥ ·)

theorem mem_insertions {source : List Char} {tree : Value} {tokens : List Comment} {i : Nat} :
    i ∈ insertions source tree tokens ↔ ∃ pair ∈ pairs tree,
      pair.insertion (splitLines source) (protectedLines source tokens) = some i := by
  rw [insertions, (List.perm_insertionSort _ _).mem_iff, List.mem_dedup, List.mem_filterMap]

theorem insertions_pairwise (source : List Char) (tree : Value) (tokens : List Comment) :
    (insertions source tree tokens).Pairwise (· > ·) := by
  have hsorted : (insertions source tree tokens).Pairwise (· ≥ ·) :=
    List.pairwise_insertionSort _ _
  have hnodup : (insertions source tree tokens).Nodup :=
    (List.perm_insertionSort _ _).nodup_iff.mpr (List.nodup_dedup _)
  exact (hsorted.and hnodup).imp fun h => lt_of_le_of_ne h.1 h.2.symm

/-- The lines of the run put together again. -/
def inserted (source : List Char) (tree : Value) (tokens : List Comment) : List Char :=
  ((insertions source tree tokens).foldl (insertAt blank) (splitLines source)).flatten

theorem spacedSource_eq {lib : Library} {source : List Char} {tree : Value} {tokens : List Comment}
    (htree : lib.parse source = some tree) (htokens : lib.comments source = some tokens) :
    spacedSource lib source = (lib.parse (inserted source tree tokens)).bind fun tree' =>
      if tree.dump ≠ tree'.dump then none else some (inserted source tree tokens) := by
  simp only [spacedSource, htree, htokens, Option.bind_eq_bind, Option.bind_some]
  rfl

theorem spacedSource_eq_some {lib : Library} {source result : List Char} {tree tree' : Value}
    {tokens : List Comment} (htree : lib.parse source = some tree)
    (htokens : lib.comments source = some tokens) (hresult : inserted source tree tokens = result)
    (htree' : lib.parse result = some tree') (hdump : tree.dump = tree'.dump) :
    spacedSource lib source = some result := by
  rw [spacedSource_eq htree htokens, hresult, htree', Option.bind_some, if_neg (not_not.mpr hdump)]

theorem inserted_eq_of_spacedSource {lib : Library} {source result : List Char} {tree : Value}
    {tokens : List Comment} (htree : lib.parse source = some tree)
    (htokens : lib.comments source = some tokens) (h : spacedSource lib source = some result) :
    inserted source tree tokens = result := by
  rw [spacedSource_eq htree htokens, Option.bind_eq_some_iff] at h
  obtain ⟨tree', -, h⟩ := h
  split_ifs at h
  exact Option.some.inj h

section Run

variable {lib : Library} {source : List Char} {tree : Value} {tokens : List Comment}
  (hreads : Reads lib source tree tokens)
  (hunbroken : ∀ pair ∈ pairs tree, pair.Calls (protectedLines source tokens) →
    ∀ line ∈ (newlineLines source).take (pair.start - 1), Unbroken line)

include hreads

theorem Reads.placed {pair : Pair} (hpair : pair ∈ pairs tree) :
    pair.Placed (newlineLines source).length := by
  obtain ⟨last, hlaid, hle⟩ := hreads.laid
  exact ((Value.Fits.pairs tree.fits hlaid).placed pair hpair).mono hle

theorem Reads.start_le {pair : Pair} (hpair : pair ∈ pairs tree) :
    pair.start ≤ (newlineLines source).length :=
  (hreads.placed hpair).start_le_lastLine.trans (hreads.placed hpair).following.lastLine_le

theorem Reads.apart {pair other : Pair} (hpair : pair ∈ pairs tree) (hother : other ∈ pairs tree)
    {i : Nat} (hi : pair.InSpan i) (hi' : other.InSpan i) : pair = other := by
  obtain ⟨last, hlaid, -⟩ := hreads.laid
  exact (Value.Fits.pairs tree.fits hlaid).apart pair hpair other hother i hi hi'

include hunbroken

/-- Which pairs get a blank line, in terms of the lines of the text. -/
theorem insertion_eq_some_iff {pair : Pair} (hpair : pair ∈ pairs tree) {i : Nat} :
    pair.insertion (splitLines source) (protectedLines source tokens) = some i ↔
      pair.Calls (protectedLines source tokens) ∧
        ¬ BlankBetween (newlineLines source) pair.previous.lastLine (pair.start - 1) ∧
        aboveComments (newlineLines source) pair.previous.lastLine (pair.start - 1) = i := by
  have hplaced := hreads.placed hpair
  rw [Pair.insertion_congr hplaced (newlineLines source) fun hcalls => ?_,
    Pair.insertion_eq_some_iff hplaced]
  have hlength : pair.start - 1 ≤ (newlineLines source).length :=
    (Nat.sub_le _ _).trans (hreads.start_le hpair)
  have htake := take_splitLines (newlineLines_lineList source) hlength (hunbroken pair hpair hcalls)
  rwa [newlineLines_flatten] at htake

/-- An insertion stands in the span of its pair, below unbroken lines. -/
theorem insertion_inSpan {pair : Pair} (hpair : pair ∈ pairs tree) {i : Nat}
    (h : pair.insertion (splitLines source) (protectedLines source tokens) = some i) :
    pair.InSpan i ∧ ∀ line ∈ (newlineLines source).take i, Unbroken line := by
  obtain ⟨hcalls, -, rfl⟩ := (insertion_eq_some_iff hreads hunbroken hpair).mp h
  have hseparate := hcalls.separate
  have hlow := le_aboveComments (newlineLines source) pair.previous.lastLine
    (show pair.previous.lastLine ≤ pair.start - 1 by omega)
  have hhigh := aboveComments_le (newlineLines source) pair.previous.lastLine (pair.start - 1)
  exact ⟨⟨hlow, by omega⟩, fun line hline =>
    hunbroken pair hpair hcalls line (List.take_subset_take_left _ hhigh hline)⟩

/-- The insertions of a run make the text with blank lines. -/
theorem inserted_eq_spacedText :
    inserted source tree tokens = spacedText (insertions source tree tokens) source := by
  refine flatten_insertAll (insertions_pairwise _ _ _) (fun i hi => ?_) fun i hi => ?_
  · obtain ⟨pair, hpair, hinsertion⟩ := mem_insertions.mp hi
    exact (insertion_inSpan hreads hunbroken hpair hinsertion).1.2.trans_le (hreads.start_le hpair)
  · obtain ⟨pair, hpair, hinsertion⟩ := mem_insertions.mp hi
    exact (insertion_inSpan hreads hunbroken hpair hinsertion).2

/-- The lines above a pair are unbroken in the result too. -/
theorem unbroken_spacedLines {pair : Pair} (hpair : pair ∈ pairs tree)
    (hcalls : pair.Calls (protectedLines source tokens)) (marks : List Nat) :
    ∀ line ∈ (spacedLines marks source).take (moved marks pair.start - 1), Unbroken line := by
  intro line hline
  have hseparate := hcalls.separate
  have hlength := hreads.start_le hpair
  have hstart : pair.start = pair.start - 1 + 1 := by omega
  rw [hstart] at hline
  rcases mem_take_weave blank marks (by omega) hline with rfl | hmem
  · rfl
  · exact hunbroken pair hpair hcalls line hmem

/-- The insertion in a span is its own pair's. -/
theorem insertion_of_inSpan {pair : Pair} (hpair : pair ∈ pairs tree) {i : Nat}
    (hi : i ∈ insertions source tree tokens) (hspan : pair.InSpan i) :
    pair.insertion (splitLines source) (protectedLines source tokens) = some i := by
  obtain ⟨other, hother, hinsertion⟩ := mem_insertions.mp hi
  obtain ⟨hother', -⟩ := insertion_inSpan hreads hunbroken hother hinsertion
  rwa [hreads.apart hpair hother hspan hother']

section Settled

variable (hsettled : ∀ pair ∈ pairs tree, pair.Calls (protectedLines source tokens) →
  pair.Settled (newlineLines source) (protectedLines source tokens))

include hsettled

/-- Where a blank line goes in. -/
theorem insertion_inGap {pair : Pair} (hpair : pair ∈ pairs tree) {i : Nat}
    (h : pair.insertion (splitLines source) (protectedLines source tokens) = some i) :
    pair.InGap i ∧ pair.Top (newlineLines source) i ∧
      ¬ pair.Reaches (protectedLines source tokens) := by
  obtain ⟨hspan, -⟩ := insertion_inSpan hreads hunbroken hpair h
  obtain ⟨hcalls, hblank, hi⟩ := (insertion_eq_some_iff hreads hunbroken hpair).mp h
  have hopening : pair.following.position.opening ≤ pair.start :=
    (hreads.placed hpair).following.opening_le
  have hfree : ¬ pair.Reaches (protectedLines source tokens) := fun hreaches =>
    hblank ((hsettled pair hpair hcalls).reaching hreaches)
  rcases (hsettled pair hpair hcalls).free hfree with hspaced | hstart
  · -- The pass sees a blank line that is there.
    exact absurd (hspaced.mono (by omega)) hblank
  · have hseparate := hcalls.separate
    subst hi
    refine ⟨⟨hspan.1, hstart ▸ hspan.2⟩, ⟨fun j hj hlt => ?_, ?_⟩, hfree⟩
    · exact isCommentLine_of_aboveComments_le _ _ hj (by omega)
    · exact aboveComments_top _ _ (by omega)

theorem mem_insertions_inGap {i : Nat} (hi : i ∈ insertions source tree tokens) :
    ∃ pair ∈ pairs tree, pair.InGap i := by
  obtain ⟨pair, hpair, hinsertion⟩ := mem_insertions.mp hi
  exact ⟨pair, hpair, (insertion_inGap hreads hunbroken hsettled hpair hinsertion).1⟩

/-- After the run a pair that called for a blank line has one where the pass
    looks, and between its statements when it reaches no protected line. -/
theorem blankBetween_insertions {pair : Pair} (hpair : pair ∈ pairs tree)
    (hcalls : pair.Calls (protectedLines source tokens)) :
    BlankBetween (spacedLines (insertions source tree tokens) source)
        (moved (insertions source tree tokens) pair.previous.lastLine)
        (moved (insertions source tree tokens) pair.start - 1) ∧
      (¬ pair.Reaches (protectedLines source tokens) →
        BlankBetween (spacedLines (insertions source tree tokens) source)
          (moved (insertions source tree tokens) pair.previous.lastLine)
          (moved (insertions source tree tokens) pair.following.position.opening - 1)) := by
  by_cases hblank : BlankBetween (newlineLines source) pair.previous.lastLine (pair.start - 1)
  · refine ⟨blankBetween_moved hblank, fun hfree => blankBetween_moved ?_⟩
    rcases (hsettled pair hpair hcalls).free hfree with hspaced | hstart
    · exact hspaced
    · exact hstart ▸ hblank
  · have hinsertion := (insertion_eq_some_iff hreads hunbroken hpair).mpr ⟨hcalls, hblank, rfl⟩
    obtain ⟨hgap, -⟩ := insertion_inGap hreads hunbroken hsettled hpair hinsertion
    have hspan := hgap.inSpan (hreads.placed hpair)
    have hmark := mem_insertions.mpr ⟨pair, hpair, hinsertion⟩
    have hlength := hspan.2.trans_le (hreads.start_le hpair)
    exact ⟨blankBetween_of_mark hmark hlength hspan.1 hspan.2,
      fun _ => blankBetween_of_mark hmark hlength hgap.1 hgap.2⟩

theorem insertions_spaced : Spaced source tree tokens (insertions source tree tokens) where
  inGap i hi := by
    obtain ⟨pair, hpair, hinsertion⟩ := mem_insertions.mp hi
    obtain ⟨hgap, htop, -⟩ := insertion_inGap hreads hunbroken hsettled hpair hinsertion
    exact ⟨pair, hpair, hgap, htop⟩
  atMostOne pair hpair i hi j hj hgap hgap' := by
    have hplaced := hreads.placed hpair
    have hinsertion := insertion_of_inSpan hreads hunbroken hpair hi (hgap.inSpan hplaced)
    have hinsertion' := insertion_of_inSpan hreads hunbroken hpair hj (hgap'.inSpan hplaced)
    exact Option.some.inj (hinsertion.symm.trans hinsertion')
  parted pair hpair hseparate hrequired hunled hfree := by
    have huntouched : pair.touches (protectedLines source tokens) = false := by
      refine Bool.eq_false_iff.mpr fun htouches => hfree ?_
      obtain ⟨line, hmem, hlo, hhi⟩ :=
        (Pair.touches_iff (hreads.placed hpair) (by omega)).mp htouches
      have hopening := (hreads.placed hpair).previous.opening_le.trans
        (hreads.placed hpair).previous.start_le
      exact ⟨line, hmem, hopening.trans hlo, hhi⟩
    exact (blankBetween_insertions hreads hunbroken hsettled hpair
      ⟨hseparate, hrequired, hunled, huntouched⟩).2 hfree
  kept pair hpair hreaches i hi hgap := by
    have hspan := hgap.inSpan (hreads.placed hpair)
    have hinsertion := insertion_of_inSpan hreads hunbroken hpair hi hspan
    exact (insertion_inGap hreads hunbroken hsettled hpair hinsertion).2.2 hreaches

theorem spacedSource_insertions :
    spacedSource lib source = some (spacedText (insertions source tree tokens) source) :=
  spacedSource_eq_some hreads.parse hreads.comments (inserted_eq_spacedText hreads hunbroken)
    (hreads.parse_spaced _ fun _ hi => mem_insertions_inGap hreads hunbroken hsettled hi)
    (dump_shift _ tree).symm

/-- A second run finds nothing to do. -/
theorem spacedSource_again :
    spacedSource lib (spacedText (insertions source tree tokens) source)
      = some (spacedText (insertions source tree tokens) source) := by
  obtain ⟨marks, hmarks⟩ : ∃ marks, marks = insertions source tree tokens := ⟨_, rfl⟩
  have hgaps : ∀ i ∈ marks, ∃ pair ∈ pairs tree, pair.InGap i := fun i hi =>
    mem_insertions_inGap hreads hunbroken hsettled (hmarks ▸ hi)
  have hparse := hreads.parse_spaced marks hgaps
  have hcomments := hreads.comments_spaced marks hgaps
  have hlines := spacedLines_lineList marks source
  have hnone : insertions (spacedText marks source) (tree.shift (moved marks))
      (tokens.map (Comment.shift (moved marks))) = [] := by
    refine List.eq_nil_iff_forall_not_mem.mpr fun i hi => ?_
    obtain ⟨pair', hpair', hinsertion⟩ := mem_insertions.mp hi
    rw [pairs_shift] at hpair'
    obtain ⟨pair, hpair, rfl⟩ := List.mem_map.mp hpair'
    have hplaced := hreads.placed hpair
    obtain ⟨hcalls', hblank, -⟩ := (Pair.insertion_eq_some_iff hplaced.shift).mp hinsertion
    -- It called before too, so it has a blank line by now, where `splitlines` sees it.
    have hcalls : pair.Calls (protectedLines source tokens) := by
      refine Pair.Calls.of_shift hplaced (fun line hline hle => ?_) hcalls'
      refine mem_protectedLines_shift (moved_strictMono marks).monotone ?_ hline hle
      rw [← length_spacedLines]
      exact hlines.length_le_splitLines
    have hthere := (blankBetween_insertions hreads hunbroken hsettled hpair hcalls).1
    rw [← hmarks] at hthere
    have hlength : moved marks pair.start - 1 ≤ (spacedLines marks source).length := by
      rw [length_spacedLines]
      have := moved_mono marks (hreads.start_le hpair)
      omega
    have htake := take_splitLines hlines hlength
      (unbroken_spacedLines hreads hunbroken hpair hcalls marks)
    have hlast : (pair.shift (moved marks)).previous.lastLine
        = moved marks pair.previous.lastLine := hplaced.previous.shift_lastLine _
    rw [Pair.start_shift, hlast] at hblank
    exact hblank (hthere.congr htake.symm)
  rw [← hmarks]
  refine spacedSource_eq_some hparse hcomments ?_ hparse rfl
  rw [inserted, hnone]
  exact splitLines_flatten _

end Settled

/-- Where the pass places the blank lines exactly, every pair it wants one in is
    settled: what stands in a gap can be read off the text. -/
theorem settled_of_spacesExactly (hexact : SpacesExactly lib source tree tokens) {pair : Pair}
    (hpair : pair ∈ pairs tree) (hcalls : pair.Calls (protectedLines source tokens)) :
    pair.Settled (newlineLines source) (protectedLines source tokens) := by
  obtain ⟨marks, hspaced, hrun, -⟩ := hexact
  have hplaced := hreads.placed hpair
  have hopening : pair.following.position.opening ≤ pair.start := hplaced.following.opening_le
  obtain ⟨hlast, hfirst, hstart⟩ := hreads.written pair hpair
  have hlines : spacedLines marks source = spacedLines (insertions source tree tokens) source := by
    have hresult := inserted_eq_of_spacedSource hreads.parse hreads.comments hrun
    rw [inserted_eq_spacedText hreads hunbroken] at hresult
    rw [← newlineLines_spacedText, ← hresult, newlineLines_spacedText]
  have hmoved : ∀ n, Written (newlineLines source) n →
      moved marks n = moved (insertions source tree tokens) n := by
    rintro n ⟨k, line, rfl, hline, hwritten⟩
    exact moved_eq_of_weave_eq blank marks (p := fun line => !isBlank line) rfl hlines hline
      (by simp [hwritten])
  have hsame : ∀ {a b : Nat}, a ≤ b → Written (newlineLines source) a →
      Written (newlineLines source) b → ((∃ i ∈ marks, a ≤ i ∧ i < b) ↔
        ∃ i ∈ insertions source tree tokens, a ≤ i ∧ i < b) := by
    intro a b hab ha hb
    rw [exists_mark_iff marks hab, exists_mark_iff (insertions source tree tokens) hab, hmoved a ha,
      hmoved b hb]
  constructor
  · intro hreaches
    by_contra hblank
    -- The pass puts a blank line in, and no mark of a pair can account for it.
    have hinsertion := (insertion_eq_some_iff hreads hunbroken hpair).mpr ⟨hcalls, hblank, rfl⟩
    obtain ⟨hspan, -⟩ := insertion_inSpan hreads hunbroken hpair hinsertion
    obtain ⟨i, hi, hlo, hhi⟩ := (hsame hcalls.separate.le hlast hstart).mpr
      ⟨_, mem_insertions.mpr ⟨pair, hpair, hinsertion⟩, hspan⟩
    obtain ⟨other, hother, hgap, -⟩ := hspaced.inGap i hi
    obtain rfl := hreads.apart hpair hother ⟨hlo, hhi⟩ (hgap.inSpan (hreads.placed hother))
    exact hspaced.kept pair hpair hreaches i hi hgap
  · intro hfree
    by_contra hnot
    obtain ⟨hblank, hne⟩ := not_or.mp hnot
    have hthere := hspaced.parted pair hpair hcalls.separate hcalls.required hcalls.unled hfree
    have hlength : pair.following.position.opening ≤ (newlineLines source).length :=
      hopening.trans (hreads.start_le hpair)
    have hmark : ∃ i ∈ marks,
        pair.previous.lastLine ≤ i ∧ i < pair.following.position.opening := by
      by_contra hnone
      exact hblank (blankBetween_of_moved hthere hlength hnone)
    obtain ⟨i, hi, hlo, hhi⟩ := (hsame hplaced.inOrder hlast hfirst).mp hmark
    -- The pass stops below the decorator's line, which is no comment.
    have hinsertion := insertion_of_inSpan hreads hunbroken hpair hi ⟨hlo, hhi.trans_le hopening⟩
    obtain ⟨-, -, habove⟩ := (insertion_eq_some_iff hreads hunbroken hpair).mp hinsertion
    have hcomment := isCommentLine_of_aboveComments_le (newlineLines source) pair.previous.lastLine
      (show aboveComments _ _ _ ≤ pair.following.position.opening - 1 by omega)
      (show pair.following.position.opening - 1 < pair.start - 1 by omega)
    exact Bool.false_ne_true ((hreads.opens pair hpair (by omega)).symm.trans hcomment)

/-- On a text that no line boundary breaks above the pairs that call for a
    blank line, and that reads as it should (without continuations between
    statements), the pass places the blank lines exactly if and only if those
    pairs are settled. -/
theorem spaces_exactly_iff : SpacesExactly lib source tree tokens ↔
    ∀ pair ∈ pairs tree, pair.Calls (protectedLines source tokens) →
      pair.Settled (newlineLines source) (protectedLines source tokens) :=
  ⟨fun hexact _ hpair hcalls => settled_of_spacesExactly hreads hunbroken hexact hpair hcalls,
    fun hsettled => ⟨insertions source tree tokens, insertions_spaced hreads hunbroken hsettled,
      spacedSource_insertions hreads hunbroken hsettled,
      spacedSource_again hreads hunbroken hsettled⟩⟩

end Run

/-! ## A text with one pair -/

/-- `s = '…'` on one line and `if s: pass` on the two below. -/
def sampleTree (text : List Char) : Value :=
  .node .module ⟨1, none, 1⟩ [
    ("body", .list [
      .node .assign ⟨1, some 1, 1⟩ [
        ("targets", .list [.node (.other "Name") ⟨1, some 1, 1⟩ [("id", .plain "s")]]),
        ("value", .node .constant ⟨1, some 1, 1⟩ [("value", .str text)])],
      .node .if_ ⟨2, some 3, 2⟩ [
        ("test", .node (.other "Name") ⟨2, some 2, 2⟩ [("id", .plain "s")]),
        ("body", .list [.node .pass ⟨3, some 3, 3⟩ []]),
        ("orelse", .list [])]]),
    ("type_ignores", .list [])]

/-- A reader that knows the source and the source with a blank line between its
    two statements. -/
def sampleLibrary (source value : List Char) : Library where
  parse text :=
    if text = source then some (sampleTree value)
    else if text = spacedText [1] source then some ((sampleTree value).shift (moved [1]))
    else none
  comments text := if text = source ∨ text = spacedText [1] source then some [] else none

theorem pairs_sampleTree (value : List Char) : ∀ pair ∈ pairs (sampleTree value),
    pair.previous.lastLine = 1 ∧ pair.following.position.opening = 2 ∧ pair.start = 2 := by
  intro pair hpair
  obtain rfl := List.mem_singleton.mp hpair
  exact ⟨rfl, rfl, rfl⟩

theorem sampleLibrary_reads {source : List Char} (value : List Char)
    (hlength : (newlineLines source).length = 3)
    (hfirst : Written (newlineLines source) 1) (hsecond : Written (newlineLines source) 2)
    (hopens : ((newlineLines source)[1]?).any isCommentLine = false)
    (hne : spacedText [1] source ≠ source) :
    Reads (sampleLibrary source value) source (sampleTree value) [] := by
  have hmarks : ∀ marks : List Nat, (∀ i ∈ marks, ∃ pair ∈ pairs (sampleTree value), pair.InGap i) →
      marks = [] ∨ ∀ i, i ∈ marks ↔ i ∈ [1] := by
    intro marks hgaps
    have hone : ∀ i ∈ marks, i = 1 := fun i hi => by
      obtain ⟨pair, hpair, hgap⟩ := hgaps i hi
      obtain ⟨hlast, hopening, -⟩ := pairs_sampleTree _ pair hpair
      simp only [Pair.InGap, hlast, hopening] at hgap
      omega
    cases marks with
    | nil => exact .inl rfl
    | cons first marks =>
      obtain rfl := hone first List.mem_cons_self
      refine .inr fun i => ⟨fun hi => List.mem_singleton.mpr (hone i hi), fun hi => ?_⟩
      rw [List.mem_singleton.mp hi]
      exact List.mem_cons_self
  have htext : ∀ marks : List Nat, (∀ i, i ∈ marks ↔ i ∈ [1]) →
      spacedText marks source = spacedText [1] source ∧ moved marks = moved [1] := fun marks h => by
    refine ⟨congrArg List.flatten (weave_congr blank marks [1] fun i _ _ => h i), ?_⟩
    funext l
    simp only [moved, h]
  constructor
  case parse => simp [sampleLibrary]
  case comments => simp [sampleLibrary]
  case laid => exact ⟨3, rfl, hlength.ge⟩
  case written =>
    intro pair hpair
    obtain ⟨hlast, hopening, hstart⟩ := pairs_sampleTree _ pair hpair
    rw [hlast, hopening, hstart]
    exact ⟨hfirst, hsecond, hsecond⟩
  case opens =>
    intro pair hpair _
    obtain ⟨-, hopening, -⟩ := pairs_sampleTree _ pair hpair
    rw [hopening]
    exact hopens
  case parse_spaced =>
    intro marks hgaps
    rcases hmarks marks hgaps with rfl | hmarks
    · rw [spacedText_nil]
      simp only [sampleLibrary, if_pos]
      rfl
    · obtain ⟨hsame, hmoved⟩ := htext marks hmarks
      rw [hsame, hmoved]
      simp [sampleLibrary, hne]
  case comments_spaced =>
    intro marks hgaps
    rcases hmarks marks hgaps with rfl | hmarks
    · simp [spacedText_nil, sampleLibrary]
    · simp [(htext marks hmarks).1, sampleLibrary]

def sampleSource : List Char := "s = 'ab'\nif s:\n    pass\n".toList

theorem spaces_exactly_sample :
    SpacesExactly (sampleLibrary sampleSource "ab".toList) sampleSource (sampleTree "ab".toList)
      [] := by
  have hreads : Reads (sampleLibrary sampleSource "ab".toList) sampleSource
      (sampleTree "ab".toList) [] :=
    sampleLibrary_reads _ (by decide) ⟨0, _, rfl, rfl, by decide⟩ ⟨1, _, rfl, rfl, by decide⟩
      (by decide) (by decide)
  refine (spaces_exactly_iff hreads fun pair hpair _ line hline => ?_).mpr fun pair hpair _ => ?_
  · have hall : ∀ line ∈ newlineLines sampleSource, Unbroken line := by decide
    exact hall line (List.mem_of_mem_take hline)
  · obtain ⟨-, hopening, hstart⟩ := pairs_sampleTree _ pair hpair
    refine ⟨fun ⟨line, hline, _⟩ => ?_, fun _ => .inr (hstart.trans hopening.symm)⟩
    simp [protectedLines] at hline

def formFeedSource : List Char := "s = 'a\x0cb'\nif s:\n    pass\n".toList

/-- A form feed in the string takes the blank line into the string: the text is
    no program any more, and the pass raises. -/
theorem not_spacesExactly_form_feed :
    Reads (sampleLibrary formFeedSource "a\x0cb".toList) formFeedSource
        (sampleTree "a\x0cb".toList) [] ∧
      spacedSource (sampleLibrary formFeedSource "a\x0cb".toList) formFeedSource = none ∧
      ¬ SpacesExactly (sampleLibrary formFeedSource "a\x0cb".toList) formFeedSource
        (sampleTree "a\x0cb".toList) [] := by
  have hreads : Reads (sampleLibrary formFeedSource "a\x0cb".toList) formFeedSource
      (sampleTree "a\x0cb".toList) [] :=
    sampleLibrary_reads _ (by decide) ⟨0, _, rfl, rfl, by decide⟩ ⟨1, _, rfl, rfl, by decide⟩
      (by decide) (by decide)
  have hraises : spacedSource (sampleLibrary formFeedSource "a\x0cb".toList) formFeedSource
      = none := by
    have hneither : inserted formFeedSource (sampleTree "a\x0cb".toList) [] ≠ formFeedSource ∧
        inserted formFeedSource (sampleTree "a\x0cb".toList) []
          ≠ spacedText [1] formFeedSource := by
      decide
    rw [spacedSource_eq hreads.parse hreads.comments, sampleLibrary]
    simp only [if_neg hneither.1, if_neg hneither.2, Option.bind_none]
  refine ⟨hreads, hraises, ?_⟩
  rintro ⟨marks, -, hrun, -⟩
  rw [hraises] at hrun
  cases hrun

end QuickApi.Spacing
