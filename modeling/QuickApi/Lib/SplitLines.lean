/-
  QuickApi.Lib.SplitLines

  Two ways to cut a text into lines that keep their ends: at newlines only, as
  a tokenizer counts them, and at every line boundary of `str.splitlines`. The
  second cuts each line of the first further, so the two number the lines
  alike only above the first boundary that is no newline.
-/
import Mathlib.Data.List.Basic

namespace QuickApi.Lib

/-- The line boundaries of `str.splitlines`; `\r\n` counts as one. -/
def isLineBoundary (c : Char) : Bool :=
  c ∈ ['\n', '\r', '\x0b', '\x0c', '\x1c', '\x1d', '\x1e', '\x85', '\u2028', '\u2029']

/-- A character put in front of the first line. -/
def joinFirst (c : Char) : List (List Char) → List (List Char)
  | [] => [[c]]
  | line :: lines => (c :: line) :: lines

/-- `source.splitlines(keepends=True)`. -/
def splitLines : List Char → List (List Char)
  | [] => []
  | '\r' :: '\n' :: text => ['\r', '\n'] :: splitLines text
  | c :: text => if isLineBoundary c then [c] :: splitLines text else joinFirst c (splitLines text)

/-- The lines of a text that end at newlines only. -/
def newlineLines : List Char → List (List Char)
  | [] => []
  | c :: text => if c = '\n' then [c] :: newlineLines text else joinFirst c (newlineLines text)

@[simp] theorem flatten_joinFirst (c : Char) (lines : List (List Char)) :
    (joinFirst c lines).flatten = c :: lines.flatten := by
  cases lines <;> rfl

theorem joinFirst_append {lines : List (List Char)} (c : Char) (rest : List (List Char))
    (h : lines ≠ []) : joinFirst c (lines ++ rest) = joinFirst c lines ++ rest := by
  cases lines with
  | nil => exact absurd rfl h
  | cons line lines => rfl

theorem splitLines_newline (text : List Char) :
    splitLines ('\n' :: text) = ['\n'] :: splitLines text := rfl

/-- Outside the pair `\r\n`, a character either ends a line or begins one. -/
theorem splitLines_cons {c : Char} {text : List Char}
    (h : ∀ rest, ¬ (c = '\r' ∧ text = '\n' :: rest)) :
    splitLines (c :: text)
      = if isLineBoundary c then [c] :: splitLines text else joinFirst c (splitLines text) := by
  rw [splitLines.eq_3]
  intro rest hc htext
  exact h rest ⟨hc, htext⟩

theorem splitLines_ne_nil {text : List Char} (h : text ≠ []) : splitLines text ≠ [] := by
  fun_cases splitLines text with
  | case1 => exact absurd rfl h
  | case2 => simp
  | case3 => simp
  | case4 c rest =>
    cases splitLines rest <;> simp [joinFirst]

theorem splitLines_flatten (text : List Char) : (splitLines text).flatten = text := by
  fun_induction splitLines text with
  | case1 => rfl
  | case2 text ih => simp [ih]
  | case3 c text _ _ ih => simp [ih]
  | case4 c text _ _ ih => simp [ih]

theorem newlineLines_flatten (text : List Char) : (newlineLines text).flatten = text := by
  fun_induction newlineLines text with
  | case1 => rfl
  | case2 text ih => simp [ih]
  | case3 c text _ ih => simp [ih]

/-! ## Cutting after a newline -/

/-- Both ways cut right after a newline. -/
theorem splitLines_append_newline (front back : List Char) :
    splitLines (front ++ '\n' :: back) = splitLines (front ++ ['\n']) ++ splitLines back := by
  fun_induction splitLines front with
  | case1 => rfl
  | case2 front ih =>
    simp only [List.cons_append, splitLines.eq_2, ih]
  | case3 c front hpair hboundary ih =>
    cases front with
    | nil =>
      by_cases hc : c = '\r'
      · subst hc; rfl
      · have hfree : ∀ text rest : List Char, ¬ (c = '\r' ∧ text = '\n' :: rest) :=
          fun _ _ h => hc h.1
        simp only [List.cons_append, List.nil_append, splitLines_cons (hfree _), if_pos hboundary,
          splitLines_newline]
        rfl
    | cons d front =>
      have hfree : ∀ tail rest : List Char, ¬ (c = '\r' ∧ d :: front ++ tail = '\n' :: rest) := by
        rintro tail rest ⟨rfl, htext⟩
        exact hpair front rfl (by rw [(List.cons.inj htext).1])
      simp only [List.cons_append] at hfree ih ⊢
      rw [splitLines_cons (hfree _), splitLines_cons (hfree _), if_pos hboundary, if_pos hboundary, ih]
      rfl
  | case4 c front hpair hboundary ih =>
    have hc : c ≠ '\r' := by
      rintro rfl
      exact hboundary rfl
    have hfree : ∀ text rest : List Char, ¬ (c = '\r' ∧ text = '\n' :: rest) := fun _ _ h => hc h.1
    simp only [List.cons_append, splitLines_cons (hfree _), if_neg hboundary, ih]
    exact joinFirst_append _ _ (splitLines_ne_nil (by simp))

/-- A list of lines as a text has them: each but the last ends with its only
    newline, and the last is not empty. -/
def LineList : List (List Char) → Prop
  | [] => True
  | [line] => line ≠ [] ∧ '\n' ∉ line.dropLast
  | line :: lines => (∃ body, line = body ++ ['\n'] ∧ '\n' ∉ body) ∧ LineList lines

theorem LineList.tail {line : List Char} {lines : List (List Char)} (h : LineList (line :: lines)) :
    LineList lines := by
  cases lines with
  | nil => trivial
  | cons next lines => exact h.2

theorem LineList.ne_nil {line : List Char} {lines : List (List Char)}
    (h : LineList (line :: lines)) : line ≠ [] := by
  cases lines with
  | nil => exact h.1
  | cons next lines =>
    obtain ⟨⟨body, rfl, -⟩, -⟩ := h
    simp

theorem LineList.newline_cons {lines : List (List Char)} (h : LineList lines) :
    LineList (['\n'] :: lines) := by
  cases lines with
  | nil => simp [LineList]
  | cons line lines => exact ⟨⟨[], rfl, by simp⟩, h⟩

theorem LineList.joinFirst {c : Char} {lines : List (List Char)} (h : LineList lines)
    (hc : c ≠ '\n') : LineList (joinFirst c lines) := by
  match lines with
  | [] => simp [QuickApi.Lib.joinFirst, LineList]
  | [line] =>
    obtain ⟨hne, hbody⟩ := h
    obtain ⟨d, line, rfl⟩ := List.exists_cons_of_ne_nil hne
    exact ⟨by simp, by simpa [List.dropLast_cons_cons] using ⟨hc.symm, hbody⟩⟩
  | line :: next :: lines =>
    obtain ⟨⟨body, rfl, hbody⟩, hrest⟩ := h
    exact ⟨⟨c :: body, rfl, by simpa using ⟨hc.symm, hbody⟩⟩, hrest⟩

theorem newlineLines_lineList (text : List Char) : LineList (newlineLines text) := by
  fun_induction newlineLines text with
  | case1 => trivial
  | case2 text ih => exact ih.newline_cons
  | case3 c text hc ih => exact ih.joinFirst hc

theorem newlineLines_append_newline {body : List Char} (text : List Char) (h : '\n' ∉ body) :
    newlineLines (body ++ '\n' :: text) = (body ++ ['\n']) :: newlineLines text := by
  induction body with
  | nil => rfl
  | cons c body ih =>
    obtain ⟨hc, hbody⟩ : c ≠ '\n' ∧ '\n' ∉ body := by simpa [eq_comm] using h
    simp [newlineLines, hc, ih hbody, joinFirst]

theorem newlineLines_of_notMem {line : List Char} (hne : line ≠ []) (h : '\n' ∉ line) :
    newlineLines line = [line] := by
  induction line with
  | nil => exact absurd rfl hne
  | cons c line ih =>
    obtain ⟨hc, hline⟩ : c ≠ '\n' ∧ '\n' ∉ line := by simpa [eq_comm] using h
    cases line with
    | nil => simp [newlineLines, hc, joinFirst]
    | cons d line =>
      rw [newlineLines, if_neg hc, ih (by simp) hline, joinFirst]

/-- A list of lines is read back from its text. -/
theorem LineList.newlineLines_flatten {lines : List (List Char)} (h : LineList lines) :
    newlineLines lines.flatten = lines := by
  match lines with
  | [] => rfl
  | [line] =>
    obtain ⟨hne, hbody⟩ := h
    have hline : line = line.dropLast ++ [line.getLast hne] := (List.dropLast_append_getLast hne).symm
    by_cases hlast : line.getLast hne = '\n'
    · rw [hlast] at hline
      rw [List.flatten_singleton, hline, newlineLines_append_newline [] hbody]
      rfl
    · rw [List.flatten_singleton]
      refine newlineLines_of_notMem hne ?_
      rw [hline]
      simpa [eq_comm] using ⟨hbody, Ne.symm hlast⟩
  | line :: next :: lines =>
    obtain ⟨⟨body, rfl, hbody⟩, hrest⟩ := h
    have hflatten : ((body ++ ['\n']) :: next :: lines).flatten
        = body ++ '\n' :: (next :: lines).flatten := by
      simp
    rw [hflatten, newlineLines_append_newline _ hbody, LineList.newlineLines_flatten hrest]

/-- `splitlines` cuts each of the lines further, and nothing across them. -/
theorem LineList.splitLines_flatten {lines : List (List Char)} (h : LineList lines) :
    splitLines lines.flatten = lines.flatMap splitLines := by
  match lines with
  | [] => rfl
  | [line] => simp
  | line :: next :: lines =>
    obtain ⟨⟨body, rfl, -⟩, hrest⟩ := h
    have hflatten : ((body ++ ['\n']) :: next :: lines).flatten
        = body ++ '\n' :: (next :: lines).flatten := by
      simp
    rw [hflatten, splitLines_append_newline, LineList.splitLines_flatten hrest]
    rfl

/-- `splitlines` finds at least as many lines. -/
theorem LineList.length_le_splitLines {lines : List (List Char)} (h : LineList lines) :
    lines.length ≤ (splitLines lines.flatten).length := by
  rw [h.splitLines_flatten]
  induction lines with
  | nil => simp
  | cons line lines ih =>
    have hline : 1 ≤ (splitLines line).length :=
      List.length_pos_iff.mpr (splitLines_ne_nil h.ne_nil)
    have hrest := ih h.tail
    simp only [List.flatMap_cons, List.length_append, List.length_cons]
    omega

theorem newlineLines_length_le (text : List Char) :
    (newlineLines text).length ≤ (splitLines text).length := by
  have hlength := (newlineLines_lineList text).length_le_splitLines
  rwa [newlineLines_flatten] at hlength

/-- A line with no boundary but its own end. -/
def Unbroken (line : List Char) : Prop := splitLines line = [line]

instance (line : List Char) : Decidable (Unbroken line) :=
  inferInstanceAs (Decidable (splitLines line = [line]))

/-- Above the first broken line the two ways agree. -/
theorem LineList.splitLines_of_unbroken {lines : List (List Char)} (h : LineList lines) {k : Nat}
    (hfront : ∀ line ∈ lines.take k, Unbroken line) :
    splitLines lines.flatten = lines.take k ++ (lines.drop k).flatMap splitLines := by
  have htake : (lines.take k).flatMap splitLines = lines.take k := by
    generalize lines.take k = front at hfront
    induction front with
    | nil => rfl
    | cons line front ih =>
      have hline : splitLines line = [line] := hfront line List.mem_cons_self
      rw [List.flatMap_cons, hline, ih fun l hl => hfront l (List.mem_cons_of_mem _ hl)]
      rfl
  rw [h.splitLines_flatten]
  conv_lhs => rw [← List.take_append_drop k lines]
  rw [List.flatMap_append, htake]

theorem flatten_flatMap_splitLines (lines : List (List Char)) :
    (lines.flatMap splitLines).flatten = lines.flatten := by
  induction lines with
  | nil => rfl
  | cons line lines ih => simp [splitLines_flatten, ih]

end QuickApi.Lib
