/-
  QuickApi.Config.Canonical

  Each field gives back what it has read once that is written down again: a
  canonical list is what its own entries are read as, and the validators of
  lists give out canonical ones only.
-/

import QuickApi.Lib.CommaList
import QuickApi.Lib.IpAddressText
import QuickApi.Config.Validation

namespace QuickApi.Config

open QuickApi.Lib
open QuickApi.HttpPolicy (IpNetwork Network netmask proxyNetwork proxyNetwork_prefixlen)

-- ============================================================================
-- Characters
-- ============================================================================

/-- A character that neither ends an entry nor is lost around it. -/
def isPlain (c : Char) : Bool := c ≠ ',' && !isSpace c

/-- A text of plain characters is an entry. -/
theorem isItem_of_plain {text : List Char} (hne : text ≠ [])
    (h : ∀ c ∈ text, isPlain c = true) : IsItem ',' isSpace text := by
  have hspace : ∀ c ∈ text, ¬ isSpace c = true := by
    intro c hc
    have hplain := h c hc
    rw [isPlain, Bool.and_eq_true, Bool.not_eq_true'] at hplain
    rw [hplain.2]
    exact Bool.false_ne_true
  have hdrop : text.dropWhile isSpace = text := by
    rw [List.dropWhile_eq_self_iff]
    exact fun hlength => hspace _ (List.getElem_mem hlength)
  refine ⟨⟨hne, ?_⟩, ?_⟩
  · rw [trim, hdrop, List.rdropWhile_eq_self_iff]
    exact fun hl => hspace _ (List.getLast_mem hl)
  · intro hcomma
    have hplain := h ',' hcomma
    exact absurd hplain (by decide)

/-- A character that `lower` leaves alone. -/
def isLowered (c : Char) : Bool := fullLower c == [c] && c ≠ 'Σ'

theorem lowerBehind_of_lowered {finalSigma : List Char → List Char → Bool} {text : List Char}
    (h : ∀ c ∈ text, isLowered c = true) (before : List Char) :
    lowerBehind finalSigma before text = text := by
  induction text generalizing before with
  | nil => rfl
  | cons c text ih =>
      obtain ⟨hc, hrest⟩ := List.forall_mem_cons.mp h
      rw [isLowered, Bool.and_eq_true, beq_iff_eq, decide_eq_true_eq] at hc
      obtain ⟨hlower, hsigma⟩ := hc
      rw [lowerBehind, ih hrest, lowerChar, if_neg fun hfinal => hsigma hfinal.1, hlower]
      rfl

/-- What holds of every ASCII character of a class. -/
theorem ascii_class {p q : Char → Bool}
    (h : ∀ n : Fin 128, p (Char.ofNat n.val) = true → q (Char.ofNat n.val) = true)
    (hascii : ∀ c, p c = true → c.toNat < 128) {c : Char} (hc : p c = true) : q c = true := by
  have hn := h ⟨c.toNat, hascii c hc⟩
  rw [Char.ofNat_toNat] at hn
  exact hn hc

theorem ascii_of_le {c d : Char} (hd : d.toNat < 128) (h : c ≤ d) : c.toNat < 128 :=
  Nat.lt_of_le_of_lt (UInt32.le_iff_toNat_le.mp h) hd

theorem headerChar_ascii (c : Char) (h : isHeaderChar c = true) : c.toNat < 128 := by
  simp only [isHeaderChar, Bool.or_eq_true, Bool.and_eq_true, decide_eq_true_eq, beq_iff_eq] at h
  obtain (⟨-, hz⟩ | ⟨-, hnine⟩) | rfl := h
  · exact ascii_of_le (by decide) hz
  · exact ascii_of_le (by decide) hnine
  · decide

theorem mediaChar_ascii (c : Char) (h : isMediaChar c = true) : c.toNat < 128 := by
  simp only [isMediaChar, Bool.or_eq_true, Bool.and_eq_true, decide_eq_true_eq,
    List.contains_iff_mem] at h
  obtain (⟨-, hz⟩ | ⟨-, hnine⟩) | hmem := h
  · exact ascii_of_le (by decide) hz
  · exact ascii_of_le (by decide) hnine
  · have hall : ("!#$&^_.+-".toList.all fun c => c.toNat < 128) = true := by decide
    exact of_decide_eq_true (List.all_eq_true.mp hall c hmem)

theorem headerChar_plain {c : Char} (h : isHeaderChar c = true) :
    (isPlain c && isLowered c) = true :=
  ascii_class (q := fun c => isPlain c && isLowered c) (by decide +kernel) headerChar_ascii h

theorem mediaChar_plain {c : Char} (h : isMediaChar c = true) :
    (isPlain c && isLowered c) = true :=
  ascii_class (q := fun c => isPlain c && isLowered c) (by decide +kernel) mediaChar_ascii h

theorem lower_of_lowered {finalSigma : List Char → List Char → Bool} {text : List Char}
    (h : ∀ c ∈ text, isLowered c = true) : lower finalSigma text = text :=
  lowerBehind_of_lowered h []

-- ============================================================================
-- Lists as texts
-- ============================================================================

/-- The text of a list. -/
def listText (values : List (List Char)) : List Char := [','].intercalate values

/-- An entry is not blank. -/
theorem exists_plain_of_isItem {text : List Char} (h : IsItem ',' isSpace text) :
    ∃ c ∈ text, isSpace c = false := by
  by_contra hnone
  simp only [not_exists, not_and, Bool.not_eq_false] at hnone
  have hdrop : text.dropWhile isSpace = [] := List.dropWhile_eq_nil_iff.mpr hnone
  have htrim := h.trimmed.trim_eq
  rw [trim, hdrop] at htrim
  exact h.trimmed.ne_nil htrim.symm

theorem strip_eq_nil {text : List Char} (h : strip text = []) : ∀ c ∈ text, isSpace c = true := by
  rw [strip, List.rdropWhile_eq_nil_iff] at h
  have hdrop : text.dropWhile isSpace = [] := by
    cases hrest : text.dropWhile isSpace with
    | nil => rfl
    | cons c rest =>
        have hc : isSpace c = true := h c (by rw [hrest]; exact List.mem_cons_self)
        have hne : text.dropWhile isSpace ≠ [] := by
          rw [hrest]
          exact List.cons_ne_nil c rest
        have hhead := List.head_dropWhile_not isSpace hne
        simp [hrest, hc] at hhead
  exact List.dropWhile_eq_nil_iff.mp hdrop

theorem splitList_listText {values : List (List Char)} (h : ∀ v ∈ values, IsItem ',' isSpace v) :
    splitList (listText values) = values := by
  unfold splitList
  cases values with
  | nil => rfl
  | cons v values =>
      have hnonblank : strip (listText (v :: values)) ≠ [] := by
        intro hstrip
        obtain ⟨c, hc, hplain⟩ := exists_plain_of_isItem (h v List.mem_cons_self)
        have hmem : c ∈ listText (v :: values) := by
          cases values with
          | nil => rwa [listText, List.intercalate_singleton]
          | cons next values =>
              rw [listText, List.intercalate_cons_cons]
              exact List.mem_append_left _ (List.mem_append_left _ hc)
        rw [strip_eq_nil hstrip c hmem] at hplain
        cases hplain
      rw [if_neg hnonblank]
      exact List.splitOn_intercalate ',' (fun v hv => (h v hv).sep_notMem) (List.cons_ne_nil _ _)

theorem parseList_of_items {values : List (List Char)} (h : ∀ v ∈ values, IsItem ',' isSpace v)
    (hnodup : values.Nodup) : parseList values = some values := by
  have hstrip : ∀ v ∈ values, strip v = v := fun v hv => (h v hv).trimmed.trim_eq
  have hnonblank : ¬ (values.any fun entry => strip entry = []) = true := by
    simp only [List.any_eq_true, decide_eq_true_eq, not_exists, not_and]
    intro v hv hblank
    exact (h v hv).trimmed.ne_nil ((hstrip v hv).symm.trans hblank)
  have hmap : values.map strip = values := by
    conv_rhs => rw [← List.map_id values]
    exact List.map_congr_left hstrip
  rw [parseList, if_neg hnonblank, hmap, eraseDups_of_nodup hnodup]

/-- The entries of an accepted list. -/
theorem parseList_cases {entries values : List (List Char)} (h : parseList entries = some values)
    (hcomma : ∀ entry ∈ entries, ',' ∉ entry) :
    (∀ v ∈ values, IsItem ',' isSpace v) ∧ values.Nodup := by
  rw [parseList, Option.ite_none_left_eq_some] at h
  obtain ⟨hnonblank, heq⟩ := h
  obtain rfl := Option.some.inj heq
  simp only [List.any_eq_true, decide_eq_true_eq, not_exists, not_and] at hnonblank
  refine ⟨?_, nodup_eraseDups _⟩
  intro v hv
  obtain ⟨entry, hentry, rfl⟩ := List.mem_map.mp (List.mem_eraseDups.mp hv)
  refine ⟨trimmed_trim (hnonblank entry hentry), ?_⟩
  exact fun hmem => hcomma entry hentry (mem_of_mem_strip hmem)

/-- The entries of a text. -/
theorem splitList_comma {text entry : List Char} (h : entry ∈ splitList text) : ',' ∉ entry := by
  unfold splitList at h
  split at h
  · cases h
  · exact notMem_of_mem_splitOn h

end QuickApi.Config
