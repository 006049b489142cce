/-
  QuickApi.Lib.CommaList

  Lists written as one text: items between separators, with blanks around them
  and empty ones among them. What is read from a rendered list is the list.
-/

import Mathlib.Data.List.DropRight
import Mathlib.Data.List.Basic

namespace QuickApi.Lib

variable {α : Type*}

/-- `text` without the blanks at its ends. -/
def trim (blank : α → Bool) (text : List α) : List α :=
  (text.dropWhile blank).rdropWhile blank

/-- A text with something in it and no blank at its ends. -/
structure Trimmed (blank : α → Bool) (text : List α) : Prop where
  ne_nil : text ≠ []
  trim_eq : trim blank text = text

theorem mem_of_mem_trim {blank : α → Bool} {text : List α} {c : α} (h : c ∈ trim blank text) :
    c ∈ text :=
  (List.dropWhile_sublist _).subset ((List.rdropWhile_prefix blank _).subset h)

theorem trim_cons_blank {blank : α → Bool} {c : α} (h : blank c = true) (text : List α) :
    trim blank (c :: text) = trim blank text := by
  rw [trim, List.dropWhile_cons_of_pos h, trim]

theorem trim_trim (blank : α → Bool) (text : List α) :
    trim blank (trim blank text) = trim blank text := by
  have hdrop : (trim blank text).dropWhile blank = trim blank text := by
    obtain ⟨rest, hrest⟩ := List.rdropWhile_prefix blank (text.dropWhile blank)
    change trim blank text ++ rest = text.dropWhile blank at hrest
    have hidem := List.dropWhile_idempotent blank text
    cases hempty : trim blank text with
    | nil => rfl
    | cons c kept =>
        rw [← hrest, hempty, List.cons_append, List.dropWhile_cons] at hidem
        split at hidem
        · -- a leading blank would make the text shorter than itself
          have hshort := (List.dropWhile_sublist blank (l := kept ++ rest)).length_le
          rw [hidem] at hshort
          exact absurd hshort (by simp)
        · next hblank => rw [List.dropWhile_cons_of_neg hblank]
  rw [trim, hdrop, trim, List.rdropWhile_idempotent]

theorem trimmed_trim {blank : α → Bool} {text : List α} (h : trim blank text ≠ []) :
    Trimmed blank (trim blank text) := ⟨h, trim_trim blank text⟩

variable [DecidableEq α]

/-- The items of a text: what stands between two separators, trimmed, where anything is left. -/
def itemsOf (sep : α) (blank : α → Bool) (text : List α) : List (List α) :=
  ((text.splitOn sep).map (trim blank)).filter (· ≠ [])

/-- What an item of a list is: trimmed, and without a separator. -/
structure IsItem (sep : α) (blank : α → Bool) (text : List α) : Prop where
  trimmed : Trimmed blank text
  sep_notMem : sep ∉ text

/-- The pieces of a split text contain no separator. -/
theorem notMem_of_mem_splitOn {sep : α} {text piece : List α} (h : piece ∈ text.splitOn sep) :
    sep ∉ piece := by
  induction text generalizing piece with
  | nil =>
      obtain rfl : piece = [] := by simpa using h
      exact List.not_mem_nil
  | cons c text ih =>
      rw [List.splitOn_cons_eq_if_modifyHead] at h
      split at h
      · obtain rfl | h := List.mem_cons.mp h
        · exact List.not_mem_nil
        · exact ih h
      · next hc =>
          cases hsplit : text.splitOn sep with
          | nil => exact absurd hsplit (List.splitOn_ne_nil sep text)
          | cons first rest =>
              rw [hsplit, List.modifyHead_cons] at h
              obtain rfl | h := List.mem_cons.mp h
              · rw [List.mem_cons, not_or]
                exact ⟨fun hsep => hc (by rw [hsep]; exact beq_self_eq_true c),
                  ih (hsplit ▸ List.mem_cons_self)⟩
              · exact ih (hsplit ▸ List.mem_cons_of_mem _ h)

theorem isItem_of_mem_itemsOf {sep : α} {blank : α → Bool} {text item : List α}
    (h : item ∈ itemsOf sep blank text) : IsItem sep blank item := by
  obtain ⟨hmem, hne⟩ := List.mem_filter.mp h
  obtain ⟨piece, hpiece, rfl⟩ := List.mem_map.mp hmem
  exact ⟨trimmed_trim (by simpa using hne), fun hsep =>
    notMem_of_mem_splitOn hpiece (mem_of_mem_trim hsep)⟩

/-- A blank in front of a text adds no item. -/
theorem itemsOf_cons_blank {sep : α} {blank : α → Bool} {c : α} (hblank : blank c = true)
    (hne : c ≠ sep) (text : List α) : itemsOf sep blank (c :: text) = itemsOf sep blank text := by
  rw [itemsOf, List.splitOn_cons_eq_if_modifyHead, if_neg (by simpa using hne), itemsOf]
  cases text.splitOn sep with
  | nil => rfl
  | cons first rest => rw [List.modifyHead_cons, List.map_cons, List.map_cons, trim_cons_blank hblank]

theorem itemsOf_of_isItem {sep : α} {blank : α → Bool} {item : List α} (h : IsItem sep blank item) :
    itemsOf sep blank item = [item] := by
  rw [itemsOf, List.splitOn_eq_singleton h.sep_notMem, List.map_singleton, h.trimmed.trim_eq]
  exact List.filter_cons_of_pos (by simpa using h.trimmed.ne_nil)

/-- The first item of a text, where a separator ends it. -/
theorem itemsOf_append_sep {sep : α} {blank : α → Bool} {item : List α} (h : IsItem sep blank item)
    (text : List α) : itemsOf sep blank (item ++ sep :: text) = item :: itemsOf sep blank text := by
  rw [itemsOf, List.splitOn_append_cons_self_of_not_mem h.sep_notMem, List.map_cons, h.trimmed.trim_eq]
  exact List.filter_cons_of_pos (by simpa using h.trimmed.ne_nil)

/-- The items of a rendered list are the list. -/
theorem itemsOf_intercalate {sep pad : α} {blank : α → Bool} (hpad : blank pad = true)
    (hne : pad ≠ sep) {list : List (List α)} (h : ∀ item ∈ list, IsItem sep blank item) :
    itemsOf sep blank ([sep, pad].intercalate list) = list := by
  induction list with
  | nil => simp [itemsOf, trim]
  | cons item rest ih =>
      obtain ⟨hitem, hrest⟩ := List.forall_mem_cons.mp h
      cases rest with
      | nil =>
          rw [List.intercalate_singleton]
          exact itemsOf_of_isItem hitem
      | cons next rest =>
          rw [List.intercalate_cons_cons, List.append_assoc, List.cons_append, List.singleton_append,
            itemsOf_append_sep hitem, itemsOf_cons_blank hpad hne, ih hrest]

end QuickApi.Lib
