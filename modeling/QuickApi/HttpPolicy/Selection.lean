/-
  QuickApi.HttpPolicy.Selection

  The forwarding headers of a request: each is selected with its clean value,
  and selection fails where one of them is repeated or not clean.
-/

import QuickApi.HttpPolicy.TrustedProxy
import QuickApi.Lib.Readable

namespace QuickApi.HttpPolicy

open QuickApi.Lib

/-- The entry of a forwarding header. -/
structure Selects (header : Bytes × Bytes) (entry : Bytes × List Char) : Prop where
  key : entry.1 = lowerBytes header.1
  value : ∃ decoded, decodeAscii header.2 = some decoded ∧ decoded.any isControl = false ∧
    entry.2 = strip decoded

/-- The forwarding headers among the headers. -/
def forwardingOf (headers : List (Bytes × Bytes)) : List (Bytes × Bytes) :=
  headers.filter fun header => lowerBytes header.1 ∈ forwardingHeaders

theorem forwardingOf_cons_of_mem {header : Bytes × Bytes} (h : lowerBytes header.1 ∈ forwardingHeaders)
    (headers : List (Bytes × Bytes)) :
    forwardingOf (header :: headers) = header :: forwardingOf headers :=
  List.filter_cons_of_pos (by simpa using h)

theorem forwardingOf_cons_of_not_mem {header : Bytes × Bytes}
    (h : lowerBytes header.1 ∉ forwardingHeaders) (headers : List (Bytes × Bytes)) :
    forwardingOf (header :: headers) = forwardingOf headers :=
  List.filter_cons_of_neg (by simpa using h)

theorem selectHeader_of_not_mem {header : Bytes × Bytes}
    (h : lowerBytes header.1 ∉ forwardingHeaders) (selected : Selected) :
    selectHeader selected header = some selected :=
  if_pos h

/-- A forwarding header is selected once, with a clean value. -/
theorem selectHeader_eq_some_iff {header : Bytes × Bytes}
    (h : lowerBytes header.1 ∈ forwardingHeaders) {selected selected' : Selected} :
    selectHeader selected header = some selected' ↔ lowerBytes header.1 ∉ selected.keys ∧
      ∃ value, Selects header (lowerBytes header.1, value) ∧
        selected' = selected.set (lowerBytes header.1) value := by
  simp only [selectHeader, not_true_eq_false, h, if_false, Option.ite_none_left_eq_some,
    Option.bind_eq_some_iff, Option.some.injEq]
  constructor
  · rintro ⟨hnew, decoded, hdecoded, hcontrol, rfl⟩
    exact ⟨hnew, strip decoded, ⟨rfl, decoded, hdecoded, by simpa using hcontrol, rfl⟩, rfl⟩
  · rintro ⟨hnew, value, ⟨-, decoded, hdecoded, hcontrol, rfl⟩, rfl⟩
    exact ⟨hnew, decoded, hdecoded, by simp [hcontrol], rfl⟩

theorem entries_of_select {headers : List (Bytes × Bytes)} {selected selected' : Selected}
    (h : headers.foldlM selectHeader selected = some selected') :
    ∃ new, selected'.entries = selected.entries ++ new ∧
      List.Forall₂ Selects (forwardingOf headers) new := by
  induction headers generalizing selected with
  | nil =>
      obtain rfl := Option.some.inj h
      exact ⟨[], by simp, .nil⟩
  | cons header headers ih =>
      rw [List.foldlM_cons] at h
      obtain ⟨middle, hmiddle, hrest⟩ := Option.bind_eq_some_iff.mp h
      obtain ⟨new, hnew, hall⟩ := ih hrest
      by_cases hmem : lowerBytes header.1 ∈ forwardingHeaders
      · obtain ⟨hkey, value, hselects, rfl⟩ := (selectHeader_eq_some_iff hmem).mp hmiddle
        rw [OrderedDict.set_entries_of_new hkey, List.append_assoc] at hnew
        rw [forwardingOf_cons_of_mem hmem]
        exact ⟨_, hnew, .cons hselects hall⟩
      · rw [selectHeader_of_not_mem hmem] at hmiddle
        obtain rfl := Option.some.inj hmiddle
        rw [forwardingOf_cons_of_not_mem hmem]
        exact ⟨new, hnew, hall⟩

theorem select_of_entries {headers : List (Bytes × Bytes)} {selected : Selected}
    {new : List (Bytes × List Char)} (hall : List.Forall₂ Selects (forwardingOf headers) new)
    (hnodup : ((selected.entries ++ new).map Prod.fst).Nodup) :
    ∃ selected', headers.foldlM selectHeader selected = some selected' ∧
      selected'.entries = selected.entries ++ new := by
  induction headers generalizing selected new with
  | nil =>
      cases hall
      exact ⟨selected, rfl, by simp⟩
  | cons header headers ih =>
      by_cases hmem : lowerBytes header.1 ∈ forwardingHeaders
      · rw [forwardingOf_cons_of_mem hmem] at hall
        cases hall with
        | @cons _ entry _ new hselects hall =>
            obtain ⟨key, value⟩ := entry
            obtain rfl : key = lowerBytes header.1 := hselects.key
            have hkey : lowerBytes header.1 ∉ selected.keys := by
              rw [List.map_append, List.nodup_append] at hnodup
              intro hk
              exact hnodup.2.2 _ hk _ (by simp) rfl
            have hset := (selectHeader_eq_some_iff hmem).mpr ⟨hkey, value, hselects, rfl⟩
            have hentries := OrderedDict.set_entries_of_new hkey value
            have hnodup' : (((selected.set (lowerBytes header.1) value).entries ++ new).map
                Prod.fst).Nodup := by
              rw [hentries, List.append_assoc]
              exact hnodup
            obtain ⟨selected', hfold, hselected'⟩ := ih hall hnodup'
            refine ⟨selected', ?_, ?_⟩
            · rw [List.foldlM_cons, hset]
              exact hfold
            · rw [hselected', hentries, List.append_assoc]
              rfl
      · rw [forwardingOf_cons_of_not_mem hmem] at hall
        obtain ⟨selected', hfold, hselected'⟩ := ih hall hnodup
        refine ⟨selected', ?_, hselected'⟩
        rw [List.foldlM_cons, selectHeader_of_not_mem hmem]
        exact hfold

theorem Selects.unique {header : Bytes × Bytes} {entry entry' : Bytes × List Char}
    (h : Selects header entry) (h' : Selects header entry') : entry = entry' := by
  obtain ⟨decoded, hdecoded, -, hvalue⟩ := h.value
  obtain ⟨decoded', hdecoded', -, hvalue'⟩ := h'.value
  obtain rfl := Option.some.inj (hdecoded.symm.trans hdecoded')
  exact Prod.ext (h.key.trans h'.key.symm) (hvalue.trans hvalue'.symm)

/-- The entry of a key among the selected headers. -/
theorem get?_of_select {headers : List (Bytes × Bytes)} {selected : Selected}
    (h : headers.foldlM selectHeader .empty = some selected) {key : Bytes}
    (hkey : key ∈ forwardingHeaders) {value : List Char} :
    selected.get? key = some value ↔ ∃ header ∈ headers, Selects header (key, value) := by
  obtain ⟨new, hentries, hall⟩ := entries_of_select h
  rw [OrderedDict.get?_eq_some_iff, hentries, OrderedDict.empty, List.nil_append]
  constructor
  · intro hmem
    obtain ⟨header, hheader, hselects⟩ := exists_of_forall₂_right hall hmem
    exact ⟨header, (List.mem_filter.mp hheader).1, hselects⟩
  · rintro ⟨header, hheader, hselects⟩
    have hforwarding : header ∈ forwardingOf headers :=
      List.mem_filter.mpr ⟨hheader, by simpa [← hselects.key] using hkey⟩
    obtain ⟨entry, hentry, hselects'⟩ := exists_of_forall₂_left hall hforwarding
    rwa [hselects.unique hselects']

end QuickApi.HttpPolicy
