/-
  QuickApi.Fingerprint.Canonical

  The encoding is canonical and injective.  Strings: an escaped character can
  be read back from the front of any text.  Values: every text is read from the
  front of whatever follows it (`encode_readable`), by induction over the
  value; the other direction sorts permuted members into the same order.
-/

import QuickApi.Fingerprint.NumberText
import Mathlib.Data.List.Perm.Subperm

namespace QuickApi.Fingerprint

open QuickApi.Lib

-- ============================================================================
-- Strings
-- ============================================================================

/-- The value of a hexadecimal digit as `escapeChar` writes it. -/
def hexValue (c : Char) : Nat := if c.isDigit then c.toNat - 48 else c.toNat - 87

/-- Reads what stands behind a backslash. -/
def unescapeTail : Text → Option (Char × Text)
  | [] => none
  | c :: rest =>
      if c = 'n' then some ('\n', rest)
      else if c = 'r' then some ('\r', rest)
      else if c = 't' then some ('\t', rest)
      else if c = 'b' then some (Char.ofNat 8, rest)
      else if c = 'f' then some (Char.ofNat 12, rest)
      else if c = 'u' then
        match rest with
        | _ :: _ :: a :: b :: rest => some (Char.ofNat (16 * hexValue a + hexValue b), rest)
        | _ => none
      else some (c, rest)

/-- Reads one escaped character from the front of a text. -/
def unescapeChar : Text → Option (Char × Text)
  | [] => none
  | c :: rest => if c = '\\' then unescapeTail rest else some (c, rest)

theorem hexValue_digitChar : ∀ n < 32,
    16 * hexValue (n / 16).digitChar + hexValue (n % 16).digitChar = n := by decide

/-- An escaped character is read back, whatever follows it. -/
theorem unescapeChar_escapeChar (c : Char) (rest : Text) :
    unescapeChar (escapeChar c ++ rest) = some (c, rest) := by
  have hofNat : ∀ n, c.toNat = n → Char.ofNat n = c := by
    rintro n rfl
    exact Char.ofNat_toNat c
  unfold escapeChar
  split_ifs with hquote hback hn hr ht hb hf hcontrol
  · rw [hquote]; rfl
  · rw [hback]; rfl
  · rw [hn]; rfl
  · rw [hr]; rfl
  · rw [ht]; rfl
  · exact congrArg some (congrArg (·, rest) (hofNat 8 hb))
  · exact congrArg some (congrArg (·, rest) (hofNat 12 hf))
  · show some (Char.ofNat _, rest) = some (c, rest)
    rw [hexValue_digitChar _ hcontrol, hofNat _ rfl]
  · exact if_neg hback

/-- No escaped character starts with the closing quote. -/
theorem escapeChar_head (c : Char) : ∃ d rest, escapeChar c = d :: rest ∧ d ≠ '"' := by
  unfold escapeChar
  split_ifs with hquote
  all_goals exact ⟨_, _, rfl, by first | decide | exact hquote⟩

/-- Quoted texts are read apart. -/
theorem dumpsString_readable {s t r r' : Text} (h : dumpsString s ++ r = dumpsString t ++ r') :
    s = t ∧ r = r' := by
  have hbody : s.flatMap escapeChar ++ '"' :: r = t.flatMap escapeChar ++ '"' :: r' := by
    simpa [dumpsString] using h
  clear h
  induction s generalizing t with
  | nil =>
      cases t with
      | nil => exact ⟨rfl, (List.cons.inj hbody).2⟩
      | cons c t =>
          obtain ⟨d, rest, hd, hne⟩ := escapeChar_head c
          rw [List.flatMap_cons, hd] at hbody
          exact absurd (List.cons.inj hbody).1.symm hne
  | cons c s ih =>
      cases t with
      | nil =>
          obtain ⟨d, rest, hd, hne⟩ := escapeChar_head c
          rw [List.flatMap_cons, hd] at hbody
          exact absurd (List.cons.inj hbody).1 hne
      | cons c' t =>
          rw [List.flatMap_cons, List.flatMap_cons, List.append_assoc, List.append_assoc] at hbody
          have hread := congrArg unescapeChar hbody
          rw [unescapeChar_escapeChar, unescapeChar_escapeChar] at hread
          obtain ⟨rfl, htail⟩ := Prod.mk.inj (Option.some.inj hread)
          obtain ⟨rfl, hrest⟩ := ih htail
          exact ⟨rfl, hrest⟩

-- ============================================================================
-- The first character
-- ============================================================================

/-- What the first character of an encoding tells about the value. -/
inductive Kind where
  | null
  | bool (b : Bool)
  | number
  | str
  | list
  | dict
deriving DecidableEq

def kindOfChar (c : Char) : Option Kind :=
  if c = 'n' then some .null
  else if c = 't' then some (.bool true)
  else if c = 'f' then some (.bool false)
  else if c.isDigit ∨ c = '-' then some .number
  else if c = '"' then some .str
  else if c = '[' then some .list
  else if c = '{' then some .dict
  else none

def Value.kind : Value → Kind
  | .null => .null
  | .bool b => .bool b
  | .number _ => .number
  | .str _ => .str
  | .list _ => .list
  | .dict _ => .dict

theorem kindOfChar_number {c : Char} (h : c.isDigit = true ∨ c = '-') :
    kindOfChar c = some .number := by
  have hn : c ≠ 'n' ∧ c ≠ 't' ∧ c ≠ 'f' := by
    rcases h with h | rfl
    · exact ⟨digit_ne h (by decide), digit_ne h (by decide), digit_ne h (by decide)⟩
    · decide
  rw [kindOfChar, if_neg hn.1, if_neg hn.2.1, if_neg hn.2.2, if_pos h]

theorem encode_list_eq_some {items : List Value} {s : Text} (h : encode (.list items) = some s) :
    (∀ v ∈ items, encode v = some (textOf v)) ∧
      s = '[' :: (joinWith ',' (items.map textOf) ++ [']']) := by
  rw [encode, Option.map_eq_some_iff] at h
  obtain ⟨texts, htexts, rfl⟩ := h
  obtain ⟨hall, rfl⟩ := encodeItems_eq_some_iff.mp htexts
  exact ⟨hall, rfl⟩

/-- An entry of a dict as the encoding writes it. -/
def memberText (e : Text × Value) : Text := encodeMember (e.1, textOf e.2)

theorem encode_dict_eq_some {entries : List (Text × Value)} {s : Text}
    (h : encode (.dict entries) = some s) :
    (∀ e ∈ entries, encode e.2 = some (textOf e.2)) ∧
      s = '{' :: (joinWith ',' ((sortByKey entries).map memberText) ++ ['}']) := by
  rw [encode, Option.map_eq_some_iff] at h
  obtain ⟨members, hmembers, rfl⟩ := h
  obtain ⟨hall, rfl⟩ := encodeEntries_eq_some_iff.mp hmembers
  rw [sortByKey_map_textOf, List.map_map]
  exact ⟨hall, rfl⟩

theorem encode_head {v : Value} {s : Text} (h : encode v = some s) :
    ∃ c rest, s = c :: rest ∧ kindOfChar c = some v.kind := by
  cases v with
  | null =>
      obtain rfl := Option.some.inj h
      exact ⟨_, _, rfl, rfl⟩
  | bool b =>
      cases b <;>
      · obtain rfl := Option.some.inj h
        exact ⟨_, _, rfl, rfl⟩
  | number n =>
      obtain ⟨a, m, e, -, rfl, -⟩ := encodeNumber_parts h
      obtain ⟨c, rest, heq, hc⟩ := numberText_head a m e
      exact ⟨c, rest, heq, kindOfChar_number hc⟩
  | str s =>
      obtain rfl := Option.some.inj h
      exact ⟨_, _, rfl, rfl⟩
  | list items =>
      obtain ⟨-, rfl⟩ := encode_list_eq_some h
      exact ⟨_, _, rfl, rfl⟩
  | dict entries =>
      obtain ⟨-, rfl⟩ := encode_dict_eq_some h
      exact ⟨_, _, rfl, rfl⟩

/-- No encoding starts where a list or a dict ends. -/
theorem encode_head_ne {v : Value} {s : Text} (h : encode v = some s) {close : Char}
    (hclose : kindOfChar close = none) : ∃ c rest, s = c :: rest ∧ c ≠ close := by
  obtain ⟨c, rest, heq, hkind⟩ := encode_head h
  refine ⟨c, rest, heq, ?_⟩
  rintro rfl
  rw [hclose] at hkind
  cases hkind

-- ============================================================================
-- Sorted members
-- ============================================================================

theorem sortByKey_perm {α : Type} (entries : List (Text × α)) :
    (sortByKey entries).Perm entries := List.perm_insertionSort _ entries

theorem mem_sortByKey {α : Type} {entries : List (Text × α)} {e : Text × α} :
    e ∈ sortByKey entries ↔ e ∈ entries := (sortByKey_perm entries).mem_iff

theorem pairwise_sortByKey {α : Type} (entries : List (Text × α)) :
    (sortByKey entries).Pairwise fun a b => a.1 ≤ b.1 := by
  have : Std.Total fun a b : Text × α => a.1 ≤ b.1 := ⟨fun a b => le_total a.1 b.1⟩
  have : IsTrans (Text × α) fun a b => a.1 ≤ b.1 := ⟨fun _ _ _ => le_trans⟩
  exact List.pairwise_insertionSort _ entries

theorem lookup_of_mem {α : Type} {entries : List (Text × α)}
    (hnodup : (entries.map Prod.fst).Nodup) {e : Text × α} (he : e ∈ entries) :
    entries.lookup e.1 = some e.2 := by
  cases hlookup : entries.lookup e.1 with
  | none => exact absurd (List.lookup_eq_none_iff.mp hlookup e he) (by simp)
  | some w =>
      obtain ⟨l₁, l₂, heq, -⟩ := List.lookup_eq_some_iff.mp hlookup
      have hmem : (e.1, w) ∈ entries := heq ▸ List.mem_append_right _ List.mem_cons_self
      rw [← List.inj_on_of_nodup_map hnodup hmem he rfl]

/-- Permuted entries with distinct keys are written in the same order. -/
theorem sortByKey_eq_of_perm {α : Type} {es fs : List (Text × α)}
    (hnodup : (es.map Prod.fst).Nodup) (h : es.Perm fs) : sortByKey es = sortByKey fs := by
  refine List.Perm.eq_of_pairwise ?_ (pairwise_sortByKey es) (pairwise_sortByKey fs)
    ((sortByKey_perm es).trans (h.trans (sortByKey_perm fs).symm))
  intro a b ha hb hab hba
  exact List.inj_on_of_nodup_map hnodup (mem_sortByKey.mp ha)
    (h.mem_iff.mpr (mem_sortByKey.mp hb)) (le_antisymm hab hba)

-- ============================================================================
-- Unique readability
-- ============================================================================

/-- What may follow an encoded value: a separator or the end of a list or a dict. -/
def Follows (c : Char) : Prop := c = ',' ∨ c = ']' ∨ c = '}'

theorem Follows.not_numberChar {c : Char} (h : Follows c) : ¬ NumberChar c := by
  rcases h with rfl | rfl | rfl <;> (unfold NumberChar; decide)

theorem same_number_of_append {n k : Number} {s t q q' : Text}
    (hs : encodeNumber n = some s) (ht : encodeNumber k = some t)
    (hq : StartsIn Follows q) (hq' : StartsIn Follows q') (h : s ++ q = t ++ q') :
    Value.same (.number n) (.number k) = true ∧ q = q' := by
  have hchars : ∀ {n s}, encodeNumber n = some s → ∀ c ∈ s, NumberChar c := by
    intro n s hs c hc
    obtain ⟨a, m, e, -, rfl, -⟩ := encodeNumber_parts hs
    exact numberChar_of_mem_numberText hc
  obtain ⟨heq, hrest⟩ := append_inj_of_alphabet (hchars hs) (hchars ht)
    (fun c hc => (hq c hc).not_numberChar) (fun c hc => (hq' c hc).not_numberChar) h
  exact ⟨(encodeNumber_same hs ht).mpr heq, hrest⟩

/-- Pairwise related sorted entries make the dicts equal up to insertion order. -/
theorem sameEntries_of_forall₂ {es fs : List (Text × Value)}
    (hnodup : (fs.map Prod.fst).Nodup)
    (h : List.Forall₂ (fun e f => e.1 = f.1 ∧ Value.same e.2 f.2 = true)
      (sortByKey es) (sortByKey fs)) :
    Value.same (.dict es) (.dict fs) = true := by
  rw [Value.same, Bool.and_eq_true, beq_iff_eq, Value.sameEntries_iff]
  constructor
  · rw [← (sortByKey_perm es).length_eq, h.length_eq, (sortByKey_perm fs).length_eq]
  · intro e he
    obtain ⟨i, hi, hget⟩ := List.getElem_of_mem (mem_sortByKey.mpr he)
    have hi' : i < (sortByKey fs).length := h.length_eq ▸ hi
    obtain ⟨hkey, hsame⟩ := h.get hi hi'
    simp only [List.get_eq_getElem, hget] at hkey hsame
    refine ⟨(sortByKey fs)[i].2, ?_, hsame⟩
    rw [hkey]
    exact lookup_of_mem hnodup (mem_sortByKey.mp (List.getElem_mem hi'))

/-- Encoded values are read apart: equal texts, each followed by what may follow a value,
    are the texts of values that are the same and continue equally. -/
theorem encode_readable (v : Value) : ∀ (w : Value) (s t q q' : Text), w.DistinctKeys →
    encode v = some s → encode w = some t → StartsIn Follows q → StartsIn Follows q' →
    s ++ q = t ++ q' → Value.same v w = true ∧ q = q' := by
  -- Both texts start with the same character, so both values are of the same kind.
  have hkinds : ∀ (v w : Value) (s t q q' : Text), encode v = some s → encode w = some t →
      s ++ q = t ++ q' → v.kind = w.kind := by
    intro v w s t q q' hs ht h
    obtain ⟨c, rest, rfl, hc⟩ := encode_head hs
    obtain ⟨d, rest', rfl, hd⟩ := encode_head ht
    obtain rfl := (List.cons.inj h).1
    exact Option.some.inj (hc.symm.trans hd)
  induction v using Value.induction with
  | null =>
      intro w s t q q' _ hs ht _ _ h
      have hkind := hkinds _ _ _ _ _ _ hs ht h
      cases w with
      | null =>
          obtain rfl := Option.some.inj (hs.symm.trans ht)
          exact ⟨rfl, List.append_cancel_left h⟩
      | _ => cases hkind
  | bool b =>
      intro w s t q q' _ hs ht _ _ h
      have hkind := hkinds _ _ _ _ _ _ hs ht h
      cases w with
      | bool b' =>
          obtain rfl := Kind.bool.inj hkind
          obtain rfl := Option.some.inj (hs.symm.trans ht)
          exact ⟨beq_self_eq_true b, List.append_cancel_left h⟩
      | _ => cases hkind
  | number n =>
      intro w s t q q' _ hs ht hq hq' h
      have hkind := hkinds _ _ _ _ _ _ hs ht h
      cases w with
      | number k => exact same_number_of_append hs ht hq hq' h
      | _ => cases hkind
  | str a =>
      intro w s t q q' _ hs ht _ _ h
      have hkind := hkinds _ _ _ _ _ _ hs ht h
      cases w with
      | str b =>
          obtain rfl := Option.some.inj hs
          obtain rfl := Option.some.inj ht
          obtain ⟨rfl, hrest⟩ := dumpsString_readable h
          exact ⟨beq_self_eq_true a, hrest⟩
      | _ => cases hkind
  | list xs ih =>
      intro w s t q q' hw hs ht _ _ h
      have hkind := hkinds _ _ _ _ _ _ hs ht h
      cases w with
      | list ys =>
          obtain ⟨hxs, rfl⟩ := encode_list_eq_some hs
          obtain ⟨hys, rfl⟩ := encode_list_eq_some ht
          have hdistinct := Value.distinctKeysItems_iff.mp hw
          obtain ⟨hall, hrest⟩ := joinWith_unique (R := fun x y => Value.same x y = true)
            (D := Follows) (by decide) (Or.inl rfl) (Or.inr (Or.inl rfl))
            (fun x hx => encode_head_ne (hxs x hx) (by decide))
            (fun y hy => encode_head_ne (hys y hy) (by decide))
            (fun x hx y hy p p' hp hp' hxy =>
              ih x hx y _ _ p p' (hdistinct y hy) (hxs x hx) (hys y hy) hp hp' hxy)
            (by simpa using h)
          exact ⟨Value.sameItems_iff.mpr hall, hrest⟩
      | _ => cases hkind
  | dict es ih =>
      intro w s t q q' hw hs ht _ _ h
      have hkind := hkinds _ _ _ _ _ _ hs ht h
      cases w with
      | dict fs =>
          obtain ⟨hes, rfl⟩ := encode_dict_eq_some hs
          obtain ⟨hfs, rfl⟩ := encode_dict_eq_some ht
          have hdistinct := Value.distinctKeysEntries_iff.mp hw.2
          have hbody : joinWith ',' ((sortByKey es).map memberText) ++ '}' :: q
              = joinWith ',' ((sortByKey fs).map memberText) ++ '}' :: q' := by simpa using h
          obtain ⟨hall, hrest⟩ := joinWith_unique (f := memberText) (g := memberText)
            (R := fun e f : Text × Value => e.1 = f.1 ∧ Value.same e.2 f.2 = true)
            (D := Follows) (by decide) (Or.inl rfl) (Or.inr (Or.inr rfl))
            (fun e _ => ⟨'"', _, rfl, by decide⟩) (fun f _ => ⟨'"', _, rfl, by decide⟩)
            (fun e he f hf p p' hp hp' hef => by
              have he := mem_sortByKey.mp he
              have hf := mem_sortByKey.mp hf
              simp only [memberText, encodeMember, List.append_assoc, List.cons_append] at hef
              obtain ⟨hkey, hvalue⟩ := dumpsString_readable hef
              obtain ⟨hsame, hrest⟩ := ih e he f.2 _ _ p p' (hdistinct f hf) (hes e he)
                (hfs f hf) hp hp' (List.cons.inj hvalue).2
              exact ⟨⟨hkey, hsame⟩, hrest⟩) hbody
          exact ⟨sameEntries_of_forall₂ hw.1 hall, hrest⟩
      | _ => cases hkind

-- ============================================================================
-- Canonical texts
-- ============================================================================

/-- Values that are the same have one text. -/
theorem textOf_eq_of_same (v : Value) : ∀ w : Value, v.DistinctKeys → Value.same v w = true →
    ∀ s t, encode v = some s → encode w = some t → s = t := by
  induction v using Value.induction with
  | null =>
      intro w _ hsame s t hs ht
      cases w with
      | null => exact Option.some.inj (hs.symm.trans ht)
      | _ => cases hsame
  | bool b =>
      intro w _ hsame s t hs ht
      cases w with
      | bool b' =>
          obtain rfl := beq_iff_eq.mp hsame
          exact Option.some.inj (hs.symm.trans ht)
      | _ => cases hsame
  | number n =>
      intro w _ hsame s t hs ht
      cases w with
      | number k => exact (encodeNumber_same hs ht).mp hsame
      | _ => cases hsame
  | str a =>
      intro w _ hsame s t hs ht
      cases w with
      | str b =>
          obtain rfl := beq_iff_eq.mp hsame
          exact Option.some.inj (hs.symm.trans ht)
      | _ => cases hsame
  | list xs ih =>
      intro w hv hsame s t hs ht
      cases w with
      | list ys =>
          obtain ⟨hxs, rfl⟩ := encode_list_eq_some hs
          obtain ⟨hys, rfl⟩ := encode_list_eq_some ht
          have hdistinct := Value.distinctKeysItems_iff.mp hv
          have hall := Value.sameItems_iff.mp hsame
          have htexts : xs.map textOf = ys.map textOf := by
            apply List.ext_getElem
            · simpa using hall.length_eq
            · intro i hi hi'
              rw [List.length_map] at hi hi'
              rw [List.getElem_map, List.getElem_map]
              exact ih _ (List.getElem_mem hi) _ (hdistinct _ (List.getElem_mem hi))
                (hall.get hi hi') _ _ (hxs _ (List.getElem_mem hi)) (hys _ (List.getElem_mem hi'))
          rw [htexts]
      | _ => cases hsame
  | dict es ih =>
      intro w hv hsame s t hs ht
      cases w with
      | dict fs =>
          obtain ⟨hes, rfl⟩ := encode_dict_eq_some hs
          obtain ⟨hfs, rfl⟩ := encode_dict_eq_some ht
          have hdistinct := Value.distinctKeysEntries_iff.mp hv.2
          rw [Value.same, Bool.and_eq_true, beq_iff_eq, Value.sameEntries_iff] at hsame
          obtain ⟨hlen, hentries⟩ := hsame
          -- The encoded members of the first dict are members of the second.
          have hsub : (es.map fun e => (e.1, textOf e.2)) ⊆ fs.map fun f => (f.1, textOf f.2) := by
            intro member hmember
            obtain ⟨e, he, rfl⟩ := List.mem_map.mp hmember
            obtain ⟨w, hw, hsame⟩ := hentries e he
            obtain ⟨l₁, l₂, heq, -⟩ := List.lookup_eq_some_iff.mp hw
            have hmem : (e.1, w) ∈ fs := heq ▸ List.mem_append_right _ List.mem_cons_self
            have htext := ih e he w (hdistinct e he) hsame _ _ (hes e he) (hfs _ hmem)
            rw [htext]
            exact List.mem_map.mpr ⟨_, hmem, rfl⟩
          have hkeys : ((es.map fun e => (e.1, textOf e.2)).map Prod.fst).Nodup := by
            rw [List.map_map]
            exact hv.1
          have hperm := (List.Nodup.subperm hkeys.of_map hsub).perm_of_length_le
            (by simp [hlen])
          have hsorted := sortByKey_eq_of_perm hkeys hperm
          rw [sortByKey_map_textOf, sortByKey_map_textOf] at hsorted
          have htexts := congrArg (List.map encodeMember) hsorted
          rw [List.map_map, List.map_map] at htexts
          show '{' :: (joinWith ',' ((sortByKey es).map memberText) ++ ['}'])
            = '{' :: (joinWith ',' ((sortByKey fs).map memberText) ++ ['}'])
          rw [show (sortByKey es).map memberText = (sortByKey fs).map memberText from htexts]
      | _ => cases hsame

/-- The encoding is canonical and injective: on values that encode, equal texts are exactly
    equal values, up to exact numeric value and dict insertion order. -/
theorem encode_eq_iff_same (v w : JsonValue) {s t : Text} (hs : encode v.value = some s)
    (ht : encode w.value = some t) : s = t ↔ Value.same v.value w.value = true := by
  constructor
  · rintro rfl
    exact (encode_readable v.value w.value _ _ [] [] w.distinctKeys hs ht
      (startsIn_nil _) (startsIn_nil _) rfl).1
  · intro hsame
    exact textOf_eq_of_same v.value w.value v.distinctKeys hsame s t hs ht

/-- `{"b": 1.50, "a": true}` and `{"a": true, "b": 15e-1}` share the text `{"a":true,"b":15e-1}`. -/
theorem encode_eq_iff_same_reordered :
    (['{', '"', 'a', '"', ':', 't', 'r', 'u', 'e', ',', '"', 'b', '"', ':', '1', '5', 'e', '-',
      '1', '}'] : Text) = ['{', '"', 'a', '"', ':', 't', 'r', 'u', 'e', ',', '"', 'b', '"', ':',
      '1', '5', 'e', '-', '1', '}'] ↔
    Value.same (.dict [(['b'], .number (.decimal (.finite false 150 (-2)))), (['a'], .bool true)])
      (.dict [(['a'], .bool true), (['b'], .number (.float (.finite false 15 (-1))))]) = true :=
  encode_eq_iff_same
    ⟨.dict [(['b'], .number (.decimal (.finite false 150 (-2)))), (['a'], .bool true)],
      by simp [Value.DistinctKeys, Value.DistinctKeysEntries]⟩
    ⟨.dict [(['a'], .bool true), (['b'], .number (.float (.finite false 15 (-1))))],
      by simp [Value.DistinctKeys, Value.DistinctKeysEntries]⟩
    (by decide +kernel) (by decide +kernel)

end QuickApi.Fingerprint
