/-
  QuickApi.Lib.IpAddressText

  The text of an unscoped address denotes that address.  For IPv6 the run of
  zeros that the text skips is all zeros, and what stands before and behind it
  is read hextet by hextet.
-/

import QuickApi.Lib.IpAddress
import QuickApi.Lib.Readable
import Mathlib.Data.List.Induction

namespace QuickApi.Lib.IpAddress

-- ============================================================================
-- Characters of the texts
-- ============================================================================

theorem not_mem_toDigits {base : Nat} (hbase : 1 < base) (hbase' : base ≤ 16) {c : Char}
    (hc : digitValue c = none) (n : Nat) : c ∉ Nat.toDigits base n := by
  intro hmem
  have hdigit := digitValue_of_mem_toDigits hbase hbase' hmem
  rw [hc] at hdigit
  cases hdigit

theorem mem_intercalate {sep c : Char} {parts : List (List Char)}
    (h : c ∈ [sep].intercalate parts) : c = sep ∨ ∃ part ∈ parts, c ∈ part := by
  induction parts with
  | nil => cases h
  | cons part parts ih =>
      cases parts with
      | nil =>
          refine .inr ⟨part, List.mem_cons_self, ?_⟩
          simpa [List.intercalate] using h
      | cons part' parts =>
          rw [List.intercalate_cons_cons, List.mem_append, List.mem_append,
            List.mem_singleton] at h
          obtain (h | rfl) | h := h
          · exact .inr ⟨part, List.mem_cons_self, h⟩
          · exact .inl rfl
          · obtain h | ⟨p, hp, hcp⟩ := ih h
            · exact .inl h
            · exact .inr ⟨p, List.mem_cons_of_mem _ hp, hcp⟩

theorem splitOn_of_not_mem {text : List Char} {sep : Char} (h : sep ∉ text) :
    text.splitOn sep = [text] := by
  have hsplit : ([sep].intercalate [text]).splitOn sep = [text] :=
    List.splitOn_intercalate sep (by simpa using h) (by simp)
  rwa [List.intercalate_singleton] at hsplit

-- ============================================================================
-- IPv4
-- ============================================================================

theorem parseOctet_toDigits {n : Nat} (hn : n < 256) : parseOctet (Nat.toDigits 10 n) = some n := by
  have hall : ∀ n : Fin 256, parseOctet (Nat.toDigits 10 n) = some n.val := by decide +kernel
  exact hall ⟨n, hn⟩

theorem ipv4Address_text (ip : BitVec 32) : ipv4Address (ipv4Text ip) = some ip := by
  have hslash : '/' ∉ ipv4Text ip := by
    intro h
    obtain h | ⟨part, hpart, h⟩ := mem_intercalate h
    · exact absurd h (by decide)
    · obtain ⟨octet, _, rfl⟩ := List.mem_map.mp hpart
      exact not_mem_toDigits (by decide) (by decide) (by decide) octet h
  have hlength := toRadix_length 256 4 ip.toNat
  have hsplit : (ipv4Text ip).splitOn '.' = (toRadix 256 4 ip.toNat).map (Nat.toDigits 10) := by
    refine List.splitOn_intercalate '.' ?_ ?_
    · intro part hpart
      obtain ⟨octet, _, rfl⟩ := List.mem_map.mp hpart
      exact not_mem_toDigits (by decide) (by decide) (by decide) octet
    · intro hnil
      rw [List.map_eq_nil_iff] at hnil
      rw [hnil] at hlength
      cases hlength
  have hoctets : ((toRadix 256 4 ip.toNat).map (Nat.toDigits 10)).mapM parseOctet =
      some (toRadix 256 4 ip.toNat) :=
    mapM_map_eq_some fun octet hoctet => parseOctet_toDigits (toRadix_lt (by decide) hoctet)
  have hvalue : BitVec.ofNat 32 (ofRadix 256 (toRadix 256 4 ip.toNat)) = ip := by
    have hlt : ip.toNat < 256 ^ 4 := ip.isLt
    rw [ofRadix_toRadix, Nat.mod_eq_of_lt hlt, BitVec.ofNat_toNat, BitVec.setWidth_eq]
  rw [ipv4Address, if_neg hslash]
  simp only [hsplit, List.length_map, hlength, hoctets, ne_eq, not_true_eq_false, if_false,
    Option.map_some, hvalue]

-- ============================================================================
-- The longest run of zeros
-- ============================================================================

/-- The runs lie inside the hextets read so far, and are runs of zeros. -/
structure ZeroRuns.Inside (r : ZeroRuns) (hextets : List (List Char)) : Prop where
  start : ∀ s ∈ r.start, s + r.length = hextets.length
  length : r.start = none → r.length = 0
  current : ∀ i, hextets.length ≤ i + r.length → i < hextets.length → hextets[i]? = some ['0']
  bestEnd : r.bestStart + r.bestLength ≤ hextets.length
  best : ∀ i, r.bestStart ≤ i → i < r.bestStart + r.bestLength → hextets[i]? = some ['0']

theorem zeroRuns_snoc (hextets : List (List Char)) (hextet : List Char) :
    zeroRuns (hextets ++ [hextet]) = (zeroRuns hextets).next hextets.length hextet := by
  simp [zeroRuns, List.zipIdx_append]

theorem ZeroRuns.Inside.next {r : ZeroRuns} {hextets : List (List Char)} (h : r.Inside hextets)
    (hextet : List Char) :
    (r.next hextets.length hextet).Inside (hextets ++ [hextet]) := by
  have hold : ∀ {i}, i < hextets.length → (hextets ++ [hextet])[i]? = hextets[i]? :=
    fun hi => List.getElem?_append_left hi
  have hbest : ∀ i, r.bestStart ≤ i → i < r.bestStart + r.bestLength →
      (hextets ++ [hextet])[i]? = some ['0'] := by
    intro i hi hi'
    have hend := h.bestEnd
    rw [hold (by omega)]
    exact h.best i hi hi'
  have hbestEnd := h.bestEnd
  by_cases hzero : hextet = ['0']
  · subst hzero
    have hstart : r.start.getD hextets.length + r.length = hextets.length := by
      cases hs : r.start with
      | none => simp [h.length hs]
      | some s => exact h.start s hs
    have hcurrent : ∀ i, (hextets ++ [['0']]).length ≤ i + (r.length + 1) →
        i < (hextets ++ [['0']]).length → (hextets ++ [['0']])[i]? = some ['0'] := by
      intro i hi hi'
      rw [List.length_append, List.length_singleton] at hi hi'
      by_cases hlt : i < hextets.length
      · rw [hold hlt]
        exact h.current i (by omega) hlt
      · obtain rfl : i = hextets.length := by omega
        simp
    unfold ZeroRuns.next
    rw [if_pos rfl]
    dsimp only
    split
    · refine ⟨?_, ?_, hcurrent, ?_, ?_⟩
      · simp only [Option.mem_def, Option.some.injEq, List.length_append, List.length_singleton]
        omega
      · intro hnone
        cases hnone
      · simp only [List.length_append, List.length_singleton]
        omega
      · intro i hi hi'
        refine hcurrent i ?_ ?_ <;>
          simp only [List.length_append, List.length_singleton] at hi hi' ⊢ <;> omega
    · refine ⟨?_, ?_, hcurrent, ?_, hbest⟩
      · simp only [Option.mem_def, Option.some.injEq, List.length_append, List.length_singleton]
        omega
      · intro hnone
        cases hnone
      · simp only [List.length_append, List.length_singleton]
        omega
  · unfold ZeroRuns.next
    rw [if_neg hzero]
    refine ⟨?_, fun _ => rfl, ?_, ?_, hbest⟩
    · intro s hs
      cases hs
    · intro i hi hi'
      simp only [Nat.add_zero] at hi
      omega
    · simp only [List.length_append, List.length_singleton]
      omega

theorem zeroRuns_inside (hextets : List (List Char)) : (zeroRuns hextets).Inside hextets := by
  induction hextets using List.reverseRecOn with
  | nil =>
      refine ⟨?_, fun _ => rfl, ?_, Nat.le_refl _, ?_⟩
      · intro s hs
        cases hs
      · intro i _ hi
        cases hi
      · intro i hi hi'
        exact absurd hi' (by simp [zeroRuns])
  | append_singleton hextets hextet ih =>
      rw [zeroRuns_snoc]
      exact ih.next hextet

-- ============================================================================
-- IPv6
-- ============================================================================

theorem parseHextet_toDigits {n : Nat} (hn : n < 65536) :
    parseHextet (Nat.toDigits 16 n) = some n := by
  have hlength : (Nat.toDigits 16 n).length ≤ 4 :=
    (Nat.length_toDigits_le_iff (by decide) (by decide)).mpr hn
  rw [parseHextet, if_neg (by omega), readNumeral_toDigits (by decide) (by decide)]

theorem emptyIndices_of_nonempty {parts : List (List Char)} (h : ∀ part ∈ parts, part ≠ [])
    (index : Nat) : emptyIndices index parts = [] := by
  induction parts generalizing index with
  | nil => rfl
  | cons part parts ih =>
      rw [emptyIndices, if_neg (h part List.mem_cons_self)]
      exact ih (fun p hp => h p (List.mem_cons_of_mem _ hp)) _

theorem emptyIndices_append {highs : List (List Char)} (h : ∀ part ∈ highs, part ≠ [])
    (lows : List (List Char)) (index : Nat) :
    emptyIndices index (highs ++ lows) = emptyIndices (index + highs.length) lows := by
  induction highs generalizing index with
  | nil => rfl
  | cons part highs ih =>
      rw [List.cons_append, emptyIndices, if_neg (h part List.mem_cons_self),
        ih (fun p hp => h p (List.mem_cons_of_mem _ hp)), List.length_cons]
      congr 1
      omega

/-- The hextets of numbers as texts. -/
def hextetTexts (hextets : List Nat) : List (List Char) := hextets.map (Nat.toDigits 16)

theorem hextetTexts_ne_nil {hextets : List Nat} {part : List Char}
    (h : part ∈ hextetTexts hextets) : part ≠ [] := by
  obtain ⟨n, _, rfl⟩ := List.mem_map.mp h
  exact Nat.toDigits_ne_nil

theorem mapM_hextetTexts {hextets : List Nat} (h : ∀ n ∈ hextets, n < 65536) :
    (hextetTexts hextets).mapM parseHextet = some hextets :=
  mapM_map_eq_some fun n hn => parseHextet_toDigits (h n hn)

/-- Eight hextets without a gap. -/
theorem parseParts_hextets {hextets : List Nat} (h : ∀ n ∈ hextets, n < 65536)
    (hlength : hextets.length = 8) :
    parseParts (hextetTexts hextets) = some (.ofNat 128 (ofRadix 65536 hextets)) := by
  have hlen : (hextetTexts hextets).length = 8 := by rw [hextetTexts, List.length_map, hlength]
  have hhead : (hextetTexts hextets).head? ≠ some [] := fun hh =>
    hextetTexts_ne_nil (List.mem_of_mem_head? hh) rfl
  have hlast : (hextetTexts hextets).getLast? ≠ some [] := fun hh =>
    hextetTexts_ne_nil (List.mem_of_mem_getLast? hh) rfl
  have hinner : emptyIndices 1 (hextetTexts hextets).tail.dropLast = [] :=
    emptyIndices_of_nonempty (fun part hpart =>
      hextetTexts_ne_nil (List.mem_of_mem_tail ((List.dropLast_sublist _).subset hpart))) 1
  simp only [parseParts, hlen, hinner, hhead, hlast, combineHextets]
  rw [List.take_of_length_le (by omega), List.drop_of_length_le (by omega), mapM_hextetTexts h]
  simp

/-- A gap between hextets; at an end of the text it needs a second empty part. -/
def gapParts (highs lows : List (List Char)) : List (List Char) :=
  let behind := if lows = [] then [[]] else lows
  if highs = [] then [] :: [] :: behind else highs ++ [] :: behind

/-- The place of the gap decides how many hextets stand before and behind it. -/
theorem parseParts_skip {parts : List (List Char)} {highs lows : List Nat} {skip : Nat}
    (hlength : parts.length ≤ 9) (hinner : emptyIndices 1 parts.tail.dropLast = [skip])
    (hhigh : (if parts.head? = some [] then skip - 1 else skip) = highs.length)
    (hlow : (if parts.getLast? = some [] then parts.length - skip - 2
      else parts.length - skip - 1) = lows.length)
    (hleading : parts.head? = some [] → highs = [])
    (htrailing : parts.getLast? = some [] → lows = [])
    (hroom : highs.length + lows.length < 8)
    (hhighs : (parts.take highs.length).mapM parseHextet = some highs)
    (hlows : (parts.drop (parts.length - lows.length)).mapM parseHextet = some lows) :
    parseParts parts = some (.ofNat 128 (ofRadix 65536
      (highs ++ List.replicate (8 - (highs.length + lows.length)) 0 ++ lows))) := by
  have hfits : ¬ ((parts.head? = some [] ∧ highs.length ≠ 0) ∨
      (parts.getLast? = some [] ∧ lows.length ≠ 0) ∨ 8 ≤ highs.length + lows.length) := by
    rintro (⟨hh, hne⟩ | ⟨hl, hne⟩ | hfull)
    · exact hne (by rw [hleading hh]; rfl)
    · exact hne (by rw [htrailing hl]; rfl)
    · omega
  simp only [parseParts, hinner, hhigh, hlow, if_neg (by omega : ¬ 9 < parts.length)]
  rw [if_neg hfits, combineHextets, hhighs, hlows]
  rfl

theorem parseParts_gap {highs lows : List Nat} (hhighs : ∀ n ∈ highs, n < 65536)
    (hlows : ∀ n ∈ lows, n < 65536) (hroom : highs.length + lows.length < 8) :
    parseParts (gapParts (hextetTexts highs) (hextetTexts lows)) =
      some (.ofNat 128 (ofRadix 65536
        (highs ++ List.replicate (8 - (highs.length + lows.length)) 0 ++ lows))) := by
  have hmapHighs := mapM_hextetTexts hhighs
  have hmapLows := mapM_hextetTexts hlows
  have hlenHighs : (hextetTexts highs).length = highs.length := List.length_map _
  have hlenLows : (hextetTexts lows).length = lows.length := List.length_map _
  -- the parts around the gap are not empty, so it is the only empty part inside
  have hneHighs : ∀ part ∈ hextetTexts highs, part ≠ [] := fun _ => hextetTexts_ne_nil
  have hneLows : ∀ part ∈ hextetTexts lows, part ≠ [] := fun _ => hextetTexts_ne_nil
  generalize hextetTexts highs = before at *
  generalize hextetTexts lows = behind at *
  cases before with
  | nil =>
      obtain rfl := List.eq_nil_of_length_eq_zero hlenHighs.symm
      cases behind with
      | nil =>
          obtain rfl := List.eq_nil_of_length_eq_zero hlenLows.symm
          decide +kernel
      | cons low behind =>
          have hlast : ([] :: [] :: low :: behind).getLast? ≠ some ([] : List Char) := by
            intro hl
            rw [List.getLast?_cons_cons, List.getLast?_cons_cons] at hl
            exact hneLows [] (List.mem_of_mem_getLast? hl) rfl
          have hinner : emptyIndices 1 ([] :: [] :: low :: behind).tail.dropLast = [1] := by
            rw [List.tail_cons, List.dropLast_cons_of_ne_nil (by simp), emptyIndices, if_pos rfl,
              emptyIndices_of_nonempty fun part hpart =>
                hneLows part ((List.dropLast_sublist _).subset hpart)]
          have hparts : gapParts [] (low :: behind) = [] :: [] :: low :: behind := by
            simp [gapParts]
          rw [List.length_cons] at hlenLows
          rw [hparts]
          refine parseParts_skip ?_ hinner ?_ ?_ (fun _ => rfl)
            (fun hl => absurd hl hlast) hroom rfl ?_
          · simp only [List.length_cons, List.length_nil] at hroom ⊢
            omega
          · rfl
          · rw [if_neg hlast]
            simp only [List.length_cons]
            omega
          · have hdrop : ([] :: [] :: low :: behind).length - lows.length = 2 := by
              simp only [List.length_cons]
              omega
            rw [hdrop]
            exact hmapLows
  | cons high before =>
      have hhead : ∀ rest : List (List Char), (high :: before ++ rest).head? ≠ some [] := by
        intro rest hh
        exact hneHighs high List.mem_cons_self (Option.some.inj hh)
      have hbefore : ∀ part ∈ before, part ≠ [] := fun part hpart =>
        hneHighs part (List.mem_cons_of_mem _ hpart)
      rw [List.length_cons] at hlenHighs
      cases behind with
      | nil =>
          obtain rfl := List.eq_nil_of_length_eq_zero hlenLows.symm
          have hinner : emptyIndices 1 (high :: before ++ [[], []]).tail.dropLast =
              [highs.length] := by
            rw [List.cons_append, List.tail_cons, List.dropLast_append_of_ne_nil (by simp),
              emptyIndices_append hbefore]
            simp only [List.dropLast, emptyIndices, if_pos, List.cons.injEq, and_true]
            omega
          have hparts : gapParts (high :: before) [] = high :: before ++ [[], []] := by
            simp [gapParts]
          rw [hparts]
          refine parseParts_skip ?_ hinner ?_ ?_ (fun hh => absurd hh (hhead _))
            (fun _ => rfl) hroom ?_ ?_
          · simp only [List.length_append, List.length_cons, List.length_nil] at hroom ⊢
            omega
          · rw [if_neg (hhead _)]
          · simp only [List.length_append, List.length_cons, List.length_nil]
            rw [if_pos (by rw [List.getLast?_append_of_ne_nil _ (by simp)]; rfl)]
            omega
          · rw [← hlenHighs, ← List.length_cons (a := high), List.take_left']
            · exact hmapHighs
            · rfl
          · simp
      | cons low behind =>
          have hlast : (high :: before ++ [] :: low :: behind).getLast? ≠ some [] := by
            intro hl
            rw [List.getLast?_append_of_ne_nil _ (by simp), List.getLast?_cons_cons] at hl
            exact hneLows [] (List.mem_of_mem_getLast? hl) rfl
          have hinner : emptyIndices 1 (high :: before ++ [] :: low :: behind).tail.dropLast =
              [highs.length] := by
            rw [List.cons_append, List.tail_cons, List.dropLast_append_of_ne_nil (by simp),
              emptyIndices_append hbefore, List.dropLast_cons_of_ne_nil (by simp), emptyIndices,
              if_pos rfl, emptyIndices_of_nonempty fun part hpart =>
                hneLows part ((List.dropLast_sublist _).subset hpart)]
            simp only [List.cons.injEq, and_true]
            omega
          have hparts : gapParts (high :: before) (low :: behind) =
              high :: before ++ [] :: low :: behind := by
            simp [gapParts]
          rw [List.length_cons] at hlenLows
          rw [hparts]
          refine parseParts_skip ?_ hinner ?_ ?_ (fun hh => absurd hh (hhead _))
            (fun hl => absurd hl hlast) hroom ?_ ?_
          · simp only [List.length_append, List.length_cons]
            omega
          · rw [if_neg (hhead _)]
          · rw [if_neg hlast]
            simp only [List.length_append, List.length_cons]
            omega
          · rw [← hlenHighs, ← List.length_cons (a := high), List.take_left']
            · exact hmapHighs
            · rfl
          · have hdrop : (high :: before ++ [] :: low :: behind).length - lows.length =
                (high :: before ++ [[]]).length := by
              simp only [List.length_append, List.length_cons, List.length_nil]
              omega
            have hsplit : high :: before ++ [] :: low :: behind =
                (high :: before ++ [[]]) ++ low :: behind := by simp
            rw [hdrop, hsplit, List.drop_left]
            exact hmapLows

/-- Hextets are written in full, or with a gap in the place of zeros. -/
theorem compressHextets_cases {hextets : List Nat} (hlength : hextets.length = 8) :
    compressHextets (hextetTexts hextets) = hextetTexts hextets ∨
      ∃ highs lows, compressHextets (hextetTexts hextets) =
          gapParts (hextetTexts highs) (hextetTexts lows) ∧
        highs.length + lows.length < 8 ∧
        hextets = highs ++ List.replicate (8 - (highs.length + lows.length)) 0 ++ lows := by
  have hinside := zeroRuns_inside (hextetTexts hextets)
  have hlen : (hextetTexts hextets).length = 8 := by rw [hextetTexts, List.length_map, hlength]
  generalize hr : zeroRuns (hextetTexts hextets) = r at hinside
  have hend := hinside.bestEnd
  rw [hlen] at hend
  by_cases hbest : 1 < r.bestLength
  · right
    have hzero : ∀ i, r.bestStart ≤ i → i < r.bestStart + r.bestLength → hextets[i]? = some 0 := by
      intro i hi hi'
      have htext := hinside.best i hi hi'
      rw [hextetTexts, List.getElem?_map] at htext
      obtain ⟨n, hn, hdigits⟩ := Option.map_eq_some_iff.mp htext
      have hread : readNumeral 16 (Nat.toDigits 16 n) = some n :=
        readNumeral_toDigits (by decide) (by decide) n
      rw [hdigits] at hread
      rw [hn, ← Option.some.inj hread]
      rfl
    have hlows : hextetTexts (hextets.drop (r.bestStart + r.bestLength)) = [] ↔
        r.bestStart + r.bestLength = 8 := by
      rw [hextetTexts, List.map_eq_nil_iff, List.drop_eq_nil_iff]
      omega
    have hhighs : hextetTexts (hextets.take r.bestStart) = [] ↔ r.bestStart = 0 := by
      rw [hextetTexts, List.map_eq_nil_iff, ← List.length_eq_zero_iff, List.length_take]
      omega
    refine ⟨hextets.take r.bestStart, hextets.drop (r.bestStart + r.bestLength), ?_, ?_, ?_⟩
    · have htake : (hextetTexts hextets).take r.bestStart =
          hextetTexts (hextets.take r.bestStart) := List.map_take.symm
      have hdrop : (hextetTexts hextets).drop (r.bestStart + r.bestLength) =
          hextetTexts (hextets.drop (r.bestStart + r.bestLength)) := List.map_drop.symm
      simp only [compressHextets, hr, hlen, if_pos hbest, gapParts, hlows, hhighs, htake, hdrop]
      split
      · next hstart => rw [hhighs.mpr hstart, List.nil_append]
      · rfl
    · simp only [List.length_take, List.length_drop]
      omega
    · have hgap : 8 - ((hextets.take r.bestStart).length +
          (hextets.drop (r.bestStart + r.bestLength)).length) = r.bestLength := by
        simp only [List.length_take, List.length_drop]
        omega
      have hmiddle : (hextets.drop r.bestStart).take r.bestLength =
          List.replicate r.bestLength 0 := by
        apply List.ext_getElem?
        intro i
        by_cases hi : i < r.bestLength
        · rw [List.getElem?_take_of_lt hi, List.getElem?_drop,
            hzero _ (by omega) (by omega), List.getElem?_replicate_of_lt hi]
        · rw [List.getElem?_eq_none (by simp; omega), List.getElem?_eq_none (by simp; omega)]
      rw [hgap, ← hmiddle, ← List.drop_drop, List.append_assoc, List.take_append_drop,
        List.take_append_drop]
  · left
    simp [compressHextets, hr, hbest]

theorem parseParts_compressHextets {hextets : List Nat} (h : ∀ n ∈ hextets, n < 65536)
    (hlength : hextets.length = 8) :
    parseParts (compressHextets (hextetTexts hextets)) =
      some (.ofNat 128 (ofRadix 65536 hextets)) := by
  obtain hfull | ⟨highs, lows, hgap, hroom, hsplit⟩ := compressHextets_cases hlength
  · rw [hfull]
    exact parseParts_hextets h hlength
  · rw [hgap, parseParts_gap _ _ hroom, ← hsplit]
    · intro n hn
      exact h n (by rw [hsplit]; simp [hn])
    · intro n hn
      exact h n (by rw [hsplit]; simp [hn])

/-- The parts of a text are hexadecimal numerals. -/
theorem mem_compressHextets {hextets : List Nat} (hlength : hextets.length = 8)
    {part : List Char} (hpart : part ∈ compressHextets (hextetTexts hextets)) :
    ∀ c ∈ part, (digitValue c).isSome := by
  have htexts : ∀ {l : List Nat}, part ∈ hextetTexts l → ∀ c ∈ part, (digitValue c).isSome := by
    intro l hl c hc
    obtain ⟨n, _, rfl⟩ := List.mem_map.mp hl
    exact digitValue_of_mem_toDigits (by decide) (by decide) hc
  obtain hfull | ⟨highs, lows, hgap, -, -⟩ := compressHextets_cases hlength
  · rw [hfull] at hpart
    exact htexts hpart
  · have hcases : part ∈ hextetTexts highs ∨ part ∈ hextetTexts lows ∨ part = [] := by
      rw [hgap] at hpart
      unfold gapParts at hpart
      split at hpart <;> split at hpart <;> simp at hpart <;> tauto
    obtain hp | hp | rfl := hcases
    · exact htexts hp
    · exact htexts hp
    · intro c hc
      cases hc

theorem compressHextets_length {hextets : List Nat} (hlength : hextets.length = 8) :
    3 ≤ (compressHextets (hextetTexts hextets)).length := by
  have hpos : ∀ {l : List Nat}, hextetTexts l ≠ [] → 0 < (hextetTexts l).length :=
    List.length_pos_iff.mpr
  obtain hfull | ⟨highs, lows, hgap, -, -⟩ := compressHextets_cases hlength
  · rw [hfull, hextetTexts, List.length_map, hlength]
    decide
  · rw [hgap]
    unfold gapParts
    dsimp only
    have hbehind : 1 ≤ (if hextetTexts lows = [] then [[]] else hextetTexts lows).length := by
      split
      · exact Nat.le_refl 1
      · next hlows => exact hpos hlows
    split
    · simp only [List.length_cons]
      omega
    · next hhighs =>
        have hbefore := hpos hhighs
        simp only [List.length_append, List.length_cons]
        omega

theorem ipv6Address_text (ip : BitVec 128) : ipv6Address (ipv6Text ip) = some (ip, none) := by
  have hlength := toRadix_length 65536 8 ip.toNat
  have hparts := @mem_compressHextets _ hlength
  have habsent : ∀ {c : Char}, digitValue c = none → ∀ part ∈
      compressHextets (hextetTexts (toRadix 65536 8 ip.toNat)), c ∉ part := by
    intro c hc part hpart hmem
    have hdigit := hparts hpart c hmem
    rw [hc] at hdigit
    cases hdigit
  have habsent' : ∀ {c : Char}, digitValue c = none → c ≠ ':' → c ∉ ipv6Text ip := by
    intro c hc hcolon hmem
    obtain h | ⟨part, hpart, h⟩ := mem_intercalate hmem
    · exact hcolon h
    · exact habsent hc part hpart h
  have hpercent : (ipv6Text ip).splitOn '%' = [ipv6Text ip] :=
    splitOn_of_not_mem (habsent' (by decide) (by decide))
  have hthree := compressHextets_length hlength
  have hcolons : (ipv6Text ip).splitOn ':' =
      compressHextets (hextetTexts (toRadix 65536 8 ip.toNat)) := by
    refine List.splitOn_intercalate ':' (habsent (by decide)) fun hnil => ?_
    rw [show compressHextets (hextetTexts (toRadix 65536 8 ip.toNat)) = [] from hnil] at hthree
    simp at hthree
  have hsuffix : expandSuffix (compressHextets (hextetTexts (toRadix 65536 8 ip.toNat))) =
      some (compressHextets (hextetTexts (toRadix 65536 8 ip.toNat))) := by
    unfold expandSuffix
    split
    · rfl
    · next last hlast =>
        rw [if_neg (habsent (by decide) last (List.mem_of_mem_getLast? hlast))]
  have hvalue : BitVec.ofNat 128 (ofRadix 65536 (toRadix 65536 8 ip.toNat)) = ip := by
    have hlt : ip.toNat < 65536 ^ 8 := ip.isLt
    rw [ofRadix_toRadix, Nat.mod_eq_of_lt hlt, BitVec.ofNat_toNat, BitVec.setWidth_eq]
  rw [ipv6Address, if_neg (habsent' (by decide) (by decide)), splitScopeId, hpercent]
  simp only [Option.bind_some, parseIpv6, hcolons, if_neg (Nat.not_lt.mpr hthree), hsuffix,
    parseParts_compressHextets (fun n hn => toRadix_lt (by decide) hn) hlength,
    Option.map_some, hvalue]

/-- The text of an IPv6 address is not that of an IPv4 address. -/
theorem ipv4Address_ipv6Text (ip : BitVec 128) : ipv4Address (ipv6Text ip) = none := by
  have hlength := toRadix_length 65536 8 ip.toNat
  have hdot : '.' ∉ ipv6Text ip := by
    intro hmem
    obtain h | ⟨part, hpart, h⟩ := mem_intercalate hmem
    · exact absurd h (by decide)
    · have hdigit := mem_compressHextets hlength hpart '.' h
      cases hdigit
  rw [ipv4Address]
  split
  · rfl
  · simp [splitOn_of_not_mem hdot]

-- ============================================================================
-- Addresses
-- ============================================================================

/-- An address without a scope id. -/
def Unscoped : IpAddress → Prop
  | .v4 _ => True
  | .v6 _ scopeId => scopeId = none

theorem ipAddress_text {a : IpAddress} (ha : a.Unscoped) : ipAddress a.text = some a := by
  cases a with
  | v4 ip => simp [ipAddress, text, ipv4Address_text]
  | v6 ip scopeId =>
      obtain rfl : scopeId = none := ha
      simp [ipAddress, text, ipv4Address_ipv6Text, ipv6Address_text]

/-- Only a text with a percent sign has a scope id. -/
theorem unscoped_of_ipAddress {text : List Char} (htext : '%' ∉ text) {a : IpAddress}
    (h : ipAddress text = some a) : a.Unscoped := by
  have hsplit : text.splitOn '%' = [text] := splitOn_of_not_mem htext
  rw [ipAddress, Option.or_eq_some_iff] at h
  obtain h | ⟨-, h⟩ := h
  · obtain ⟨ip, -, rfl⟩ := Option.map_eq_some_iff.mp h
    exact trivial
  · obtain ⟨⟨ip, scopeId⟩, hip, rfl⟩ := Option.map_eq_some_iff.mp h
    simp only [ipv6Address, Option.ite_none_left_eq_some, splitScopeId, hsplit,
      Option.bind_some, Option.map_eq_some_iff, Prod.mk.injEq] at hip
    obtain ⟨-, _, -, -, hnone⟩ := hip
    exact hnone.symm

end QuickApi.Lib.IpAddress
