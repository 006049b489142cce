/-
  QuickApi.Config.Settled

  The validators of lists give out what they accept again (`Settled`): the
  filters as they stand, the lowering ones because their characters are lowered
  already, and the networks because each is read back from its text.
-/

import QuickApi.Config.Canonical

namespace QuickApi.Config

open QuickApi.Lib
open QuickApi.HttpPolicy (IpNetwork Network netmask proxyNetwork proxyNetwork_prefixlen)

/-- A list that its own text is read as. -/
structure Written (values : List (List Char)) : Prop where
  items : ∀ v ∈ values, IsItem ',' isSpace v
  nodup : values.Nodup

theorem Written.read {values : List (List Char)} (h : Written values) :
    parseList (splitList (listText values)) = some values := by
  rw [splitList_listText h.items]
  exact parseList_of_items h.items h.nodup

/-- What a check makes of a written list is a written list that it leaves alone. -/
structure Settled (check : List (List Char) → Option (List (List Char))) : Prop where
  written : ∀ {entries values}, Written entries → check entries = some values → Written values
  length_le : ∀ {entries values}, check entries = some values → values.length ≤ entries.length
  nonempty : ∀ {entries values}, check entries = some values → entries ≠ [] → values ≠ []
  again : ∀ {entries values}, check entries = some values → check values = some values

-- ============================================================================
-- Filters
-- ============================================================================

/-- A check of each entry alone. -/
theorem settled_all (p : List Char → Bool) :
    Settled fun values => if values.all p then some values else none := by
  constructor
  · intro entries values hentries h
    obtain ⟨-, ⟨⟩⟩ := Option.ite_none_right_eq_some.mp h
    exact hentries
  · intro entries values h
    obtain ⟨-, ⟨⟩⟩ := Option.ite_none_right_eq_some.mp h
    exact Nat.le_refl _
  · intro entries values h hne
    obtain ⟨-, ⟨⟩⟩ := Option.ite_none_right_eq_some.mp h
    exact hne
  · intro entries values h
    obtain ⟨hall, ⟨⟩⟩ := Option.ite_none_right_eq_some.mp h
    exact if_pos hall

variable (parsers : Parsers)

theorem settled_origins : Settled (validateOrigins parsers) := settled_all (isExactOrigin parsers)

theorem settled_methods : Settled validateMethods := settled_all httpMethods.contains

-- ============================================================================
-- Lowered lists
-- ============================================================================

/-- A text of characters that are entries' own and lowered. -/
def Settling (p : List Char → Bool) : Prop :=
  ∀ v, p v = true → v ≠ [] ∧ ∀ c ∈ v, (isPlain c && isLowered c) = true

theorem lowerDistinct_of_settling {p : List Char → Bool} (hp : Settling p)
    {values : List (List Char)} (hnodup : values.Nodup) (h : values.all p = true) :
    lowerDistinct parsers values = values := by
  have hlower : ∀ v ∈ values, lower parsers.finalSigma v = v := by
    intro v hv
    apply lower_of_lowered
    intro c hc
    exact (Bool.and_eq_true_iff.mp ((hp v (List.all_eq_true.mp h v hv)).2 c hc)).2
  have hmap : values.map (lower parsers.finalSigma) = values := by
    conv_rhs => rw [← List.map_id values]
    exact List.map_congr_left hlower
  rw [lowerDistinct, hmap, eraseDups_of_nodup hnodup]

/-- A check of the lowered entries. -/
theorem settled_lowered {p : List Char → Bool} (hp : Settling p) :
    Settled fun values =>
      if (lowerDistinct parsers values).all p then some (lowerDistinct parsers values)
      else none := by
  constructor
  · intro entries values hentries h
    obtain ⟨hall, ⟨⟩⟩ := Option.ite_none_right_eq_some.mp h
    refine ⟨?_, nodup_eraseDups _⟩
    intro v hv
    obtain ⟨hne, hchars⟩ := hp v (List.all_eq_true.mp hall v hv)
    exact isItem_of_plain hne fun c hc => (Bool.and_eq_true_iff.mp (hchars c hc)).1
  · intro entries values h
    obtain ⟨-, ⟨⟩⟩ := Option.ite_none_right_eq_some.mp h
    have hle := length_eraseDups_le (entries.map (lower parsers.finalSigma))
    rwa [List.length_map] at hle
  · intro entries values h hne
    obtain ⟨-, ⟨⟩⟩ := Option.ite_none_right_eq_some.mp h
    obtain ⟨entry, hentry⟩ := List.exists_mem_of_ne_nil entries hne
    apply List.ne_nil_of_mem
    rw [lowerDistinct, List.mem_eraseDups]
    exact List.mem_map_of_mem hentry
  · intro entries values h
    obtain ⟨hall, ⟨⟩⟩ := Option.ite_none_right_eq_some.mp h
    have hagain : lowerDistinct parsers (lowerDistinct parsers entries) =
        lowerDistinct parsers entries :=
      lowerDistinct_of_settling parsers hp (nodup_eraseDups _) hall
    rw [hagain, if_pos hall]

theorem settling_policyHeader : Settling isPolicyHeader := by
  intro v hv
  simp only [isPolicyHeader, Bool.and_eq_true, Bool.not_eq_true', List.all_eq_true] at hv
  obtain ⟨⟨⟨hne, hchars⟩, -⟩, -⟩ := hv
  refine ⟨?_, fun c hc => headerChar_plain (hchars c hc)⟩
  rintro rfl
  cases hne

theorem settling_mediaType : Settling isMediaType := by
  intro v hv
  unfold isMediaType at hv
  split at hv
  · next type subtype hsplit =>
      simp only [Bool.and_eq_true, Bool.not_eq_true', List.all_eq_true] at hv
      obtain ⟨⟨⟨-, htype⟩, -⟩, hsubtype⟩ := hv
      have htext : type ++ ['/'] ++ subtype = v := by
        have hjoin : ['/'].intercalate (v.splitOn '/') = v := List.intercalate_splitOn '/'
        rwa [hsplit, List.intercalate_cons_cons, List.intercalate_singleton] at hjoin
      subst htext
      refine ⟨by simp, ?_⟩
      intro c hc
      rw [List.mem_append, List.mem_append, List.mem_singleton] at hc
      obtain (hc | rfl) | hc := hc
      · exact mediaChar_plain (htype c hc)
      · decide
      · exact mediaChar_plain (hsubtype c hc)
  · cases hv

theorem settled_headers : Settled (validateHeaders parsers) :=
  settled_lowered parsers settling_policyHeader

theorem settled_contentTypes : Settled (validateContentTypes parsers) :=
  settled_lowered parsers settling_mediaType

-- ============================================================================
-- Networks
-- ============================================================================

/-- The texts of addresses: digits between dots or colons. -/
def isAddressChar (c : Char) : Bool := (digitValue c).isSome || c == '.' || c == ':'

theorem addressChar_ipv4 {ip : BitVec 32} {c : Char} (h : c ∈ IpAddress.ipv4Text ip) :
    isAddressChar c = true := by
  obtain rfl | ⟨part, hpart, hc⟩ := IpAddress.mem_intercalate h
  · decide
  · obtain ⟨n, -, rfl⟩ := List.mem_map.mp hpart
    rw [isAddressChar, digitValue_of_mem_toDigits (by decide) (by decide) hc]
    rfl

theorem addressChar_ipv6 {ip : BitVec 128} {c : Char} (h : c ∈ IpAddress.ipv6Text ip) :
    isAddressChar c = true := by
  obtain rfl | ⟨part, hpart, hc⟩ := IpAddress.mem_intercalate h
  · decide
  · have hdigit := IpAddress.mem_compressHextets (toRadix_length 65536 8 ip.toNat) hpart c hc
    rw [isAddressChar, hdigit]
    rfl

theorem addressChar_ascii (c : Char) (h : isAddressChar c = true) : c.toNat < 128 := by
  rw [isAddressChar, Bool.or_eq_true, Bool.or_eq_true, beq_iff_eq, beq_iff_eq] at h
  obtain (h | rfl) | rfl := h
  · unfold digitValue at h
    split at h
    · next hc => exact ascii_of_le (by decide) hc.2
    · split at h
      · next hc => exact ascii_of_le (by decide) hc.2
      · split at h
        · next hc => exact ascii_of_le (by decide) hc.2
        · cases h
  · decide
  · decide

theorem addressChar_plain {c : Char} (h : isAddressChar c = true) :
    (isPlain c && c ≠ '/' && c ≠ '%') = true :=
  ascii_class (q := fun c => isPlain c && c ≠ '/' && c ≠ '%') (by decide +kernel)
    addressChar_ascii h

/-- A numeral is a text of digits. -/
theorem isAsciiDecimal_toDigits (n : Nat) : isAsciiDecimal (Nat.toDigits 10 n) = true := by
  have hchars : ∀ c ∈ Nat.toDigits 10 n, ('0' ≤ c && c ≤ '9') = true :=
    fun c hc => Nat.isDigit_of_mem_toDigits (by decide) (by decide) hc
  rw [isAsciiDecimal, List.all_eq_true.mpr hchars, Bool.and_true, Bool.not_eq_true']
  cases hdigits : Nat.toDigits 10 n with
  | nil => exact absurd hdigits Nat.toDigits_ne_nil
  | cons c rest => rfl

theorem digit_ascii {n : Nat} {c : Char} (h : c ∈ Nat.toDigits 10 n) : isAddressChar c = true := by
  rw [isAddressChar, digitValue_of_mem_toDigits (by decide) (by decide) h]
  rfl

/-- An address with a prefix length. -/
theorem proxyNetwork_slash {address : List Char} {n : Nat} {network : IpNetwork}
    (haddress : ∀ c ∈ address, isAddressChar c = true)
    (h : IpNetwork.ipNetwork address (some (Nat.toDigits 10 n)) = some network)
    (hpos : 0 < network.prefixlen) :
    proxyNetwork (address ++ '/' :: Nat.toDigits 10 n) = some network := by
  have hchars : ∀ {text : List Char}, (∀ c ∈ text, isAddressChar c = true) →
      '/' ∉ text ∧ '%' ∉ text := by
    intro text htext
    constructor
    · intro hmem
      exact absurd (addressChar_plain (htext _ hmem)) (by decide)
    · intro hmem
      exact absurd (addressChar_plain (htext _ hmem)) (by decide)
  obtain ⟨hslash, hpercent⟩ := hchars haddress
  obtain ⟨hslash', hpercent'⟩ := hchars fun c (hc : c ∈ Nat.toDigits 10 n) => digit_ascii hc
  have hno : '%' ∉ address ++ '/' :: Nat.toDigits 10 n := by
    rw [List.mem_append, List.mem_cons, not_or, not_or]
    exact ⟨hpercent, by decide, hpercent'⟩
  have hsplit : (address ++ '/' :: Nat.toDigits 10 n).splitOn '/' =
      [address, Nat.toDigits 10 n] := by
    rw [List.splitOn_append_cons_self_of_not_mem hslash, List.splitOn_eq_singleton hslash']
  have hdecimal : ((Nat.toDigits 10 n).all (fun c => '0' ≤ c && c ≤ '9') &&
      !(Nat.toDigits 10 n).isEmpty) = true := by
    rw [Bool.and_comm]
    exact isAsciiDecimal_toDigits n
  rw [proxyNetwork, if_neg hno, hsplit]
  dsimp only
  rw [if_pos hdecimal, h, Option.bind_some, if_neg (by omega)]

theorem parsePrefixlen_toDigits {width n : Nat} (h : n ≤ width) :
    IpNetwork.parsePrefixlen width (some (Nat.toDigits 10 n)) = some ⟨n, h⟩ := by
  simp only [IpNetwork.parsePrefixlen, readNumeral_toDigits (by decide : 1 < 10) (by decide),
    Option.bind_some, dif_pos h]

/-- The network around an address of its own. -/
theorem around_address {width : Nat} (network : Network width) :
    Network.around network.address network.prefixlen network.prefixlen_le = network := by
  obtain ⟨address, prefixlen, hle, hbits⟩ := network
  simp only [Network.around, hbits]

/-- A network is read back from its text. -/
theorem proxyNetwork_text {network : IpNetwork} (h : 0 < network.prefixlen) :
    proxyNetwork (networkText network) = some network := by
  cases network with
  | v4 network =>
      apply proxyNetwork_slash (fun c hc => addressChar_ipv4 hc) _ h
      simp only [IpNetwork.ipNetwork, IpAddress.ipv4Address_text,
        parsePrefixlen_toDigits network.prefixlen_le]
      exact congrArg (fun network => some (IpNetwork.v4 network)) (around_address network)
  | v6 network =>
      apply proxyNetwork_slash (fun c hc => addressChar_ipv6 hc) _ h
      simp only [IpNetwork.ipNetwork, IpAddress.ipv4Address_ipv6Text, IpAddress.ipv6Address_text,
        parsePrefixlen_toDigits network.prefixlen_le]
      exact congrArg (fun network => some (IpNetwork.v6 network)) (around_address network)

theorem isItem_networkText (network : IpNetwork) : IsItem ',' isSpace (networkText network) := by
  have hchars : ∀ {address : List Char} {n : Nat}, (∀ c ∈ address, isAddressChar c = true) →
      ∀ c ∈ address ++ '/' :: Nat.toDigits 10 n, isPlain c = true := by
    have hplain : ∀ {c : Char}, isAddressChar c = true → isPlain c = true := by
      intro c hc
      have h := addressChar_plain hc
      rw [Bool.and_eq_true, Bool.and_eq_true] at h
      exact h.1.1
    intro address n haddress c hc
    rw [List.mem_append, List.mem_cons] at hc
    obtain hc | rfl | hc := hc
    · exact hplain (haddress c hc)
    · decide
    · exact hplain (digit_ascii hc)
  cases network with
  | v4 network =>
      exact isItem_of_plain (by simp [networkText]) (hchars fun c hc => addressChar_ipv4 hc)
  | v6 network =>
      exact isItem_of_plain (by simp [networkText]) (hchars fun c hc => addressChar_ipv6 hc)

/-- The texts of networks are read back as the networks. -/
theorem mapM_networkText {texts : List (List Char)}
    (h : ∀ text ∈ texts, ∃ network, 0 < network.prefixlen ∧ networkText network = text) :
    ∃ networks, texts.mapM proxyNetwork = some networks ∧ networks.map networkText = texts := by
  induction texts with
  | nil => exact ⟨[], rfl, rfl⟩
  | cons text texts ih =>
      obtain ⟨⟨network, hpos, rfl⟩, hrest⟩ := List.forall_mem_cons.mp h
      obtain ⟨networks, hread, htexts⟩ := ih hrest
      refine ⟨network :: networks, ?_, ?_⟩
      · rw [List.mapM_cons, proxyNetwork_text hpos, hread]
        rfl
      · rw [List.map_cons, htexts]

theorem settled_proxies : Settled validateProxies := by
  have hcases : ∀ {entries values}, validateProxies entries = some values →
      ∃ networks, List.Forall₂ (fun entry network => proxyNetwork entry = some network)
        entries networks ∧ (networks.map networkText).eraseDups = values := by
    intro entries values h
    rw [validateProxies, Option.map_eq_some_iff] at h
    obtain ⟨networks, hread, htexts⟩ := h
    exact ⟨networks, mapM_eq_some_iff.mp hread, htexts⟩
  constructor
  · intro entries values _ h
    obtain ⟨networks, -, rfl⟩ := hcases h
    refine ⟨?_, nodup_eraseDups _⟩
    intro v hv
    obtain ⟨network, -, rfl⟩ := List.mem_map.mp (List.mem_eraseDups.mp hv)
    exact isItem_networkText network
  · intro entries values h
    obtain ⟨networks, hread, rfl⟩ := hcases h
    have hle := length_eraseDups_le (networks.map networkText)
    rwa [List.length_map, ← hread.length_eq] at hle
  · intro entries values h hne
    obtain ⟨networks, hread, rfl⟩ := hcases h
    obtain ⟨entry, hentry⟩ := List.exists_mem_of_ne_nil entries hne
    obtain ⟨network, hnetwork, -⟩ := exists_of_forall₂_left hread hentry
    apply List.ne_nil_of_mem
    rw [List.mem_eraseDups]
    exact List.mem_map_of_mem hnetwork
  · intro entries values h
    obtain ⟨networks, hread, rfl⟩ := hcases h
    have hnetworks : ∀ text ∈ (networks.map networkText).eraseDups,
        ∃ network, 0 < network.prefixlen ∧ networkText network = text := by
      intro text htext
      obtain ⟨network, hnetwork, rfl⟩ := List.mem_map.mp (List.mem_eraseDups.mp htext)
      obtain ⟨entry, -, hentry⟩ := exists_of_forall₂_right hread hnetwork
      exact ⟨network, proxyNetwork_prefixlen hentry, rfl⟩
    obtain ⟨networks', hread', htexts⟩ := mapM_networkText hnetworks
    rw [validateProxies, hread', Option.map_some, htexts, eraseDups_of_nodup (nodup_eraseDups _)]

end QuickApi.Config
