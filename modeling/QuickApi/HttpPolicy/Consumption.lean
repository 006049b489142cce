/-
  QuickApi.HttpPolicy.Consumption

  Forwarding headers are consumed entirely or rejected.  The early returns of
  `apply_forwarding` are exactly the requests whose forwarding headers are not
  well formed; otherwise both headers go, and what is left of the forbidden
  headers is rejected behind.
-/

import QuickApi.HttpPolicy.Resolution
import QuickApi.HttpPolicy.Sanitization

namespace QuickApi.HttpPolicy

open QuickApi.Lib

-- ============================================================================
-- Well-formed forwarding
-- ============================================================================

/-- A value without control characters. -/
def Clean (value : Bytes) : Prop :=
  ∃ decoded, decodeAscii value = some decoded ∧ decoded.any isControl = false

/-- A value that names a scheme. -/
def NamesScheme (value : Bytes) : Prop :=
  ∃ decoded, decodeAscii value = some decoded ∧ strip decoded ∈ ["http".toList, "https".toList]

namespace TrustedProxy

/-- The budgets hold, and each forwarding header occurs once at most, with a valid value. -/
structure WellFormed (mw : TrustedProxy) (headers : List (Bytes × Bytes)) : Prop where
  count : headers.length ≤ mw.maxHeaderCount
  total : (headers.map fun header => header.1.length + header.2.length).sum ≤
    mw.maxTotalHeaderBytes
  single : ∀ header ∈ headers, header.1.length + header.2.length ≤ mw.maxHeaderBytes
  once : ∀ name ∈ forwardingHeaders,
    (headers.filter fun header => lowerBytes header.1 = name).length ≤ 1
  clean : ∀ header ∈ headers, lowerBytes header.1 ∈ forwardingHeaders → Clean header.2
  addresses : ∀ header ∈ headers, lowerBytes header.1 = forwardedFor →
    (listedAddresses header.2).isSome
  scheme : ∀ header ∈ headers, lowerBytes header.1 = forwardedProto → NamesScheme header.2

variable {mw : TrustedProxy}

theorem overBudget_eq_false_iff {headers : List (Bytes × Bytes)} :
    mw.overBudget headers = false ↔ headers.length ≤ mw.maxHeaderCount ∧
      (headers.map fun header => header.1.length + header.2.length).sum ≤
        mw.maxTotalHeaderBytes ∧
      ∀ header ∈ headers, header.1.length + header.2.length ≤ mw.maxHeaderBytes := by
  simp [overBudget, and_assoc]

theorem count_forwardingOf {headers : List (Bytes × Bytes)} {name : Bytes}
    (h : name ∈ forwardingHeaders) :
    ((forwardingOf headers).map fun header => lowerBytes header.1).count name =
      (headers.filter fun header => lowerBytes header.1 = name).length := by
  rw [List.count, List.countP_map, List.countP_eq_length_filter, forwardingOf, List.filter_filter]
  congr 1
  apply List.filter_congr
  intro header _
  by_cases heq : lowerBytes header.1 = name
  · simp [heq, h]
  · simp [heq]

/-- No name is selected twice if and only if no forwarding header is repeated. -/
theorem nodup_forwardingOf_iff {headers : List (Bytes × Bytes)} :
    ((forwardingOf headers).map fun header => lowerBytes header.1).Nodup ↔
      ∀ name ∈ forwardingHeaders,
        (headers.filter fun header => lowerBytes header.1 = name).length ≤ 1 := by
  rw [List.nodup_iff_count_le_one]
  constructor
  · intro h name hname
    rw [← count_forwardingOf hname]
    exact h name
  · intro h name
    by_cases hname : name ∈ forwardingHeaders
    · rw [count_forwardingOf hname]
      exact h name hname
    · rw [List.count_eq_zero.mpr]
      · exact Nat.zero_le 1
      · intro hmem
        obtain ⟨header, hheader, rfl⟩ := List.mem_map.mp hmem
        exact hname (by simpa using (List.mem_filter.mp hheader).2)

theorem keys_of_selects {headers : List (Bytes × Bytes)} {new : List (Bytes × List Char)}
    (h : List.Forall₂ Selects headers new) :
    new.map Prod.fst = headers.map fun header => lowerBytes header.1 := by
  induction h with
  | nil => rfl
  | cons hselects _ ih => rw [List.map_cons, List.map_cons, ih, hselects.key]

/-- The headers are selected if and only if none is repeated and all are clean. -/
theorem select_isSome_iff {headers : List (Bytes × Bytes)} :
    (headers.foldlM selectHeader .empty).isSome = true ↔
      (∀ name ∈ forwardingHeaders,
        (headers.filter fun header => lowerBytes header.1 = name).length ≤ 1) ∧
      ∀ header ∈ headers, lowerBytes header.1 ∈ forwardingHeaders → Clean header.2 := by
  rw [← nodup_forwardingOf_iff]
  constructor
  · intro h
    obtain ⟨selected, hselected⟩ := Option.isSome_iff_exists.mp h
    obtain ⟨new, hentries, hall⟩ := entries_of_select hselected
    refine ⟨?_, fun header hheader hname => ?_⟩
    · rw [← keys_of_selects hall]
      have hnodup := selected.nodupKeys
      rwa [hentries] at hnodup
    · have hmem : header ∈ forwardingOf headers :=
        List.mem_filter.mpr ⟨hheader, by simpa using hname⟩
      obtain ⟨entry, -, hselects⟩ := exists_of_forall₂_left hall hmem
      obtain ⟨decoded, hdecoded, hcontrol, -⟩ := hselects.value
      exact ⟨decoded, hdecoded, hcontrol⟩
  · rintro ⟨hnodup, hclean⟩
    let entryOf (header : Bytes × Bytes) : Bytes × List Char :=
      (lowerBytes header.1, strip ((decodeAscii header.2).getD []))
    have hall : List.Forall₂ Selects (forwardingOf headers)
        ((forwardingOf headers).map entryOf) := by
      rw [List.forall₂_map_right_iff, List.forall₂_same]
      intro header hheader
      obtain ⟨hmem, hname⟩ := List.mem_filter.mp hheader
      obtain ⟨decoded, hdecoded, hcontrol⟩ := hclean header hmem (by simpa using hname)
      exact ⟨rfl, decoded, hdecoded, hcontrol, by simp [entryOf, hdecoded]⟩
    have hkeys : ((OrderedDict.empty.entries ++ (forwardingOf headers).map entryOf).map
        Prod.fst).Nodup := by
      rw [OrderedDict.empty, List.nil_append, keys_of_selects hall]
      exact hnodup
    obtain ⟨selected, hselected, -⟩ := select_of_entries hall hkeys
    rw [hselected]
    rfl

theorem resolveClient_isSome_iff {value : Bytes} {decoded : List Char}
    (hdecoded : decodeAscii value = some decoded) (hcontrol : decoded.any isControl = false) :
    (mw.resolveClient (strip decoded)).isSome = true ↔
      (listedAddresses value).isSome = true := by
  rw [resolveClient, listedAddresses, hdecoded, Option.bind_some,
    if_neg (by simp [hcontrol] : ¬ decoded.any isControl = true), mapM_isSome_iff]
  by_cases hscoped : ((strip decoded).splitOn ',').any ('%' ∈ ·) = true
  · rw [if_pos hscoped]
    obtain ⟨host, hhost, hmem⟩ := List.any_eq_true.mp hscoped
    constructor
    · intro h
      cases h
    · intro h
      have hh := h host hhost
      rw [if_pos (by simpa using hmem)] at hh
      cases hh
  · rw [if_neg hscoped, Option.isSome_map, mapM_isSome_iff]
    refine forall₂_congr fun host hhost => ?_
    have hnot : '%' ∉ host := fun hmem =>
      hscoped (List.any_eq_true.mpr ⟨host, hhost, by simpa using hmem⟩)
    rw [if_neg hnot, Option.isSome_map]

theorem forwarding_eq_some_iff {headers : List (Bytes × Bytes)} {forwarding : Forwarding} :
    mw.forwarding headers = some forwarding ↔ mw.overBudget headers = false ∧
      ∃ selected, headers.foldlM selectHeader .empty = some selected ∧
        mw.selectedClient selected = some forwarding.client ∧
        selected.get? forwardedProto = forwarding.scheme ∧
        (∀ scheme ∈ forwarding.scheme, scheme ∈ ["http".toList, "https".toList]) ∧
        forwarding.consumed = selected.keys := by
  have hscheme : ∀ scheme : Option (List Char),
      ¬ (scheme.any (· ∉ ["http".toList, "https".toList]) = true) ↔
        ∀ s ∈ scheme, s ∈ ["http".toList, "https".toList] := by
    intro scheme
    cases scheme with
    | none => simp
    | some scheme => simp [or_iff_not_imp_left]
  simp only [TrustedProxy.forwarding, Option.ite_none_left_eq_some, Option.bind_eq_some_iff,
    Option.some.injEq, Bool.not_eq_true, hscheme]
  refine and_congr_right fun _ => exists_congr fun selected => and_congr_right fun _ => ?_
  constructor
  · rintro ⟨client, hclient, hall, rfl⟩
    exact ⟨hclient, rfl, hall, rfl⟩
  · rintro ⟨hclient, hget, hall, hconsumed⟩
    refine ⟨forwarding.client, hclient, by rwa [hget], ?_⟩
    rw [hget, ← hconsumed]

/-- The forwarding headers are applied if and only if they are well formed. -/
theorem forwarding_isSome_iff {headers : List (Bytes × Bytes)} :
    (mw.forwarding headers).isSome = true ↔ mw.WellFormed headers := by
  constructor
  · intro h
    obtain ⟨forwarding, hforwarding⟩ := Option.isSome_iff_exists.mp h
    obtain ⟨hbudget, selected, hselected, hclient, hget, hscheme, -⟩ :=
      forwarding_eq_some_iff.mp hforwarding
    obtain ⟨hcount, htotal, hsingle⟩ := overBudget_eq_false_iff.mp hbudget
    obtain ⟨honce, hclean⟩ := select_isSome_iff.mp (Option.isSome_iff_exists.mpr ⟨_, hselected⟩)
    have hvalue : ∀ header ∈ headers, ∀ name ∈ forwardingHeaders, lowerBytes header.1 = name →
        ∃ decoded, decodeAscii header.2 = some decoded ∧ decoded.any isControl = false ∧
          selected.get? name = some (strip decoded) := by
      rintro header hheader _ hname rfl
      obtain ⟨decoded, hdecoded, hcontrol⟩ := hclean header hheader hname
      exact ⟨decoded, hdecoded, hcontrol, (get?_of_select hselected hname).mpr
        ⟨header, hheader, rfl, decoded, hdecoded, hcontrol, rfl⟩⟩
    refine ⟨hcount, htotal, hsingle, honce, hclean, fun header hheader hname => ?_,
      fun header hheader hname => ?_⟩
    · obtain ⟨decoded, hdecoded, hcontrol, hvalue⟩ :=
        hvalue header hheader forwardedFor (by decide) hname
      rw [selectedClient, hvalue] at hclient
      exact (resolveClient_isSome_iff hdecoded hcontrol).mp
        (Option.isSome_iff_exists.mpr ⟨_, hclient⟩)
    · obtain ⟨decoded, hdecoded, -, hvalue⟩ :=
        hvalue header hheader forwardedProto (by decide) hname
      exact ⟨decoded, hdecoded, hscheme _ (hget ▸ hvalue)⟩
  · intro h
    obtain ⟨selected, hselected⟩ :=
      Option.isSome_iff_exists.mp (select_isSome_iff.mpr ⟨h.once, h.clean⟩)
    have hclient : (mw.selectedClient selected).isSome = true := by
      unfold selectedClient
      split
      · next value hvalue =>
          obtain ⟨header, hheader, hselects⟩ := (get?_of_select hselected (by decide)).mp hvalue
          obtain ⟨decoded, hdecoded, hcontrol, hstrip⟩ := hselects.value
          obtain rfl : value = strip decoded := hstrip
          exact (resolveClient_isSome_iff hdecoded hcontrol).mpr
            (h.addresses header hheader hselects.key.symm)
      · rfl
    obtain ⟨client, hclient⟩ := Option.isSome_iff_exists.mp hclient
    refine Option.isSome_iff_exists.mpr ⟨⟨client, selected.get? forwardedProto, selected.keys⟩,
      forwarding_eq_some_iff.mpr ⟨overBudget_eq_false_iff.mpr ⟨h.count, h.total, h.single⟩,
        selected, hselected, hclient, rfl, fun scheme hscheme => ?_, rfl⟩⟩
    obtain ⟨header, hheader, hselects⟩ := (get?_of_select hselected (by decide)).mp hscheme
    obtain ⟨decoded, hdecoded, -, hstrip⟩ := hselects.value
    obtain ⟨decoded', hdecoded', hmem⟩ := h.scheme header hheader hselects.key.symm
    obtain rfl := Option.some.inj (hdecoded.symm.trans hdecoded')
    obtain rfl : scheme = strip decoded := hstrip
    exact hmem

/-- The selected keys are the names of the forwarding headers. -/
theorem mem_keys_of_select {headers : List (Bytes × Bytes)} {selected : Selected}
    (h : headers.foldlM selectHeader .empty = some selected) {header : Bytes × Bytes}
    (hheader : header ∈ headers) :
    lowerBytes header.1 ∈ selected.keys ↔ lowerBytes header.1 ∈ forwardingHeaders := by
  obtain ⟨new, hentries, hall⟩ := entries_of_select h
  rw [OrderedDict.keys, hentries, OrderedDict.empty, List.nil_append, keys_of_selects hall,
    List.mem_map]
  constructor
  · rintro ⟨header', hheader', heq⟩
    rw [← heq]
    simpa using (List.mem_filter.mp hheader').2
  · intro hname
    exact ⟨header, List.mem_filter.mpr ⟨hheader, by simpa using hname⟩, rfl⟩

-- ============================================================================
-- Consumed or rejected
-- ============================================================================

/-- The peer of a scope is an address in a trusted network. -/
def TrustsPeer (mw : TrustedProxy) (scope : Scope) : Prop :=
  ∃ client peer, scope.client = some client ∧ IpAddress.ipAddress client.1 = some peer ∧
    mw.Trusts peer

/-- The scope is left as it was, or both forwarding headers of a trusted peer are consumed. -/
theorem forward_cases (mw : TrustedProxy) (scope : Scope) :
    mw.forward scope = scope ∨
      scope.type = .http ∧ mw.TrustsPeer scope ∧ mw.WellFormed scope.headers ∧
        (mw.forward scope).headers =
          scope.headers.filter fun header => lowerBytes header.1 ∉ forwardingHeaders := by
  unfold forward
  split
  · next hcondition =>
      obtain ⟨hhttp, hany⟩ := hcondition
      cases hforwarding : mw.forwarding scope.headers with
      | none => exact .inl (by rw [applyForwarding, hforwarding])
      | some forwarding =>
          refine .inr ⟨hhttp, ?_, forwarding_isSome_iff.mp (by rw [hforwarding]; rfl), ?_⟩
          · cases hclient : scope.client with
            | none =>
                rw [hclient] at hany
                cases hany
            | some client =>
                rw [hclient] at hany
                obtain ⟨peer, hpeer, htrusts⟩ := trusted_iff.mp hany
                exact ⟨client, peer, hclient, hpeer, htrusts⟩
          · obtain ⟨-, selected, hselected, -, -, -, hconsumed⟩ :=
              forwarding_eq_some_iff.mp hforwarding
            rw [applyForwarding, hforwarding]
            refine List.filter_congr fun header hheader => ?_
            rw [hconsumed, decide_eq_decide, not_iff_not]
            exact mem_keys_of_select hselected hheader
  · exact .inl rfl

/-- Behind both middlewares a request is rejected, or none of its headers is forbidden, in any
    spelling; the client and the scheme differ from those of the transport only if a trusted peer
    sent well-formed forwarding headers, and where they are not well formed the whole scope is as
    it was. -/
theorem forwarding_consumed_or_rejected (mw : TrustedProxy) (sanitization : HeaderSanitization)
    (scope : Scope) :
    (scope.type = .http →
      (∃ e, sanitization.run (mw.forward scope) = .error e ∧ e.statusCode = 400) ∨
      ∃ downstream, sanitization.run (mw.forward scope) = .ok downstream ∧
        downstream.client = (mw.forward scope).client ∧
        downstream.scheme = (mw.forward scope).scheme ∧
        (∀ header ∈ (mw.forward scope).headers, ¬ HeaderSanitization.Forbidden header) ∧
        ∀ header ∈ downstream.headers, ¬ HeaderSanitization.Forbidden header) ∧
    ((mw.forward scope).client ≠ scope.client ∨ (mw.forward scope).scheme ≠ scope.scheme →
      mw.TrustsPeer scope ∧ mw.WellFormed scope.headers) ∧
    (¬ mw.WellFormed scope.headers → mw.forward scope = scope) ∧
    (mw.forward scope = scope ∨ (mw.forward scope).headers =
      scope.headers.filter fun header => lowerBytes header.1 ∉ forwardingHeaders) := by
  have hcases := forward_cases mw scope
  have htype : (mw.forward scope).type = scope.type := by
    unfold forward applyForwarding
    split
    · split <;> rfl
    · rfl
  refine ⟨fun hhttp => ?_, fun hchanged => ?_, fun hnot => ?_, ?_⟩
  · obtain ⟨detail, herror⟩ | ⟨headers, hok, hnone, hkept⟩ :=
      sanitization.run_cases (htype.trans hhttp)
    · exact .inl ⟨_, herror, rfl⟩
    · exact .inr ⟨_, hok, rfl, rfl, hnone, fun header h => hnone header (hkept header h)⟩
  · obtain hsame | ⟨-, hpeer, hwell, -⟩ := hcases
    · rw [hsame] at hchanged
      simp at hchanged
    · exact ⟨hpeer, hwell⟩
  · obtain hsame | ⟨-, -, hwell, -⟩ := hcases
    · exact hsame
    · exact absurd hwell hnot
  · exact hcases.imp_right fun h => h.2.2.2

/-- A repeated header in another spelling stops the forwarding of a trusted peer, and the request
    is rejected. -/
theorem forwarding_consumed_or_rejected_repeated :
    ∃ (mw : TrustedProxy) (scope : Scope), mw.TrustsPeer scope ∧ mw.forward scope = scope ∧
      ∃ e, (HeaderSanitization.mk []).run (mw.forward scope) = .error e ∧ e.statusCode = 400 := by
  let network : IpNetwork := .v4 (.around 0x0A000000 8 (by decide))
  let mw : TrustedProxy := { networks := [network] }
  let scope : Scope := ⟨.http, some ("10.0.0.1".toList, 42), none,
    [(forwardedFor, encodeAscii "198.51.100.8".toList),
      (encodeAscii "X-Forwarded-For".toList, encodeAscii "192.0.2.8".toList)]⟩
  obtain ⟨hrejected, -, hstops, -⟩ := forwarding_consumed_or_rejected mw ⟨[]⟩ scope
  have hstop : mw.forward scope = scope := by
    refine hstops fun h => ?_
    have honce := h.once forwardedFor (by decide)
    exact absurd honce (by decide +kernel)
  have hpeer : mw.TrustsPeer scope :=
    ⟨_, .v4 0x0A000001, rfl, by decide +kernel, network, by simp [mw], by decide⟩
  refine ⟨mw, scope, hpeer, hstop, ?_⟩
  obtain hrejected | ⟨_, -, -, -, hnone, -⟩ := hrejected rfl
  · exact hrejected
  · rw [hstop] at hnone
    have hforbidden : HeaderSanitization.Forbidden
        (forwardedFor, encodeAscii "198.51.100.8".toList) := by
      rw [HeaderSanitization.Forbidden]
      decide +kernel
    exact absurd hforbidden (hnone _ (by simp [scope]))

end TrustedProxy

end QuickApi.HttpPolicy
