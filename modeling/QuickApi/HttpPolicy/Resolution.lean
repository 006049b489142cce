/-
  QuickApi.HttpPolicy.Resolution

  Whom a chain of forwarding hops names.  Only the peer and the networks decide
  which hops are believed: the client is the rightmost address outside the
  trusted networks, and nothing that stands left of it has a say.
-/

import QuickApi.HttpPolicy.Selection
import QuickApi.Lib.IpAddressText

namespace QuickApi.HttpPolicy

open QuickApi.Lib

-- ============================================================================
-- Chains
-- ============================================================================

/-- The unscoped addresses that a header value lists. -/
def listedAddresses (value : Bytes) : Option (List IpAddress) :=
  (decodeAscii value).bind fun decoded =>
    if decoded.any isControl then none
    else ((strip decoded).splitOn ',').mapM fun host =>
      if '%' ∈ host then none else IpAddress.ipAddress (strip host)

theorem listedAddresses_eq_some_iff {value : Bytes} {addresses : List IpAddress} :
    listedAddresses value = some addresses ↔
      ∃ decoded, decodeAscii value = some decoded ∧ decoded.any isControl = false ∧
        List.Forall₂
          (fun host address => '%' ∉ host ∧ IpAddress.ipAddress (strip host) = some address)
          ((strip decoded).splitOn ',') addresses := by
  simp only [listedAddresses, Option.bind_eq_some_iff, Option.ite_none_left_eq_some,
    mapM_eq_some_iff, Bool.not_eq_true]

namespace TrustedProxy

variable {mw : TrustedProxy}

/-- The address lies in a trusted network. -/
def Trusts (mw : TrustedProxy) (address : IpAddress) : Prop :=
  ∃ network ∈ mw.networks, network.contains address = true

theorem trusted_iff {host : List Char} :
    mw.trusted host = true ↔ ∃ address, IpAddress.ipAddress host = some address ∧
      mw.Trusts address := by
  unfold trusted
  split
  · next address haddress => simp [Trusts, haddress]
  · next hnone => simp [hnone]

/-- A host is trusted in its canonical text if and only if its address is. -/
theorem trusted_text {address : IpAddress} (h : address.Unscoped) :
    mw.trusted address.text = true ↔ mw.Trusts address := by
  rw [trusted_iff, IpAddress.ipAddress_text h]
  simp

/-- The scan stops at the rightmost host that is not trusted. -/
theorem scanHosts_append {before behind : List (List Char)} {host : List Char}
    (hhost : mw.trusted host = false) (hbehind : ∀ h ∈ behind, mw.trusted h = true) :
    mw.scanHosts (before ++ host :: behind) = some host := by
  have hreverse : (before ++ host :: behind).reverse =
      behind.reverse ++ host :: before.reverse := by simp
  have hnone : (behind.reverse.find? fun h => !mw.trusted h) = none := by
    rw [List.find?_eq_none]
    intro h hh
    simp [hbehind h (List.mem_reverse.mp hh)]
  rw [scanHosts, hreverse, List.find?_append, hnone, Option.none_or]
  simp [hhost]

/-- A chain of trusted hosts names its leftmost one. -/
theorem scanHosts_of_trusted {hosts : List (List Char)} (h : ∀ host ∈ hosts, mw.trusted host = true) :
    mw.scanHosts hosts = hosts.head? := by
  have hnone : (hosts.reverse.find? fun host => !mw.trusted host) = none := by
    rw [List.find?_eq_none]
    intro host hhost
    simp [h host (List.mem_reverse.mp hhost)]
  rw [scanHosts, hnone, Option.none_or]

theorem resolveClient_of_listed {value : Bytes} {addresses : List IpAddress}
    (h : listedAddresses value = some addresses) {decoded : List Char} (hdecoded : decodeAscii value = some decoded) :
    mw.resolveClient (strip decoded) = some (mw.scanHosts (addresses.map IpAddress.text)) := by
  obtain ⟨decoded', hdecoded', -, hhosts⟩ := listedAddresses_eq_some_iff.mp h
  obtain rfl := Option.some.inj (hdecoded.symm.trans hdecoded')
  have hscoped : ((strip decoded).splitOn ',').any ('%' ∈ ·) = false := by
    rw [List.any_eq_false]
    intro host hhost
    obtain ⟨_, -, hnot, -⟩ := exists_of_forall₂_left hhosts hhost
    simpa using hnot
  have hparse : ((strip decoded).splitOn ',').mapM
      (fun host => (IpAddress.ipAddress (strip host)).map IpAddress.text) =
      some (addresses.map IpAddress.text) := by
    rw [mapM_eq_some_iff, List.forall₂_map_right_iff]
    exact hhosts.imp fun host address hh => by rw [hh.2]; rfl
  rw [resolveClient, hscoped, hparse]
  rfl

/-- The addresses of a chain have no scope ids. -/
theorem unscoped_of_listed {value : Bytes} {addresses : List IpAddress} (h : listedAddresses value = some addresses) :
    ∀ address ∈ addresses, address.Unscoped := by
  obtain ⟨decoded, -, -, hhosts⟩ := listedAddresses_eq_some_iff.mp h
  intro address haddress
  obtain ⟨host, -, hnot, hparse⟩ := exists_of_forall₂_right hhosts haddress
  exact IpAddress.unscoped_of_ipAddress (fun hmem => hnot (mem_of_mem_strip hmem)) hparse

-- ============================================================================
-- The resolved client
-- ============================================================================

/-- A trusted peer sends one chain of addresses, and no early return stops the forwarding. -/
structure Resolves (mw : TrustedProxy) (scope : Scope) (addresses : List IpAddress) : Prop where
  http : scope.type = .http
  peer : ∃ host port peer, scope.client = some (host, port) ∧
    IpAddress.ipAddress host = some peer ∧ mw.Trusts peer
  chain : ∃ name value, listedAddresses value = some addresses ∧
    scope.headers.filter (fun header => lowerBytes header.1 = forwardedFor) = [(name, value)]
  goesOn : (mw.forwarding scope.headers).isSome

theorem Resolves.client {scope : Scope} {addresses : List IpAddress}
    (h : mw.Resolves scope addresses) :
    (mw.forward scope).client =
      ((mw.scanHosts (addresses.map IpAddress.text)).map fun host => (host, 0)).or
        scope.client := by
  obtain ⟨host, port, peer, hclient, hpeer, htrusts⟩ := h.peer
  obtain ⟨name, value, hlisted, hfilter⟩ := h.chain
  obtain ⟨result, hresult⟩ := Option.isSome_iff_exists.mp h.goesOn
  have hforward : mw.forward scope = mw.applyForwarding scope := by
    have htrusted : (scope.client.any fun client => mw.trusted client.1) = true := by
      rw [hclient]
      exact trusted_iff.mpr ⟨peer, hpeer, htrusts⟩
    rw [forward, if_pos ⟨h.http, htrusted⟩]
  rw [hforward, applyForwarding, hresult]
  simp only [forwarding, Option.ite_none_left_eq_some, Option.bind_eq_some_iff,
    Option.some.injEq] at hresult
  obtain ⟨-, selected, hselected, client, hselectedClient, -, rfl⟩ := hresult
  have hmem : (name, value) ∈ scope.headers ∧ lowerBytes name = forwardedFor := by
    have hin : (name, value) ∈
        scope.headers.filter fun header => lowerBytes header.1 = forwardedFor := by
      rw [hfilter]
      exact List.mem_singleton.mpr rfl
    simpa using hin
  obtain ⟨decoded, hdecoded, hcontrol, -⟩ := listedAddresses_eq_some_iff.mp hlisted
  have hget : selected.get? forwardedFor = some (strip decoded) := by
    refine (get?_of_select hselected (by decide)).mpr ⟨(name, value), hmem.1, ?_, ?_⟩
    · exact hmem.2.symm
    · exact ⟨decoded, hdecoded, hcontrol, rfl⟩
  simp only [selectedClient, hget, resolveClient_of_listed hlisted hdecoded, Option.some.injEq]
    at hselectedClient
  rw [hselectedClient]

theorem Resolves.rightmost_untrusted {scope : Scope} {before behind : List IpAddress}
    {address : IpAddress} (h : mw.Resolves scope (before ++ address :: behind))
    (huntrusted : ¬ mw.Trusts address) (htrusted : ∀ a ∈ behind, mw.Trusts a) :
    (mw.forward scope).client = some (address.text, 0) := by
  obtain ⟨name, value, hlisted, -⟩ := h.chain
  have hunscoped := unscoped_of_listed hlisted
  have haddress : mw.trusted address.text = false := by
    rw [← Bool.not_eq_true, trusted_text (hunscoped address (by simp))]
    exact huntrusted
  have hbehind : ∀ host ∈ behind.map IpAddress.text, mw.trusted host = true := by
    intro host hhost
    obtain ⟨a, ha, rfl⟩ := List.mem_map.mp hhost
    exact (trusted_text (hunscoped a (by simp [ha]))).mpr (htrusted a ha)
  rw [h.client, List.map_append, List.map_cons, scanHosts_append haddress hbehind]
  rfl

theorem Resolves.leftmost {scope : Scope} {address : IpAddress} {behind : List IpAddress}
    (h : mw.Resolves scope (address :: behind)) (htrusted : ∀ a ∈ address :: behind, mw.Trusts a) :
    (mw.forward scope).client = some (address.text, 0) := by
  obtain ⟨name, value, hlisted, -⟩ := h.chain
  have hunscoped := unscoped_of_listed hlisted
  have hall : ∀ host ∈ (address :: behind).map IpAddress.text, mw.trusted host = true := by
    intro host hhost
    obtain ⟨a, ha, rfl⟩ := List.mem_map.mp hhost
    exact (trusted_text (hunscoped a ha)).mpr (htrusted a ha)
  rw [h.client, scanHosts_of_trusted hall]
  rfl

/-- A peer outside the trusted networks is not believed. -/
theorem forward_of_untrusted {scope : Scope}
    (h : ∀ client ∈ scope.client, ∀ peer, IpAddress.ipAddress client.1 = some peer →
      ¬ mw.Trusts peer) : mw.forward scope = scope := by
  rw [forward, if_neg]
  rintro ⟨-, hany⟩
  cases hclient : scope.client with
  | none => simp [hclient] at hany
  | some client =>
      rw [hclient] at hany
      obtain ⟨peer, hpeer, htrusts⟩ := trusted_iff.mp hany
      exact h client hclient peer hpeer htrusts

/-- The client of a forwarded request is the rightmost address outside the trusted networks, or
    the leftmost address where all are trusted, so that it does not depend on what stands left of
    that address; the scope of a request from any other peer is left as it was. -/
theorem forwarded_client_not_spoofed (mw : TrustedProxy) :
    (∀ scope before address behind, mw.Resolves scope (before ++ address :: behind) →
      ¬ mw.Trusts address → (∀ a ∈ behind, mw.Trusts a) →
      (mw.forward scope).client = some (address.text, 0)) ∧
    (∀ scope address behind, mw.Resolves scope (address :: behind) →
      (∀ a ∈ address :: behind, mw.Trusts a) →
      (mw.forward scope).client = some (address.text, 0)) ∧
    (∀ scope scope' before before' address behind,
      mw.Resolves scope (before ++ address :: behind) →
      mw.Resolves scope' (before' ++ address :: behind) →
      ¬ mw.Trusts address → (∀ a ∈ behind, mw.Trusts a) →
      (mw.forward scope).client = (mw.forward scope').client) ∧
    (∀ scope, (∀ client ∈ scope.client, ∀ peer, IpAddress.ipAddress client.1 = some peer →
      ¬ mw.Trusts peer) → mw.forward scope = scope) := by
  refine ⟨fun scope before address behind h => h.rightmost_untrusted,
    fun scope address behind h => h.leftmost, ?_, fun scope h => forward_of_untrusted h⟩
  intro scope scope' before before' address behind h h' huntrusted htrusted
  rw [h.rightmost_untrusted huntrusted htrusted, h'.rightmost_untrusted huntrusted htrusted]

/-- Two chains that agree from the hop outside `10.0.0.0/8` onwards. -/
theorem forwarded_client_not_spoofed_two_chains :
    ∃ (mw : TrustedProxy) (scope scope' : Scope),
      TrustedProxy.new ["10.0.0.0/8".toList] {} = some mw ∧
      scope.headers = [(forwardedFor, encodeAscii "203.0.113.9, 198.51.100.8,10.0.0.2".toList)] ∧
      scope'.headers = [(forwardedFor, encodeAscii "::1,10.1.1.1,198.51.100.8,10.0.0.2".toList)] ∧
      (mw.forward scope).client = some ("198.51.100.8".toList, 0) ∧
      (mw.forward scope).client = (mw.forward scope').client := by
  let network : IpNetwork := .v4 (.around 0x0A000000 8 (by decide))
  let mw : TrustedProxy := { networks := [network] }
  let scope : Scope := ⟨.http, some ("10.0.0.1".toList, 42), none,
    [(forwardedFor, encodeAscii "203.0.113.9, 198.51.100.8,10.0.0.2".toList)]⟩
  let scope' : Scope := ⟨.http, some ("10.0.0.1".toList, 42), none,
    [(forwardedFor, encodeAscii "::1,10.1.1.1,198.51.100.8,10.0.0.2".toList)]⟩
  have h : mw.Resolves scope ([.v4 0xCB007109] ++ .v4 0xC6336408 :: [.v4 0x0A000002]) :=
    ⟨rfl, ⟨_, _, .v4 0x0A000001, rfl, by decide +kernel, network, by simp [mw], by decide⟩,
      ⟨_, _, by decide +kernel, rfl⟩, by decide +kernel⟩
  have h' : mw.Resolves scope'
      ([.v6 1 none, .v4 0x0A010101] ++ .v4 0xC6336408 :: [.v4 0x0A000002]) :=
    ⟨rfl, ⟨_, _, .v4 0x0A000001, rfl, by decide +kernel, network, by simp [mw], by decide⟩,
      ⟨_, _, by decide +kernel, rfl⟩, by decide +kernel⟩
  have huntrusted : ¬ mw.Trusts (.v4 0xC6336408) := by
    rintro ⟨n, hn, hcontains⟩
    obtain rfl := List.mem_singleton.mp hn
    exact absurd hcontains (by decide)
  have htrusted : ∀ a ∈ [IpAddress.v4 0x0A000002], mw.Trusts a := by
    intro a ha
    obtain rfl := List.mem_singleton.mp ha
    exact ⟨network, by simp [mw], by decide⟩
  obtain ⟨hrightmost, -, htwo, -⟩ := forwarded_client_not_spoofed mw
  refine ⟨mw, scope, scope', by rfl, rfl, rfl, ?_, ?_⟩
  · rw [hrightmost scope _ _ _ h huntrusted htrusted]
    decide +kernel
  · exact htwo scope scope' _ _ _ _ h h' huntrusted htrusted

end TrustedProxy

end QuickApi.HttpPolicy
