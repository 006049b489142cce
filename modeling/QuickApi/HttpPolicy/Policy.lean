/-
  QuickApi.HttpPolicy.Policy

  HTTP policy syntax (`app/config/http_policy.py`): the headers that no client
  may send, and the networks whose peers are believed.
-/

import QuickApi.Lib.IpAddress
import QuickApi.Lib.PythonText

namespace QuickApi.HttpPolicy

open QuickApi.Lib

/-- `FORBIDDEN_HEADERS` -/
def forbiddenHeaders : List (List Char) :=
  ["keep-alive".toList, "proxy-authenticate".toList, "proxy-authorization".toList, "te".toList,
    "trailer".toList, "transfer-encoding".toList, "upgrade".toList, "proxy-connection".toList,
    "x-forwarded-for".toList, "x-forwarded-host".toList, "x-forwarded-proto".toList,
    "forwarded".toList, "via".toList, "client-ip".toList, "true-client-ip".toList]

-- ============================================================================
-- Networks
-- ============================================================================

/-- The mask with `prefixlen` leading ones. -/
def netmask (width prefixlen : Nat) : BitVec width :=
  BitVec.allOnes width ^^^ (BitVec.allOnes width >>> prefixlen)

/-- A network; its address has no host bits. -/
structure Network (width : Nat) where
  address : BitVec width
  prefixlen : Nat
  prefixlen_le : prefixlen ≤ width
  no_host_bits : address &&& netmask width prefixlen = address

/-- The network around an address (`strict=False`). -/
def Network.around {width : Nat} (address : BitVec width) (prefixlen : Nat)
    (h : prefixlen ≤ width) : Network width where
  address := address &&& netmask width prefixlen
  prefixlen
  prefixlen_le := h
  no_host_bits := by rw [BitVec.and_assoc, BitVec.and_self]

inductive IpNetwork where
  | v4 (network : Network 32)
  | v6 (network : Network 128)

namespace IpNetwork

def prefixlen : IpNetwork → Nat
  | .v4 network => network.prefixlen
  | .v6 network => network.prefixlen

/-- `address in network` -/
def contains : IpNetwork → IpAddress → Bool
  | .v4 network, .v4 ip => ip &&& netmask 32 network.prefixlen == network.address
  | .v6 network, .v6 ip _ => ip &&& netmask 128 network.prefixlen == network.address
  | _, _ => false

/-- The prefix length that a text of digits gives; without one it is the whole width. -/
def parsePrefixlen (width : Nat) (digits : Option (List Char)) : Option { n // n ≤ width } :=
  match digits with
  | none => some ⟨width, Nat.le_refl width⟩
  | some digits =>
      (readNumeral 10 digits).bind fun n => if h : n ≤ width then some ⟨n, h⟩ else none

/-- `ip_network(address/digits, strict=False)` where `digits` is a number -/
def ipNetwork (address : List Char) (digits : Option (List Char)) : Option IpNetwork :=
  let v4 := do
    let ip ← IpAddress.ipv4Address address
    let n ← parsePrefixlen 32 digits
    return IpNetwork.v4 (.around ip n.val n.property)
  let v6 := do
    let ip ← IpAddress.ipv6Address address
    let n ← parsePrefixlen 128 digits
    return IpNetwork.v6 (.around ip.1 n.val n.property)
  v4.or v6

end IpNetwork

/-- `proxy_network` -/
def proxyNetwork (value : List Char) : Option IpNetwork :=
  if '%' ∈ value then none
  else
    let network :=
      match value.splitOn '/' with
      | [address] => IpNetwork.ipNetwork address none
      | [address, digits] =>
          if digits.all (fun c => '0' ≤ c && c ≤ '9') && !digits.isEmpty then
            IpNetwork.ipNetwork address (some digits)
          else none
      | _ => none
    network.bind fun network => if network.prefixlen = 0 then none else some network

/-- Trust is never blanket. -/
theorem proxyNetwork_prefixlen {value : List Char} {network : IpNetwork}
    (h : proxyNetwork value = some network) : 0 < network.prefixlen := by
  simp only [proxyNetwork, Option.ite_none_left_eq_some] at h
  obtain ⟨-, h⟩ := h
  obtain ⟨network', -, h⟩ := Option.bind_eq_some_iff.mp h
  rw [Option.ite_none_left_eq_some] at h
  obtain ⟨hne, h⟩ := h
  obtain rfl := Option.some.inj h
  exact Nat.pos_of_ne_zero hne

end QuickApi.HttpPolicy
