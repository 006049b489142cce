/-
  QuickApi.HttpPolicy.TrustedProxy

  `TrustedProxyASGIMiddleware` (`app/common/middleware/trusted_proxy.py`):
  forwarding headers of trusted peers are resolved and consumed before any
  other middleware reads the scope.
-/

import QuickApi.HttpPolicy.Policy
import QuickApi.Lib.OrderedDict

namespace QuickApi.HttpPolicy

open QuickApi.Lib

inductive ScopeType where
  | http
  | websocket
  | lifespan
deriving DecidableEq, Repr

/-- What the middlewares read and write of an ASGI scope. -/
structure Scope where
  type : ScopeType
  client : Option (List Char × Nat)
  scheme : Option (List Char)
  headers : List (Bytes × Bytes)
deriving DecidableEq, Repr

/-- The budgets for the raw headers. -/
structure HeaderBudget where
  maxHeaderBytes : Nat := 4096
  maxHeaderCount : Nat := 100
  maxTotalHeaderBytes : Nat := 8192

/-- The middleware, with the networks it trusts. -/
structure TrustedProxy extends HeaderBudget where
  networks : List IpNetwork

/-- `TrustedProxyASGIMiddleware(app, trusted_proxies, ...)` -/
def TrustedProxy.new (trustedProxies : List (List Char)) (budget : HeaderBudget) :
    Option TrustedProxy :=
  (trustedProxies.mapM proxyNetwork).map fun networks => { budget with networks }

/-- `b"x-forwarded-for"` -/
def forwardedFor : Bytes := encodeAscii "x-forwarded-for".toList

/-- `b"x-forwarded-proto"` -/
def forwardedProto : Bytes := encodeAscii "x-forwarded-proto".toList

/-- The headers that are consumed. -/
def forwardingHeaders : List Bytes := [forwardedFor, forwardedProto]

/-- `ord(char) < 32 or ord(char) == 127` -/
def isControl (c : Char) : Bool := c.toNat < 32 || c.toNat == 127

/-- The values of the forwarding headers, by lower-cased name. -/
abbrev Selected := OrderedDict Bytes (List Char)

/-- The body of the first loop; `none` returns early. -/
def selectHeader (selected : Selected) (header : Bytes × Bytes) : Option Selected :=
  let key := lowerBytes header.1
  if key ∉ forwardingHeaders then some selected
  else if key ∈ selected.keys then none
  else
    (decodeAscii header.2).bind fun decoded =>
      if decoded.any isControl then none else some (selected.set key (strip decoded))

/-- What the forwarding headers say once they are accepted. -/
structure Forwarding where
  client : Option (List Char)
  scheme : Option (List Char)
  consumed : List Bytes
deriving DecidableEq, Repr

namespace TrustedProxy

variable (mw : TrustedProxy)

/-- `trusted` -/
def trusted (host : List Char) : Bool :=
  match IpAddress.ipAddress host with
  | some address => mw.networks.any (·.contains address)
  | none => false

/-- Some budget for the raw headers is exceeded. -/
def overBudget (headers : List (Bytes × Bytes)) : Bool :=
  let sizes := headers.map fun header => header.1.length + header.2.length
  mw.maxHeaderCount < headers.length || mw.maxTotalHeaderBytes < sizes.sum ||
    sizes.any (mw.maxHeaderBytes < ·)

/-- The backward scan for the first host that is not trusted. -/
def scanHosts (hosts : List (List Char)) : Option (List Char) :=
  (hosts.reverse.find? fun host => !mw.trusted host).or hosts.head?

/-- The client that the value of `x-forwarded-for` names; `none` returns early. -/
def resolveClient (value : List Char) : Option (Option (List Char)) :=
  let rawHosts := value.splitOn ','
  if rawHosts.any ('%' ∈ ·) then none
  else
    (rawHosts.mapM fun host => (IpAddress.ipAddress (strip host)).map IpAddress.text).map
      mw.scanHosts

/-- `forwarded_client`, where `x-forwarded-for` is selected. -/
def selectedClient (selected : Selected) : Option (Option (List Char)) :=
  match selected.get? forwardedFor with
  | some value => mw.resolveClient value
  | none => some none

/-- Everything `apply_forwarding` does before its first assignment; `none` returns early. -/
def forwarding (headers : List (Bytes × Bytes)) : Option Forwarding :=
  if mw.overBudget headers then none
  else
    (headers.foldlM selectHeader .empty).bind fun selected =>
      (mw.selectedClient selected).bind fun client =>
        let scheme := selected.get? forwardedProto
        if scheme.any (· ∉ ["http".toList, "https".toList]) then none
        else some { client, scheme, consumed := selected.keys }

/-- `apply_forwarding` -/
def applyForwarding (scope : Scope) : Scope :=
  match mw.forwarding scope.headers with
  | none => scope
  | some forwarding =>
      { scope with
        client := (forwarding.client.map fun host => (host, 0)).or scope.client
        scheme := forwarding.scheme.or scope.scheme
        headers := scope.headers.filter fun header => lowerBytes header.1 ∉ forwarding.consumed }

/-- The scope that the next application is called with. -/
def forward (scope : Scope) : Scope :=
  if scope.type = .http ∧ scope.client.any fun client => mw.trusted client.1 then
    mw.applyForwarding scope
  else scope

end TrustedProxy

end QuickApi.HttpPolicy
