/-
  QuickApi.Lib.IpAddress

  IP addresses and their texts, as Python's `ipaddress` reads and writes them.
  An address is a number of 32 or 128 bits; the text of an IPv6 address skips
  its longest run of zero hextets.  Every address is read back from its text.
-/

import QuickApi.Lib.Radix
import Mathlib.Data.List.GetD

namespace QuickApi.Lib

/-- An address; only IPv6 addresses have scope ids. -/
inductive IpAddress where
  | v4 (ip : BitVec 32)
  | v6 (ip : BitVec 128) (scopeId : Option (List Char))
deriving DecidableEq, Repr

namespace IpAddress

-- ============================================================================
-- IPv4
-- ============================================================================

/-- `_parse_octet` -/
def parseOctet (text : List Char) : Option Nat :=
  if 3 < text.length ∨ (text ≠ ['0'] ∧ text.head? = some '0') then none
  else (readNumeral 10 text).bind fun octet => if octet ≤ 255 then some octet else none

/-- `IPv4Address(text)` -/
def ipv4Address (text : List Char) : Option (BitVec 32) :=
  if '/' ∈ text then none
  else
    let octets := text.splitOn '.'
    if octets.length ≠ 4 then none
    else (octets.mapM parseOctet).map fun octets => .ofNat 32 (ofRadix 256 octets)

/-- `str` of an IPv4 address -/
def ipv4Text (ip : BitVec 32) : List Char :=
  ['.'].intercalate ((toRadix 256 4 ip.toNat).map (Nat.toDigits 10))

-- ============================================================================
-- IPv6
-- ============================================================================

/-- `_parse_hextet` -/
def parseHextet (text : List Char) : Option Nat :=
  if 4 < text.length then none else readNumeral 16 text

/-- An IPv4-style suffix becomes two hextets. -/
def expandSuffix (parts : List (List Char)) : Option (List (List Char)) :=
  match parts.getLast? with
  | none => some parts
  | some last =>
      if '.' ∈ last then
        (ipv4Address last).map fun ip =>
          parts.dropLast ++ (toRadix 65536 2 ip.toNat).map (Nat.toDigits 16)
      else some parts

/-- The places of the empty parts, the first part at `index`. -/
def emptyIndices : Nat → List (List Char) → List Nat
  | _, [] => []
  | index, part :: parts =>
      if part = [] then index :: emptyIndices (index + 1) parts
      else emptyIndices (index + 1) parts

/-- `high` hextets from the front and `low` from the end, zeros between them. -/
def combineHextets (parts : List (List Char)) (high low : Nat) : Option (BitVec 128) := do
  let highs ← (parts.take high).mapM parseHextet
  let lows ← (parts.drop (parts.length - low)).mapM parseHextet
  return .ofNat 128 (ofRadix 65536 (highs ++ List.replicate (8 - (high + low)) 0 ++ lows))

/-- The parts between colons, where an empty part inside skips zeros. -/
def parseParts (parts : List (List Char)) : Option (BitVec 128) :=
  let leading := parts.head? = some []
  let trailing := parts.getLast? = some []
  if 9 < parts.length then none
  else
    match emptyIndices 1 parts.tail.dropLast with
    | [] =>
        if parts.length ≠ 8 ∨ leading ∨ trailing then none else combineHextets parts parts.length 0
    | [skip] =>
        let high := if leading then skip - 1 else skip
        let low := if trailing then parts.length - skip - 2 else parts.length - skip - 1
        if (leading ∧ high ≠ 0) ∨ (trailing ∧ low ≠ 0) ∨ 8 ≤ high + low then none
        else combineHextets parts high low
    | _ => none

/-- `_ip_int_from_string` -/
def parseIpv6 (text : List Char) : Option (BitVec 128) :=
  let parts := text.splitOn ':'
  if parts.length < 3 then none else (expandSuffix parts).bind parseParts

/-- `_split_scope_id` -/
def splitScopeId (text : List Char) : Option (List Char × Option (List Char)) :=
  match text.splitOn '%' with
  | [address] => some (address, none)
  | [address, scopeId] => if scopeId = [] then none else some (address, some scopeId)
  | _ => none

/-- `IPv6Address(text)` -/
def ipv6Address (text : List Char) : Option (BitVec 128 × Option (List Char)) :=
  if '/' ∈ text then none
  else (splitScopeId text).bind fun p => (parseIpv6 p.1).map fun ip => (ip, p.2)

/-- The runs of zeros in the hextets so far: the current one and the longest. -/
structure ZeroRuns where
  start : Option Nat
  length : Nat
  bestStart : Nat
  bestLength : Nat
deriving Repr

def ZeroRuns.next (r : ZeroRuns) (index : Nat) (hextet : List Char) : ZeroRuns :=
  if hextet = ['0'] then
    let length := r.length + 1
    let start := r.start.getD index
    if r.bestLength < length then ⟨some start, length, start, length⟩
    else ⟨some start, length, r.bestStart, r.bestLength⟩
  else { r with start := none, length := 0 }

/-- The loop of `_compress_hextets`. -/
def zeroRuns (hextets : List (List Char)) : ZeroRuns :=
  hextets.zipIdx.foldl (fun r p => r.next p.2 p.1) ⟨none, 0, 0, 0⟩

/-- `_compress_hextets` -/
def compressHextets (hextets : List (List Char)) : List (List Char) :=
  let r := zeroRuns hextets
  if 1 < r.bestLength then
    let bestEnd := r.bestStart + r.bestLength
    let tail := if bestEnd = hextets.length then [[]] else hextets.drop bestEnd
    let compressed := hextets.take r.bestStart ++ [] :: tail
    if r.bestStart = 0 then [] :: compressed else compressed
  else hextets

/-- `str` of an IPv6 address without its scope id -/
def ipv6Text (ip : BitVec 128) : List Char :=
  [':'].intercalate (compressHextets ((toRadix 65536 8 ip.toNat).map (Nat.toDigits 16)))

-- ============================================================================
-- Addresses
-- ============================================================================

/-- `ip_address(text)` -/
def ipAddress (text : List Char) : Option IpAddress :=
  ((ipv4Address text).map .v4).or ((ipv6Address text).map fun p => .v6 p.1 p.2)

/-- `str(address)` -/
def text : IpAddress → List Char
  | .v4 ip => ipv4Text ip
  | .v6 ip scopeId => ipv6Text ip ++ (scopeId.map ('%' :: ·)).getD []

end IpAddress

end QuickApi.Lib
