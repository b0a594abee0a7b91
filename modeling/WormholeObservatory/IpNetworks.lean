import WormholeObservatory.IpAddresses

/-! The number of an IP address, and the networks it is in. -/
namespace IpAddresses

inductive IpAddress
  | v4 (value : ℕ)
  | v6 (value : ℕ)
  deriving DecidableEq

/-- `_ip_int_from_string` of IPv4. -/
def ipv4Value (s : List Char) : ℕ :=
  (s.splitOn '.').foldl (fun value octet =>
    256*value+octet.foldl (fun n c => 10*n+(c.toNat-48)) 0) 0

def hexDigitValue (c : Char) : ℕ :=
  if c.isDigit then c.toNat-48 else if 97 ≤ c.toNat then c.toNat-87 else c.toNat-55

def hextetValue (part : List Char) : ℕ := part.foldl (fun n c => 16*n+hexDigitValue c) 0

/-- The hextets of the parts, where an IPv4 suffix gives two of them. -/
def hextets (parts : List (List Char)) : List ℕ :=
  parts.flatMap fun part =>
    if part.contains '.' then [ipv4Value part/65536,ipv4Value part%65536] else [hextetValue part]

/-- `_ip_int_from_string` of IPv6, for a text it takes. -/
def ipv6Value (s : List Char) : ℕ :=
  let parts := (s.takeWhile (· ≠ '%')).splitOn ':'
  let inner := (parts.drop 1).dropLast
  let skip := 1+inner.findIdx List.isEmpty
  let groups :=
    if inner.any List.isEmpty then
      let high := hextets (((partsHigh (parts.take skip)).getD []))
      let low := hextets (((partsLow (parts.drop (skip+1))).getD []))
      high++List.replicate (8-high.length-low.length) 0++low
    else hextets parts
  groups.foldl (fun value group => 65536*value+group) 0

/-- `ip_address`. -/
def ipAddress (s : String) : Option IpAddress :=
  if isIPv4 s.toList then some (.v4 (ipv4Value s.toList))
  else if isIPv6 s.toList then some (.v6 (ipv6Value s.toList))
  else none

/-- A network, by its first address and the number of bits that its addresses share. -/
structure IpNetwork where
  address : IpAddress
  prefixLength : ℕ

/-- `address in network`. -/
def IpAddress.inNetwork (a : IpAddress) (network : IpNetwork) : Bool :=
  match a,network.address with
  | .v4 a,.v4 n => a/2^(32-network.prefixLength) == n/2^(32-network.prefixLength)
  | .v6 a,.v6 n => a/2^(128-network.prefixLength) == n/2^(128-network.prefixLength)
  | _,_ => false

/-- `is_loopback`, where an IPv4 address within an IPv6 address counts as itself. -/
def IpAddress.isLoopback : IpAddress → Bool
  | .v4 value => value/2^24 == 127
  | .v6 value => value == 1 || (value/2^32 == 0xffff && value%2^32/2^24 == 127)

example : (ipAddress "fd7a:115c:a1e0::7").any (·.inNetwork ⟨.v6 (0xfd7a115ca1e0*2^80),48⟩) = true := by
  decide

end IpAddresses
