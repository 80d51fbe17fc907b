import GameQuery.Text.Numeral

namespace GameQuery

/-!
# Addresses

IP addresses, addresses with a port, their texts and their order.
-/

/-- Four bytes, the most significant first. -/
structure Ipv4 where
  a : UInt8
  b : UInt8
  c : UInt8
  d : UInt8
  deriving DecidableEq, Repr, Inhabited

/-- Eight groups of sixteen bits, the most significant first. -/
structure Ipv6 where
  groups : Vector UInt16 8
  deriving DecidableEq, Repr, Inhabited

inductive IpAddress where
  | v4 (ip : Ipv4)
  | v6 (ip : Ipv6)
  deriving DecidableEq, Repr, Inhabited

/-- An address of a host, which is all of a socket address but the port. -/
inductive HostAddress where
  | v4 (ip : Ipv4)
  | v6 (ip : Ipv6) (scope : UInt32)
  deriving DecidableEq, Repr, Inhabited

structure SocketAddressV4 where
  ip : Ipv4
  port : UInt16
  deriving DecidableEq, Repr, Inhabited

structure SocketAddressV6 where
  ip : Ipv6
  port : UInt16
  /-- The zone of a link-local address, zero if there is none. -/
  scope : UInt32 := 0
  deriving DecidableEq, Repr, Inhabited

inductive SocketAddress where
  | v4 (address : SocketAddressV4)
  | v6 (address : SocketAddressV6)
  deriving DecidableEq, Repr, Inhabited

namespace Ipv4

def text (ip : Ipv4) : List Char :=
  Text.decimal ip.a.toNat ++ '.' :: Text.decimal ip.b.toNat ++ '.' :: Text.decimal ip.c.toNat ++
    '.' :: Text.decimal ip.d.toNat

/-- The two groups that an IPv4 address takes at the end of an IPv6 address. -/
def groups (ip : Ipv4) : List UInt16 :=
  [ip.a.toUInt16 * 256 + ip.b.toUInt16, ip.c.toUInt16 * 256 + ip.d.toUInt16]

def unspecified : Ipv4 := ⟨0, 0, 0, 0⟩

end Ipv4

namespace Ipv6

/-- A run of zero groups: where it starts and how long it is. -/
structure Run where
  start : Nat
  length : Nat

/-- The first of the longest runs of zeros, in a list that starts at position `i`; `current` is
the run that reaches up to there, and `longest` the best one so far. -/
def longestRunFrom : Nat → Run → Run → List UInt16 → Run
  | _, _, longest, [] => longest
  | i, current, longest, g :: groups =>
    if g = 0 then
      let current := if current.length = 0 then ⟨i, 1⟩ else ⟨current.start, current.length + 1⟩
      let longest := if longest.length < current.length then current else longest
      longestRunFrom (i + 1) current longest groups
    else longestRunFrom (i + 1) ⟨0, 0⟩ longest groups

/-- The first of the longest runs of zeros. -/
def longestRun (groups : List UInt16) : Run := longestRunFrom 0 ⟨0, 0⟩ ⟨0, 0⟩ groups

def groupsText : List UInt16 → List Char
  | [] => []
  | [g] => Nat.toDigits 16 g.toNat
  | g :: groups => Nat.toDigits 16 g.toNat ++ ':' :: groupsText groups

/-- The IPv4 address that an IPv6 address wraps. -/
def mapped? (ip : Ipv6) : Option Ipv4 :=
  match ip.groups.toList with
  | [0, 0, 0, 0, 0, 0xFFFF, g, h] =>
    some ⟨(g >>> 8).toUInt8, g.toUInt8, (h >>> 8).toUInt8, h.toUInt8⟩
  | _ => none

/-- The text of an address: a wrapped IPv4 address in its own notation, else hexadecimal groups
with the first longest run of at least two zeros left out. -/
def text (ip : Ipv6) : List Char :=
  match ip.mapped? with
  | some v4 => "::ffff:".toList ++ v4.text
  | none =>
    let groups := ip.groups.toList
    let run := longestRun groups
    if 1 < run.length then
      groupsText (groups.take run.start) ++ "::".toList ++
        groupsText (groups.drop (run.start + run.length))
    else groupsText groups

/-- The address with the given groups, if they are eight. -/
def ofGroups? (groups : List UInt16) : Option Ipv6 :=
  if h : groups.length = 8 then some ⟨⟨groups.toArray, by simpa using h⟩⟩ else none

end Ipv6

namespace IpAddress

def text : IpAddress → List Char
  | v4 ip => ip.text
  | v6 ip => ip.text

/-- The address without a zone. -/
def unzoned : IpAddress → HostAddress
  | v4 ip => .v4 ip
  | v6 ip => .v6 ip 0

/-- The address with a port. -/
def withPort (port : UInt16) : IpAddress → SocketAddress
  | v4 ip => .v4 ⟨ip, port⟩
  | v6 ip => .v6 ⟨ip, port, 0⟩

end IpAddress

namespace HostAddress

def withPort (port : UInt16) : HostAddress → SocketAddress
  | v4 ip => .v4 ⟨ip, port⟩
  | v6 ip scope => .v6 ⟨ip, port, scope⟩

end HostAddress

@[simp] theorem IpAddress.withPort_unzoned (port : UInt16) (ip : IpAddress) :
    ip.unzoned.withPort port = ip.withPort port := by
  cases ip <;> rfl

namespace SocketAddressV4

def text (a : SocketAddressV4) : List Char := a.ip.text ++ ':' :: Text.decimal a.port.toNat

end SocketAddressV4

namespace SocketAddressV6

def text (a : SocketAddressV6) : List Char :=
  '[' :: a.ip.text ++ (if a.scope = 0 then [] else '%' :: Text.decimal a.scope.toNat) ++
    ']' :: ':' :: Text.decimal a.port.toNat

end SocketAddressV6

namespace SocketAddress

def text : SocketAddress → List Char
  | v4 a => a.text
  | v6 a => a.text

instance : ToString SocketAddress := ⟨fun a => String.ofList a.text⟩

def port : SocketAddress → UInt16
  | v4 a => a.port
  | v6 a => a.port

/-- The numbers by which addresses are compared, one after another: IPv4 comes before IPv6, the
IP address before the port, and the zone last. -/
def key : SocketAddress → List Nat
  | v4 a => [0, a.ip.a.toNat, a.ip.b.toNat, a.ip.c.toNat, a.ip.d.toNat, a.port.toNat]
  | v6 a => 1 :: a.ip.groups.toList.map UInt16.toNat ++ [a.port.toNat, a.scope.toNat]

instance : Ord SocketAddress := ⟨fun a b => compare a.key b.key⟩

end SocketAddress

end GameQuery
