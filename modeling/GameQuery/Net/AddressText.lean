import GameQuery.Net.Address
import GameQuery.Text.Reader

namespace GameQuery

/-!
# Reading addresses

The strict notation of addresses: four decimal numbers without leading zeros, or hexadecimal
groups of at most four digits with at most one gap, the last two of which may be an IPv4 address.
-/

namespace TextReader

/-- A decimal number below `bound`. -/
def decimal (bound : Nat) : TextReader Nat := fun cs =>
  let digits := cs.takeWhile Char.isDigit
  let n := Text.decimalValue digits
  if digits ≠ [] ∧ n < bound then some (n, cs.drop digits.length) else none

/-- A byte: at most three digits, and no leading zero. -/
def octet : TextReader UInt8 := fun cs =>
  let digits := cs.takeWhile Char.isDigit
  let n := Text.decimalValue digits
  if digits ≠ [] ∧ digits.length ≤ 3 ∧ (digits.head? = some '0' → digits.length = 1) ∧ n < 256 then
    some (UInt8.ofNat n, cs.drop digits.length)
  else none

def ipv4 : TextReader Ipv4 := do
  let a ← octet
  char '.'
  let b ← octet
  char '.'
  let c ← octet
  char '.'
  let d ← octet
  return ⟨a, b, c, d⟩

/-- A group of one to four hexadecimal digits. -/
def group : TextReader UInt16 := fun cs =>
  let digits := cs.takeWhile fun c => (hexDigit? c).isSome
  if digits ≠ [] ∧ digits.length ≤ 4 then
    some (UInt16.ofNat (hexValue digits), cs.drop digits.length)
  else none

/-- Reads a value behind a colon, or without one if it is the first. -/
def afterColon {α : Type} (isFirst : Bool) (r : TextReader α) : TextReader α :=
  if isFirst then r else do
    char ':'
    r

/-- As many groups as there are, up to a limit, and whether an IPv4 address stands for the last
two. -/
def groups (isFirst : Bool) : Nat → TextReader (List UInt16 × Bool)
  | 0 => pure ([], false)
  | left + 1 => do
    let v4 ← if left = 0 then pure none else attempt (afterColon isFirst ipv4)
    match v4 with
    | some ip => return (ip.groups, true)
    | none =>
      match ← attempt (afterColon isFirst group) with
      | none => return ([], false)
      | some g =>
        let (gs, mapped) ← groups false left
        return (g :: gs, mapped)

/-- At least one group is left out at a gap. -/
def ipv6 : TextReader Ipv6 := do
  let (head, mapped) ← groups true 8
  if head.length = 8 then Ipv6.ofGroups? head
  else if mapped then failure
  else
    char ':'
    char ':'
    let (tail, _) ← groups true (7 - head.length)
    Ipv6.ofGroups? (head ++ List.replicate (8 - head.length - tail.length) 0 ++ tail)

def ip : TextReader IpAddress := fun cs =>
  match ipv4 cs with
  | some (a, rest) => some (.v4 a, rest)
  | none => (ipv6 cs).map fun (a, rest) => (.v6 a, rest)

def port : TextReader UInt16 := do
  char ':'
  UInt16.ofNat <$> decimal UInt16.size

def socketV4 : TextReader SocketAddressV4 := do
  let ip ← ipv4
  let port ← port
  return ⟨ip, port⟩

def scope : TextReader UInt32 := do
  char '%'
  UInt32.ofNat <$> decimal UInt32.size

def socketV6 : TextReader SocketAddressV6 := do
  char '['
  let ip ← ipv6
  let scope ← attempt scope
  char ']'
  let port ← port
  return ⟨ip, port, scope.getD 0⟩

def socket : TextReader SocketAddress := fun cs =>
  match socketV4 cs with
  | some (a, rest) => some (.v4 a, rest)
  | none => (socketV6 cs).map fun (a, rest) => (.v6 a, rest)

end TextReader

/-- Reads an IP address. -/
def IpAddress.parse? (text : List Char) : Option IpAddress := TextReader.ip.whole text

/-- Reads an IPv4 address with a port. -/
def SocketAddressV4.parse? (text : List Char) : Option SocketAddressV4 :=
  TextReader.socketV4.whole text

/-- Reads an address with a port. An IPv6 address stands in brackets. -/
def SocketAddress.parse? (text : List Char) : Option SocketAddress := TextReader.socket.whole text

end GameQuery
