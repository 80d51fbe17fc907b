import GameQuery.Listing.Query

namespace GameQuery

/-!
# Pages of a master server

A master server answers with pages of addresses, six bytes each. Only the last page has the
sentinel, behind all addresses.
-/

namespace Page

def start : List UInt8 := [0xFF, 0xFF, 0xFF, 0xFF, 0x66, 0x0A]

/-- The addresses in a byte string, six bytes each. -/
def addresses : List UInt8 → List SocketAddressV4
  | a :: b :: c :: d :: high :: low :: rest =>
    ⟨⟨a, b, c, d⟩, high.toUInt16 * 256 + low.toUInt16⟩ :: addresses rest
  | _ => []

/-- Reads the addresses of a page, the sentinel included. -/
def read : Reader (List SocketAddressV4) := do
  Reader.literal start
  let entries ← Reader.rest
  if entries.length % 6 ≠ 0 then throw .malformed
  return addresses entries

def decode (s : List UInt8) : Except CodecError (List SocketAddressV4) := Reader.decode read s

def writeAddress (a : SocketAddressV4) : Writer Unit := do
  Writer.bytes [a.ip.a, a.ip.b, a.ip.c, a.ip.d]
  Writer.port a.port

/-- Writes addresses as long as two of them fit. The answer is what is left, and whether the list
has come to its end. -/
def writeAddresses : List SocketAddressV4 → Writer (List SocketAddressV4 × Bool)
  | [] => do
    if (← Writer.room) < 12 then return ([], false)
    return ([], true)
  | a :: rest => do
    if (← Writer.room) < 12 then return (a :: rest, false)
    writeAddress a
    writeAddresses rest

/-- Writes a page and, at the end of the list, the sentinel. -/
def write (servers : List SocketAddressV4) : Writer (List SocketAddressV4 × Bool) := do
  Writer.bytes start
  let (rest, isEnd) ← writeAddresses servers
  if isEnd then writeAddress sentinel
  return (rest, isEnd)

/-- Writes the next page of a list over the front of `buffer`. The answer is what is left of the
list, and whether this is the last page. A page that does not fit leaves the list as it is. -/
def encode (servers : List SocketAddressV4) (buffer : List UInt8) :
    Except CodecError ((List SocketAddressV4 × Bool) × Writer.Filled) :=
  (write servers).fill buffer

end Page

end GameQuery
