import GameQuery.Bytes.Reader
import GameQuery.Bytes.Writer
import GameQuery.Net.AddressText
import GameQuery.Region

namespace GameQuery

/-!
# Requests to a master server

A client asks for the servers of a region that pass a filter, from behind a cursor: the last
address it has.
-/

/-- The address that stands for the start and for the end of a list. -/
def sentinel : SocketAddressV4 := ⟨Ipv4.unspecified, 0⟩

/-- Asks for the next page of a list of servers. -/
structure ListingQuery where
  region : Region
  /-- The last address of the page before. -/
  last : SocketAddressV4
  filter : String
  deriving DecidableEq, Repr

namespace ListingQuery

/-- Some clients end the filter without a NUL. -/
def dropNul (s : List UInt8) : List UInt8 := if s.getLast? = some 0 then s.dropLast else s

def read : Reader ListingQuery := do
  Reader.literal [0x31]
  let byte ← Reader.u8
  match Region.ofByte? byte with
  | none => throw .unknownRegion
  | some region =>
    let last ← Reader.textUntilNul
    let filter ← Reader.rest
    match SocketAddressV4.parse? last.toList, Text.Utf8.decode? (dropNul filter) with
    | some last, some filter => return { region, last, filter }
    | _, _ => throw .malformed

def decode (s : List UInt8) : Except CodecError ListingQuery := Reader.decode read s

def write (q : ListingQuery) : Writer Unit := do
  Writer.u8 0x31
  Writer.u8 q.region.toByte
  Writer.chars q.last.text
  Writer.u8 0
  Writer.text q.filter
  Writer.u8 0

def encode (q : ListingQuery) (buffer : List UInt8) : Except CodecError Writer.Filled :=
  q.write.encode buffer

end ListingQuery

end GameQuery
