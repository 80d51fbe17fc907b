import GameQuery.Error

namespace GameQuery

/-!
# Compressed replies

A compressed reply announces the size and the checksum of its content. Decompression stops one
byte behind the announced size, which is enough to see that there is more. The decoder and the
checksum are parameters: a reply is delivered or refused by what they answer, whatever they are.
-/

/-- What a compressed reply announces about its content. -/
structure Compression where
  size : UInt32
  crc32 : UInt32
  deriving DecidableEq, Repr

/-- A decoder of compressed data, and a checksum of what comes out. -/
structure Unpacker where
  /-- Decodes data until they end or a number of bytes is out. There is no answer if the data turn
  out to be damaged. -/
  read : List UInt8 → Nat → Option (List UInt8)
  checksum : List UInt8 → UInt32

/-- The content of a compressed reply. -/
def decompress (u : Unpacker) (data : List UInt8) (c : Compression) :
    Except CodecError (List UInt8) :=
  match u.read data (c.size.toNat + 1) with
  | none => .error .damaged
  | some content =>
    if content.length ≠ c.size.toNat then
      .error (.sizeMismatch c.size (UInt32.ofNat content.length))
    else if u.checksum content ≠ c.crc32 then
      .error (.checksumMismatch c.crc32 (u.checksum content))
    else .ok content

end GameQuery
