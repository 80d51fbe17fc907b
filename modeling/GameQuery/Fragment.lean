import GameQuery.Bytes.Reader
import GameQuery.Bytes.Writer
import GameQuery.Compression
import GameQuery.Reply

namespace GameQuery

/-!
# Fragments

A reply that does not fit a datagram is cut into numbered fragments with a common id. The two
engines number them in different ways, and only one compresses.
-/

/-- How the numbers of a fragment are laid out. -/
inductive Framing where
  /-- A byte for the total, one for the number, and a size that nobody reads. -/
  | source
  /-- The number and the total share a byte. -/
  | goldSrc
  deriving DecidableEq, Repr, Inhabited

/-- A fragment of a reply. -/
structure Fragment where
  /-- The id that the fragments of a reply share. -/
  id : Int32
  number : UInt8
  total : UInt8
  /-- Stands in the first fragment of a compressed reply. -/
  compression : Option Compression
  payload : List UInt8
  deriving DecidableEq, Repr

/-- Whether the fragments with this id carry a compressed reply: its highest bit says so. -/
def isCompressedId (id : Int32) : Bool := id < 0

namespace Fragment

/-- The size of fragments that servers announce. -/
def announcedSize : UInt16 := 1248

/-- Reads the total and the number. -/
def readNumbers : Framing → Reader (UInt8 × UInt8)
  | .source => do
    let total ← Reader.u8
    let number ← Reader.u8
    let _ ← Reader.u16
    return (total, number)
  | .goldSrc => do
    let packed ← Reader.u8
    return (packed &&& 15, packed >>> 4)

/-- Reads the compression header that belongs to a fragment. -/
def readCompression (framing : Framing) (id : Int32) (number : UInt8) :
    Reader (Option Compression) :=
  if isCompressedId id then
    match framing with
    | .goldSrc => throw .badFragment
    | .source =>
      if number = 0 then do
        let size ← Reader.u32
        let crc32 ← Reader.u32
        return some { size, crc32 }
      else return none
  else return none

def read (framing : Framing) : Reader Fragment := do
  let header ← Reader.i32
  if header ≠ fragmentHeader then throw (.badHeader header)
  let id ← Reader.i32
  let (total, number) ← readNumbers framing
  if total = 0 ∨ total ≤ number then throw .badFragment
  let compression ← readCompression framing id number
  let payload ← Reader.rest
  return { id, number, total, compression, payload }

/-- Reads a fragment from a whole datagram. -/
def decode (framing : Framing) (s : List UInt8) : Except CodecError Fragment :=
  Reader.decode (read framing) s

def writeCompression (c : Compression) : Writer Unit := do
  Writer.u32 c.size
  Writer.u32 c.crc32

def write (f : Fragment) (framing : Framing) : Writer Unit := do
  Writer.i32 fragmentHeader
  Writer.i32 f.id
  match framing with
  | .source => do
    Writer.u8 f.total
    Writer.u8 f.number
    Writer.u16 announcedSize
    ExtraData.writeSome writeCompression f.compression
  | .goldSrc => Writer.u8 ((f.number <<< 4) ||| (f.total &&& 15))
  Writer.bytes f.payload

/-- Writes a fragment over the front of `buffer`. -/
def encode (f : Fragment) (framing : Framing) (buffer : List UInt8) :
    Except CodecError Writer.Filled :=
  (f.write framing).encode buffer

end Fragment

end GameQuery
