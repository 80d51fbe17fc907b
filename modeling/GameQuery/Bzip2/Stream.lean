import GameQuery.Bzip2.Text
import GameQuery.Compression

namespace GameQuery.Bzip2

/-!
# Streams

A stream is a header, blocks and a trailer with a checksum of the blocks' checksums. Decoding
answers the bytes that a stream yields and how it ends. What follows the trailer is not read.
-/

/-- How a stream ends. -/
inductive Ending where
  /-- With its trailer. -/
  | clean
  /-- Before its trailer. -/
  | truncated
  /-- With something that no stream holds. -/
  | damaged
  deriving DecidableEq, Repr

/-- The bytes that a stream yields, and how it ends after them. -/
structure Yield where
  bytes : ByteArray
  ending : Ending

def Fault.ending : Fault → Ending
  | truncated => .truncated
  | damaged => .damaged

/-- What comes next in a stream. -/
inductive Part where
  | block (block : Block)
  | trailer (checksum : UInt32)

/-- The mark of a block, after its first byte. -/
def blockMark : List Nat := [0x41, 0x59, 0x26, 0x53, 0x59]

/-- The mark of the trailer, after its first byte. -/
def trailerMark : List Nat := [0x72, 0x45, 0x38, 0x50, 0x90]

/-- Reads the size of blocks from the header. -/
def header : BitReader Nat := do
  BitReader.literal [0x42, 0x5A, 0x68]
  let level ← BitReader.bits 8
  if level < 0x31 ∨ 0x39 < level then throw .damaged
  return 100000 * (level - 0x30)

/-- Reads the next part. -/
def part (capacity : Nat) : BitReader Part := do
  let mark ← BitReader.bits 8
  if mark = 0x31 then
    BitReader.literal blockMark
    return .block (← Block.read capacity)
  else if mark = 0x17 then
    BitReader.literal trailerMark
    return .trailer (UInt32.ofNat (← BitReader.bits 32))
  else throw .damaged

/-- Adds the checksum of a block to that of a stream. -/
def combine (stream block : UInt32) : UInt32 := ((stream <<< 1) ||| (stream >>> 31)) ^^^ block

/-- Decodes parts from a position on. It may stop as soon as more than `enough` bytes are out. -/
def parts (data : ByteArray) (capacity enough : Nat) : Nat → Nat → UInt32 → ByteArray → Yield
  | 0, _, _, bytes => ⟨bytes, .truncated⟩
  | fuel + 1, position, checksum, bytes =>
    match (part capacity).run data position with
    | .error fault => ⟨bytes, fault.ending⟩
    | .ok (.trailer stored, _) => ⟨bytes, if checksum = stored then .clean else .damaged⟩
    | .ok (.block block, position) =>
      match block.putOut enough bytes with
      | .error out => ⟨out.bytes, .damaged⟩
      | .ok out =>
        if enough < out.bytes.size then ⟨out.bytes, .truncated⟩
        else if ~~~out.checksum ≠ block.checksum then ⟨out.bytes, .damaged⟩
        else parts data capacity enough fuel position (combine checksum block.checksum) out.bytes

/-- What a stream yields. The bytes after the first `enough + 1` may be missing, and then the
ending means nothing. -/
def decode (data : ByteArray) (enough : Nat) : Yield :=
  match header.run data 0 with
  | .error fault => ⟨ByteArray.empty, fault.ending⟩
  | .ok (capacity, position) =>
    parts data capacity enough (data.size + 1) position 0 ByteArray.empty

/-- Whether a stream is refused that yields `y` before its end, given that no more than
`wanted` bytes are asked for. Damage shows as soon as the bytes before it are out, the lack of
input only when more bytes are asked for. -/
def Yield.isRefused (y : Yield) (wanted : Nat) : Bool :=
  match y.ending with
  | .clean => false
  | .truncated => y.bytes.size < wanted
  | .damaged => y.bytes.size ≤ wanted

/-- The first `wanted` bytes that a stream yields, or all if there are fewer. -/
def read (data : List UInt8) (wanted : Nat) : Option (List UInt8) :=
  let y := decode ⟨data.toArray⟩ wanted
  if y.isRefused wanted then none else some (y.bytes.data.toList.take wanted)

/-- Streams with the checksum that replies announce. -/
def unpacker : Unpacker where
  read
  checksum := crc32

end GameQuery.Bzip2
