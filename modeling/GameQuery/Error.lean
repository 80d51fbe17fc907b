import GameQuery.Text.Numeral

namespace GameQuery

/-!
# Codec errors

Why a packet could not be read or written, and the sentence that says so.
-/

/-- Why a packet could not be read or written. -/
inductive CodecError where
  /-- The bytes do not have the form of the packet. -/
  | malformed
  /-- A datagram starts with another number than the one expected. -/
  | badHeader (header : Int32)
  /-- The type byte of a reply is not known. -/
  | unknownKind (kind : UInt8)
  /-- The numbers of a fragment do not fit together. -/
  | badFragment
  /-- The size of a console frame is out of range. -/
  | badFrameSize (size : Int32)
  /-- A byte names no region. -/
  | unknownRegion
  /-- A decompressed reply has another checksum than announced. -/
  | checksumMismatch (expected actual : UInt32)
  /-- A decompressed reply has another size than announced. -/
  | sizeMismatch (expected actual : UInt32)
  /-- A compressed reply cannot be decompressed. -/
  | damaged
  /-- A text is not UTF-8. -/
  | badText
  /-- A fixed part of the packet is missing. -/
  | literalMissing
  /-- Bytes follow the packet. -/
  | trailingBytes
  /-- The buffer ends before the packet does. -/
  | endOfBuffer
  deriving DecidableEq, Repr

namespace CodecError

/-- A 32-bit word as `0x` and eight hexadecimal digits. -/
def hexWord (n : UInt32) : String := "0x" ++ String.ofList (Text.hex 8 n.toNat)

def message : CodecError → String
  | malformed => "Invalid packet"
  | badHeader h => "Invalid packet header " ++ hexWord h.toUInt32
  | unknownKind k => "Unknown packet type 0x" ++ String.ofList (Text.hex 2 k.toNat)
  | badFragment => "Invalid split packet"
  | badFrameSize n => "Invalid RCON frame size " ++ String.ofList (Text.signedDecimal n.toInt)
  | unknownRegion => "Invalid region"
  | checksumMismatch expected actual =>
    "Checksum mismatch (expected " ++ hexWord expected ++ ", got " ++ hexWord actual ++ ")"
  | sizeMismatch expected actual =>
    "Decompressed size mismatch (expected " ++ String.ofList (Text.decimal expected.toNat) ++
      ", got " ++ String.ofList (Text.decimal actual.toNat) ++ ")"
  | damaged => "Failed to decompress payload"
  | badText => "Invalid string"
  | literalMissing => "Expected data not found"
  | trailingBytes => "Unexpected data"
  | endOfBuffer => "Unexpected end of buffer"

/-- Whether the whole payload arrived, but its content is damaged. -/
def isCorrupt : CodecError → Bool
  | checksumMismatch .. | sizeMismatch .. | damaged => true
  | _ => false

end CodecError

end GameQuery
