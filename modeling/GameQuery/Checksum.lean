namespace GameQuery

/-!
# Checksums

The two cyclic redundancy checks over the polynomial 0x04C11DB7: the one that feeds the low bit of
each byte first, which replies announce, and the one that feeds the high bit first, which bzip2
streams carry.
-/

/-- Divides out one bit, low bit first. -/
def crcShiftRight (crc : UInt32) : UInt32 :=
  if crc &&& 1 = 1 then (crc >>> 1) ^^^ 0xEDB88320 else crc >>> 1

/-- Divides out one bit, high bit first. -/
def crcShiftLeft (crc : UInt32) : UInt32 :=
  if crc &&& 0x80000000 = 0 then crc <<< 1 else (crc <<< 1) ^^^ 0x04C11DB7

/-- Applies `f` eight times, once for each bit of a byte. -/
@[inline] def eightTimes (f : UInt32 → UInt32) (crc : UInt32) : UInt32 :=
  f (f (f (f (f (f (f (f crc)))))))

/-- Feeds one byte, low bit first. -/
def crcByteRight (crc : UInt32) (b : UInt8) : UInt32 :=
  eightTimes crcShiftRight (crc ^^^ b.toUInt32)

/-- Feeds one byte, high bit first. -/
def crcByteLeft (crc : UInt32) (b : UInt8) : UInt32 :=
  eightTimes crcShiftLeft (crc ^^^ (b.toUInt32 <<< 24))

/-- The checksum of a decompressed reply. -/
def crc32 (s : List UInt8) : UInt32 := ~~~(s.foldl crcByteRight 0xFFFFFFFF)

example : crc32 [0x31, 0x32, 0x33, 0x34, 0x35, 0x36, 0x37, 0x38, 0x39] = 0xCBF43926 := by
  decide +kernel

end GameQuery
