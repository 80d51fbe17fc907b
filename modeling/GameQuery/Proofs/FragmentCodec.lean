import GameQuery.Fragment
import GameQuery.Proofs.ReaderLaws
import GameQuery.Proofs.ReplyBytes

namespace GameQuery

/-!
# The bytes of a fragment

A fragment is well formed if its number is one of those that its total allows and it says of the
compression what its id and its number ask for. Well-formed fragments are read back from what is
written of them, and what is read is always well formed.
-/

open Reader

theorem Reader.Reads.bind_pure {α β : Type} {r : Reader α} {s : List UInt8} {a : α}
    (h : Reads r s a) (f : α → β) : Reads (r >>= fun a => pure (f a)) s (f a) := by
  have hpure := h.bind (k := fun a => pure (f a)) (reads_pure (f a))
  rwa [List.append_nil] at hpure

namespace Fragment

/-! ## Writing -/

def compressionBytes (c : Compression) : List UInt8 :=
  leBytes 4 c.size.toNat ++ leBytes 4 c.crc32.toNat

/-- The number and the total in one byte. -/
def packed (f : Fragment) : UInt8 := (f.number <<< 4) ||| (f.total &&& 15)

def numberBytes (f : Fragment) : Framing → List UInt8
  | .source => [f.total] ++ ([f.number] ++ leBytes 2 announcedSize.toNat)
  | .goldSrc => [f.packed]

def sizeBytes (f : Fragment) : Framing → List UInt8
  | .source => someBytes compressionBytes f.compression
  | .goldSrc => []

/-- The datagram that a fragment is sent in. -/
def bytes (f : Fragment) (framing : Framing) : List UInt8 :=
  leBytes 4 fragmentHeader.toUInt32.toNat ++ (leBytes 4 f.id.toUInt32.toNat ++
    (f.numberBytes framing ++ (f.sizeBytes framing ++ f.payload)))

theorem write_eq (f : Fragment) (framing : Framing) :
    f.write framing = Writer.bytes (f.bytes framing) := by
  have hcompression := ExtraData.writeSome_eq (w := writeCompression) (f := compressionBytes)
    (fun c => Writer.bytes_bind_bytes _ _) f.compression
  cases framing with
  | source =>
    simp only [write, bytes, numberBytes, sizeBytes, Writer.i32, Writer.u32, Writer.u16, Writer.u8,
      hcompression, Writer.bytes_bind_bytes, List.append_assoc]
  | goldSrc =>
    simp only [write, bytes, numberBytes, sizeBytes, packed, Writer.i32, Writer.u32, Writer.u8,
      Writer.bytes_bind_bytes, List.nil_append]

/-- What an encoder writes of a fragment, whatever the buffer is, if it fits. -/
theorem encode_eq_ok {f : Fragment} {framing : Framing} {buffer : List UInt8}
    {filled : Writer.Filled} (h : f.encode framing buffer = .ok filled) :
    filled.bytes = f.bytes framing := by
  rw [encode, write_eq] at h
  exact Writer.bytes_of_encode h

/-! ## Reading -/

/-- What can be told of a fragment under a framing. -/
structure WellFormed (f : Fragment) (framing : Framing) : Prop where
  number_lt : f.number < f.total
  total_le : framing = .goldSrc → f.total ≤ 15
  compressed : isCompressedId f.id = true → framing = .source
  compression : f.compression.isSome ↔ isCompressedId f.id = true ∧ f.number = 0

theorem unpack_packed : ∀ number < 16, ∀ total < 16,
    ((UInt8.ofNat number <<< 4) ||| (UInt8.ofNat total &&& 15)) &&& 15 = UInt8.ofNat total ∧
      ((UInt8.ofNat number <<< 4) ||| (UInt8.ofNat total &&& 15)) >>> 4 = UInt8.ofNat number := by
  decide +kernel

theorem WellFormed.unpack {f : Fragment} (h : f.WellFormed .goldSrc) :
    f.packed &&& 15 = f.total ∧ f.packed >>> 4 = f.number := by
  have hnumber := UInt8.lt_iff_toNat_lt.1 h.number_lt
  have htotal : f.total.toNat ≤ 15 := UInt8.le_iff_toNat_le.1 (h.total_le rfl)
  have hpacked := unpack_packed f.number.toNat (by omega) f.total.toNat (by omega)
  rwa [UInt8.ofNat_toNat, UInt8.ofNat_toNat] at hpacked

theorem WellFormed.reads_numbers {f : Fragment} {framing : Framing} (h : f.WellFormed framing) :
    Reads (readNumbers framing) (f.numberBytes framing) (f.total, f.number) := by
  cases framing with
  | source =>
    have hsize := (reads_u16 announcedSize).bind_pure fun _ => (f.total, f.number)
    exact (reads_u8 f.total).bind ((reads_u8 f.number).bind hsize)
  | goldSrc =>
    intro rest
    have hread := (reads_u8 f.packed).run_bind
      (fun packed => pure (packed &&& 15, packed >>> 4)) rest
    rw [h.unpack.1, h.unpack.2] at hread
    exact hread

theorem WellFormed.reads_compression {f : Fragment} {framing : Framing}
    (h : f.WellFormed framing) :
    Reads (readCompression framing f.id f.number) (f.sizeBytes framing) f.compression := by
  unfold readCompression
  cases hid : isCompressedId f.id with
  | false =>
    have hnone : f.compression = none := by
      rw [← Option.not_isSome_iff_eq_none, h.compression, hid]
      simp
    simp only [Bool.false_eq_true, if_false, hnone]
    cases framing with
    | source =>
      rw [sizeBytes, hnone]
      exact reads_pure none
    | goldSrc => exact reads_pure none
  | true =>
    obtain rfl := h.compressed hid
    rw [sizeBytes]
    by_cases hzero : f.number = 0
    · obtain ⟨c, hc⟩ := Option.isSome_iff_exists.1 (h.compression.2 ⟨hid, hzero⟩)
      simp only [hzero, hc, if_true]
      have hcrc := (reads_u32 c.crc32).bind_pure fun crc32 =>
        some ({ size := c.size, crc32 } : Compression)
      exact (reads_u32 c.size).bind hcrc
    · have hnone : f.compression = none := by
        rw [← Option.not_isSome_iff_eq_none, h.compression]
        exact fun hboth => hzero hboth.2
      simp only [hzero, hnone, if_true, if_false]
      exact reads_pure none

theorem WellFormed.decode_bytes {f : Fragment} {framing : Framing} (h : f.WellFormed framing) :
    decode framing (f.bytes framing) = .ok f := by
  have hallowed : ¬(f.total = 0 ∨ f.total ≤ f.number) := by
    have hlt := UInt8.lt_iff_toNat_lt.1 h.number_lt
    rintro (hzero | hle)
    · rw [hzero] at hlt
      cases hlt
    · exact absurd (UInt8.le_iff_toNat_le.1 hle) (Nat.not_le.2 hlt)
  have hread : read framing (f.bytes framing) = .ok f [] := by
    rw [read, bytes, (reads_i32 fragmentHeader).run_bind]
    simp only [ne_eq, not_true_eq_false, if_false]
    rw [(reads_i32 f.id).run_bind, h.reads_numbers.run_bind]
    simp only [hallowed, if_false]
    rw [h.reads_compression.run_bind]
    rfl
  rw [decode, Reader.decode, hread]

theorem yields_readNumbers (framing : Framing) :
    Yields (readNumbers framing) fun numbers => framing = .goldSrc → numbers.1 ≤ 15 := by
  cases framing with
  | source =>
    refine (yields_true _).bind fun total _ => (yields_true _).bind fun number _ => ?_
    exact (yields_true _).bind fun size _ => yields_pure nofun
  | goldSrc =>
    refine (yields_true _).bind fun packed _ => yields_pure fun _ => ?_
    rw [UInt8.le_iff_toNat_le, UInt8.toNat_and]
    exact Nat.and_le_right

theorem yields_readCompression (framing : Framing) (id : Int32) (number : UInt8) :
    Yields (readCompression framing id number) fun compression =>
      (isCompressedId id = true → framing = .source) ∧
        (compression.isSome ↔ isCompressedId id = true ∧ number = 0) := by
  unfold readCompression
  cases isCompressedId id with
  | false => exact yields_pure (by simp)
  | true =>
    cases framing with
    | goldSrc => exact yields_throw _
    | source =>
      simp only [if_true]
      split
      · next hzero =>
        refine (yields_true _).bind fun size _ => (yields_true _).bind fun crc32 _ => ?_
        exact yields_pure (by simp [hzero])
      · next hother => exact yields_pure (by simp [hother])

theorem yields_throw_bind {α β : Type} (e : CodecError) (k : α → Reader β) (P : β → Prop) :
    Yields (throw e >>= k) P :=
  (yields_throw (P := fun _ => False) e).bind fun _ h => h.elim

theorem yields_read (framing : Framing) :
    Yields (read framing) fun f : Fragment => f.WellFormed framing := by
  refine (yields_true _).bind fun header _ => ?_
  split
  · exact yields_throw_bind _ _ _
  · refine (yields_true _).bind fun id _ => (yields_readNumbers framing).bind ?_
    rintro ⟨total, number⟩ htotal
    simp only
    split
    · exact yields_throw_bind _ _ _
    · next hallowed =>
      refine (yields_readCompression framing id number).bind fun compression hcompression => ?_
      refine (yields_true _).bind fun payload _ => yields_pure ?_
      have hlt : number < total := UInt8.not_le.1 fun hle => hallowed (.inr hle)
      exact ⟨hlt, htotal, hcompression.1, hcompression.2⟩

theorem wellFormed_of_decode {f : Fragment} {framing : Framing} {datagram : List UInt8}
    (h : decode framing datagram = .ok f) : f.WellFormed framing :=
  yields_of_decode (yields_read framing) h

end Fragment

end GameQuery
