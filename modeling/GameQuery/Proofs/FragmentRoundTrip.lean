import GameQuery.Proofs.FragmentCodec
import GameQuery.Proofs.ReaderInversion

namespace GameQuery

/-!
# Fragments there and back

What is written of a fragment is read back exactly if the fragment is well formed. In the other
direction, a datagram that is read as a fragment is written again byte for byte. Only the size,
which nobody reads, becomes the one that servers announce.
-/

open Reader Writer

namespace Fragment

/-- The datagram with the size that servers announce in place of its own. -/
def announce : Framing → List UInt8 → List UInt8
  | .source, s => s.take 10 ++ (leBytes 2 announcedSize.toNat ++ s.drop 12)
  | .goldSrc, s => s

theorem encodes_bytes (f : Fragment) (framing : Framing) :
    Encodes (f.encode framing) (f.bytes framing) := by
  unfold encode
  rw [write_eq]
  exact Writer.encodes_bytes _

theorem decode_bytes_iff {f : Fragment} {framing : Framing} :
    decode framing (f.bytes framing) = .ok f ↔ f.WellFormed framing :=
  ⟨wellFormed_of_decode, WellFormed.decode_bytes⟩

/-! ## Writing what has been read -/

theorem repack : ∀ packed < 256,
    (UInt8.ofNat packed >>> 4 <<< 4) ||| (UInt8.ofNat packed &&& 15 &&& 15) =
      UInt8.ofNat packed := by
  decide +kernel

theorem packed_of_unpacked {f : Fragment} {packed : UInt8} (htotal : packed &&& 15 = f.total)
    (hnumber : packed >>> 4 = f.number) : f.packed = packed := by
  have hrepack := repack packed.toNat packed.toNat_lt
  rw [UInt8.ofNat_toNat] at hrepack
  rw [Fragment.packed, ← htotal, ← hnumber, hrepack]

theorem sizeBytes_of_none {f : Fragment} (h : none = f.compression) (framing : Framing) :
    f.sizeBytes framing = [] := by
  cases framing with
  | source => rw [sizeBytes, ← h, someBytes]
  | goldSrc => rfl

theorem eq_of_readCompression {f : Fragment} {framing : Framing} {s rest : List UInt8}
    (h : readCompression framing f.id f.number s = .ok f.compression rest) :
    s = f.sizeBytes framing ++ rest := by
  unfold readCompression at h
  split at h
  · cases framing with
    | goldSrc => exact absurd h (throw_ne_ok _)
    | source =>
      dsimp only at h
      split at h
      · simp only [bind_eq_ok_iff, u32_eq_ok_iff, pure_eq_ok_iff] at h
        obtain ⟨size, _, rfl, crc32, _, rfl, hcompression, rfl⟩ := h
        rw [sizeBytes, ← hcompression, someBytes, compressionBytes, List.append_assoc]
      · obtain ⟨hnone, rfl⟩ := pure_eq_ok_iff.1 h
        rw [sizeBytes_of_none hnone, List.nil_append]
  · obtain ⟨hnone, rfl⟩ := pure_eq_ok_iff.1 h
    rw [sizeBytes_of_none hnone, List.nil_append]

theorem announce_of_decode {f : Fragment} {framing : Framing} {datagram : List UInt8}
    (h : decode framing datagram = .ok f) : announce framing datagram = f.bytes framing := by
  simp only [decode, decode_eq_ok_iff, read, bind_eq_ok_iff, check_eq_ok_iff, i32_eq_ok_iff,
    rest_eq_ok_iff, pure_eq_ok_iff, not_not] at h
  obtain ⟨_, _, _, rfl, rfl, id, s, rfl, ⟨total, number⟩, t, hnumbers, -, compression, payload,
    hcompression, _, _, ⟨rfl, rfl⟩, rfl, -⟩ := h
  let f : Fragment := { id, number, total, compression, payload }
  have ht : t = f.sizeBytes framing ++ payload := eq_of_readCompression hcompression
  cases framing with
  | source =>
    simp only [readNumbers, bind_eq_ok_iff, u8_eq_ok_iff, u16_eq_ok_iff, pure_eq_ok_iff] at hnumbers
    obtain ⟨_, _, rfl, _, _, rfl, size, _, rfl, ⟨⟩, rfl⟩ := hnumbers
    rw [ht]
    rfl
  | goldSrc =>
    simp only [readNumbers, bind_eq_ok_iff, u8_eq_ok_iff, pure_eq_ok_iff, Prod.mk.injEq] at hnumbers
    obtain ⟨packed, _, rfl, ⟨htotal, hnumber⟩, rfl⟩ := hnumbers
    have hpacked : f.packed = packed := packed_of_unpacked htotal hnumber
    rw [announce, ht, bytes, numberBytes, hpacked]
    rfl

/-- Encoding and decoding a fragment gives it back exactly if it is well formed. Decoding and
encoding a datagram gives it back with the announced size. -/
theorem decode_encode_iff_wellFormed (framing : Framing) (f : Fragment) :
    (∃ s, Encodes (f.encode framing) s ∧ (decode framing s = .ok f ↔ f.WellFormed framing)) ∧
      ∀ datagram, decode framing datagram = .ok f →
        f.WellFormed framing ∧ Encodes (f.encode framing) (announce framing datagram) := by
  constructor
  · exact ⟨_, f.encodes_bytes framing, decode_bytes_iff⟩
  · intro datagram hdatagram
    refine ⟨wellFormed_of_decode hdatagram, ?_⟩
    rw [announce_of_decode hdatagram]
    exact f.encodes_bytes framing

end Fragment

end GameQuery
