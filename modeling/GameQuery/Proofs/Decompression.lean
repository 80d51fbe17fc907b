import GameQuery.Compression
import Mathlib.Data.List.Basic

namespace GameQuery

/-!
# Decompression delivers what was announced

A decoder makes bytes of its data, and the data end there or turn out to be damaged. Decompression
reads at most one byte more than announced, and damage behind that byte may stay hidden. A content
of the announced size ends before it, so it is delivered exactly if the decoder yields it with a
clean end.
-/

/-- What a decoder makes of data: the bytes it yields, and whether they end cleanly. -/
structure Decoding where
  bytes : List UInt8
  isClean : Bool

/-- The reads of an unpacker are reads from a decoder. -/
structure Unpacker.Reads (u : Unpacker) (decoder : List UInt8 → Decoding) : Prop where
  /-- A limit cuts the bytes off. -/
  start : ∀ data wanted content,
    u.read data wanted = some content → content = (decoder data).bytes.take wanted
  /-- Data that end cleanly are never refused. -/
  clean : ∀ data wanted, (decoder data).isClean = true → u.read data wanted ≠ none
  /-- Damage shows if more bytes are wanted than stand before it. -/
  damaged : ∀ data wanted, (decoder data).isClean = false →
    (decoder data).bytes.length < wanted → u.read data wanted = none

/-- A decoding is clean and yields what has been announced. -/
structure Decoding.IsIntact (d : Decoding) (u : Unpacker) (c : Compression) : Prop where
  isClean : d.isClean = true
  size : d.bytes.length = c.size.toNat
  checksum : u.checksum d.bytes = c.crc32

instance (d : Decoding) (u : Unpacker) (c : Compression) : Decidable (d.IsIntact u c) :=
  decidable_of_iff (d.isClean = true ∧ d.bytes.length = c.size.toNat ∧
      u.checksum d.bytes = c.crc32)
    ⟨fun h => ⟨h.1, h.2.1, h.2.2⟩, fun h => ⟨h.isClean, h.size, h.checksum⟩⟩

/-- The ways in which a content can fall short of what has been announced. -/
inductive Compression.Flaw (c : Compression) : CodecError → Prop
  | damaged : Flaw c .damaged
  | size {actual : UInt32} (h : actual ≠ c.size) : Flaw c (.sizeMismatch c.size actual)
  | checksum {actual : UInt32} (h : actual ≠ c.crc32) :
    Flaw c (.checksumMismatch c.crc32 actual)

variable {u : Unpacker} {decoder : List UInt8 → Decoding} {c : Compression} {data : List UInt8}

theorem decompress_of_isIntact (hu : u.Reads decoder) (h : (decoder data).IsIntact u c) :
    decompress u data c = .ok (decoder data).bytes := by
  have hsome := hu.clean data (c.size.toNat + 1) h.isClean
  obtain ⟨content, hread⟩ := Option.ne_none_iff_exists'.1 hsome
  have hcontent : content = (decoder data).bytes := by
    rw [hu.start _ _ _ hread, List.take_of_length_le (Nat.le_succ_of_le (Nat.le_of_eq h.size))]
  rw [decompress, hread, hcontent]
  simp only [h.size, h.checksum, ne_eq, not_true_eq_false, if_false]

theorem decompress_of_not_isIntact (hu : u.Reads decoder) (h : ¬ (decoder data).IsIntact u c) :
    ∃ e, decompress u data c = .error e ∧ c.Flaw e := by
  rw [decompress]
  cases hread : u.read data (c.size.toNat + 1) with
  | none => exact ⟨_, rfl, .damaged⟩
  | some content =>
    have hcontent := hu.start _ _ _ hread
    have hlength : content.length = min (c.size.toNat + 1) (decoder data).bytes.length := by
      rw [hcontent, List.length_take]
    by_cases hsize : content.length = c.size.toNat
    · -- everything was read, so an end that is not clean would have shown
      have hall : (decoder data).bytes.length = c.size.toNat := by omega
      have hclean : (decoder data).isClean = true := by
        by_contra hdamaged
        have hnone := hu.damaged data (c.size.toNat + 1) (Bool.eq_false_iff.2 hdamaged) (by omega)
        cases hnone.symm.trans hread
      have hbytes : content = (decoder data).bytes := by
        rw [hcontent, List.take_of_length_le (by omega)]
      have hchecksum : u.checksum content ≠ c.crc32 := by
        intro heq
        rw [hbytes] at heq
        exact h ⟨hclean, hall, heq⟩
      refine ⟨.checksumMismatch c.crc32 (u.checksum content), ?_, .checksum hchecksum⟩
      simp only [hsize, hchecksum, ne_eq, not_true_eq_false, not_false_eq_true, if_false, if_true]
    · refine ⟨.sizeMismatch c.size (UInt32.ofNat content.length), ?_, .size fun heq => ?_⟩
      · simp only [hsize, ne_eq, not_false_eq_true, if_true]
      · -- at most one byte more than announced comes out, so the reported size does not wrap to it
        have hmod : content.length % 2 ^ 32 = c.size.toNat :=
          (UInt32.toNat_ofNat' ..).symm.trans (congrArg UInt32.toNat heq)
        have hlt := c.size.toNat_lt
        omega

theorem decompress_eq_ok_iff (hu : u.Reads decoder) {out : List UInt8} :
    decompress u data c = .ok out ↔
      (decoder data).IsIntact u c ∧ out = (decoder data).bytes := by
  by_cases h : (decoder data).IsIntact u c
  · rw [decompress_of_isIntact hu h, Except.ok.injEq, eq_comm, and_iff_right h]
  · obtain ⟨e, he, -⟩ := decompress_of_not_isIntact hu h
    rw [he]
    exact iff_of_false nofun fun hboth => h hboth.1

end GameQuery
