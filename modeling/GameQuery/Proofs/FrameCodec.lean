import GameQuery.Proofs.ConsoleAnswer
import GameQuery.Proofs.ReaderInversion

namespace GameQuery.Rcon

/-!
# Frames and what is read of them

A server reads nothing as a request but the bytes that a client writes of it. A client is less
strict with the replies, and gets back each reply that a server can build. In both directions a body
that is too long is never sent.
-/

open Reader Writer

/-! ## Sizes -/

theorem frameSize_eq_ok {start : List UInt8} {size : Nat} (hlength : start.length = 4)
    (h : frameSize start = .ok size) :
    size ≤ maxFrameSize ∧ start = leBytes 4 (UInt32.ofNat size).toNat := by
  have hlt := leValue_lt start
  have hstart := leBytes_leValue start
  rw [hlength] at hlt hstart
  rw [frameSize, checkSize] at h
  split at h
  · next hsize =>
    cases h
    have hint : (UInt32.ofNat (leValue start)).toInt32.toInt =
        (leValue start : Int).bmod (2 ^ 32) := Int32.toInt_ofNat
    have hnat : (UInt32.ofNat (leValue start)).toInt32.toInt.toNat = leValue start := by
      rw [hint, Int.bmod_def] at hsize ⊢
      simp only [minFrameSize, maxFrameSize] at hsize
      omega
    rw [hnat]
    constructor
    · omega
    · rw [UInt32.toNat_ofNat_of_lt' hlt, hstart]
  · cases h

theorem maxFrameSize_lt_iff {body : List UInt8} :
    maxFrameSize < body.length + minFrameSize ↔ maxBodySize < body.length := by
  simp only [maxBodySize, maxFrameSize, minFrameSize]
  omega

theorem encodes_writeFrame (id kind : Int32) {body : List UInt8} (h : body.length ≤ maxBodySize) :
    Encodes (writeFrame id kind body).encode (frameBytes id kind body) := by
  rw [writeFrame_eq, if_neg (mt maxFrameSize_lt_iff.1 (Nat.not_lt.2 h))]
  exact encodes_bytes _

theorem encode_writeFrame_tooLong (id kind : Int32) {body : List UInt8}
    (h : maxBodySize < body.length) (buffer : List UInt8) :
    (writeFrame id kind body).encode buffer =
      .error (.badFrameSize (Int32.ofNat (body.length + minFrameSize))) := by
  rw [writeFrame_eq, if_pos (maxFrameSize_lt_iff.2 h)]
  rfl

/-! ## Requests -/

namespace Request

theorem read_eq_ok_iff {s rest : List UInt8} {p : Request} :
    read s = .ok p rest ↔ '\x00' ∉ p.body.toList ∧
      (Text.Utf8.encode p.body).length ≤ maxBodySize ∧ s = p.bytes ∧ rest = [] := by
  simp only [read, bind_eq_ok_iff, bytes_eq_ok_iff, get_eq_ok_iff]
  constructor
  · rintro ⟨start, t, ⟨hlength, rfl⟩, _, _, ⟨rfl, rfl⟩, h⟩
    cases hsize : frameSize start with
    | error e =>
      rw [hsize] at h
      exact absurd h (throw_ne_ok _)
    | ok size =>
      simp only [hsize, check_eq_ok_iff, bind_eq_ok_iff, i32_eq_ok_iff, textUntilNul_eq_ok_iff,
        literal_eq_ok_iff, finish_eq_ok_iff, pure_eq_ok_iff, not_not] at h
      obtain ⟨rfl, id, _, rfl, kind, _, rfl, body, _, ⟨hnul, rfl⟩, _, _, rfl, _, _, ⟨rfl, rfl⟩, rfl,
        rfl⟩ := h
      obtain ⟨hmax, hstart⟩ := frameSize_eq_ok hlength hsize
      rw [List.append_nil, length_payload] at hmax hstart
      refine ⟨hnul, ?_, ?_, rfl⟩
      · rw [maxBodySize]
        exact Nat.le_sub_of_add_le hmax
      · rw [hstart]
        rfl
  · rintro ⟨hnul, hfits, rfl, rfl⟩
    refine ⟨_, _, ⟨length_leBytes 4 _, rfl⟩, _, _, ⟨rfl, rfl⟩, ?_⟩
    rw [frameSize_of_fits hfits]
    simp only [check_eq_ok_iff, bind_eq_ok_iff, i32_eq_ok_iff, textUntilNul_eq_ok_iff,
      literal_eq_ok_iff, finish_eq_ok_iff, pure_eq_ok_iff, not_not]
    exact ⟨(length_payload _ _ _).symm, p.id, _, rfl, p.kind, _, rfl, p.body, _, ⟨hnul, rfl⟩, (), _,
      rfl, (), _, ⟨rfl, rfl⟩, rfl, rfl⟩

/-- Nothing is written of a body that is too long, so an encoded request is one that fits. -/
theorem decode_eq_ok_iff {s : List UInt8} {p : Request} :
    decode s = .ok p ↔ '\x00' ∉ p.body.toList ∧
      (Text.Utf8.encode p.body).length ≤ maxBodySize ∧ Encodes p.encode s := by
  rw [decode, Reader.decode_eq_ok_iff]
  simp only [read_eq_ok_iff, exists_and_left, exists_eq, and_true]
  apply and_congr_right
  intro _
  apply and_congr_right
  intro hfits
  have hbytes : Encodes p.encode p.bytes := encodes_writeFrame p.id p.kind hfits
  exact hbytes.eq_iff

end Request

/-- Exactly the bytes of a request without a NUL and of a size that fits are read as it. Each reply
that a server can build is read back, whether it is an echo or not. Longer bodies are not sent. -/
theorem frames_read_as_sent :
    (∀ (s : List UInt8) (p : Request), Request.decode s = .ok p ↔ '\x00' ∉ p.body.toList ∧
      (Text.Utf8.encode p.body).length ≤ maxBodySize ∧ Encodes p.encode s) ∧
    (∀ (id : Int32) (kind : ReplyKind) (body : String), '\x00' ∉ body.toList →
      (Text.Utf8.encode body).length ≤ maxBodySize →
        ∃ s, Encodes (Reply.encode { id, kind, body }) s ∧ IsFrame s { id, kind, body }) ∧
    (∀ id : Int32, ∃ s, Encodes (Reply.terminatorEcho id).encode s ∧
      IsFrame s (Reply.terminatorEcho id)) ∧
    ∀ (id number : Int32) (kind : ReplyKind) (body : String) (buffer : List UInt8),
      maxBodySize < (Text.Utf8.encode body).length →
        Request.encode ⟨id, number, body⟩ buffer = .error (.badFrameSize
          (Int32.ofNat ((Text.Utf8.encode body).length + minFrameSize))) ∧
        Reply.encode { id, kind, body } buffer = .error (.badFrameSize
          (Int32.ofNat ((Text.Utf8.encode body).length + minFrameSize))) := by
  refine ⟨fun s p => Request.decode_eq_ok_iff, ?_, ?_, ?_⟩
  · intro id kind body hnul hfits
    exact ⟨_, encodes_writeFrame id kind.number hfits, Reply.isFrame_text id kind hnul hfits⟩
  · intro id
    have hfits : Reply.echoBody.length ≤ maxBodySize := by decide
    exact ⟨_, encodes_writeFrame id _ hfits, Reply.isFrame_terminatorEcho id⟩
  · intro id number kind body buffer hlong
    exact ⟨encode_writeFrame_tooLong id number hlong buffer,
      encode_writeFrame_tooLong id kind.number hlong buffer⟩

end GameQuery.Rcon
