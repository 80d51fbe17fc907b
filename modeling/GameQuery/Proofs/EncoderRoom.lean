import GameQuery.Proofs.DiscoveryAttempt
import GameQuery.Proofs.FragmentRoundTrip
import GameQuery.Proofs.FrameCodec
import GameQuery.Proofs.RequestCodec

namespace GameQuery

/-!
# The room that a packet takes

Every packet has one string of bytes, and its encoder needs room for this string and no more: it
writes the string over the front of every buffer that has the room, and fails on every other one.
Only the frames of the remote console have a limit of their own, which no buffer lifts.
-/

open Writer

/-- A packet with an encoder of its own. -/
inductive Packet where
  | reply (r : Reply)
  | fragment (f : Fragment) (framing : Framing)
  | request (r : Request)
  | listing (q : ListingQuery)
  | consoleRequest (r : Rcon.Request)
  | consoleReply (r : Rcon.Reply)

/-- Writes a text that is handed over in pieces, as the parts of a value are displayed. -/
def Writer.pieces (texts : List String) : Writer Unit := texts.forM text

/-- Writes a query whose address and filter are handed over in pieces. -/
def ListingQuery.writePieces (region : Region) (last filter : List String) : Writer Unit := do
  Writer.u8 0x31
  Writer.u8 region.toByte
  Writer.pieces last
  Writer.u8 0
  Writer.pieces filter
  Writer.u8 0

namespace Writer

theorem text_bind_text (s t : String) : (text s >>= fun _ => text t) = text (s ++ t) := by
  have hencode : Text.Utf8.encode (s ++ t) = Text.Utf8.encode s ++ Text.Utf8.encode t := by
    simp [Text.Utf8.encode]
  rw [text, text, bytes_bind_bytes, text, hencode]

theorem encodes_of_eq {w : Writer Unit} {s : List UInt8} (h : w = bytes s) :
    Encodes w.encode s := by
  rw [h]
  exact encodes_bytes s

/-- A text takes the same room in pieces and as a whole. -/
theorem pieces_eq (texts : List String) : pieces texts = text (String.join texts) := by
  induction texts with
  | nil => rfl
  | cons s texts ih =>
    rw [String.join_cons, ← text_bind_text, ← ih]
    rfl

end Writer

theorem ListingQuery.writePieces_eq {q : ListingQuery} {last filter : List String}
    (hlast : String.join last = String.ofList q.last.text)
    (hfilter : String.join filter = q.filter) :
    writePieces q.region last filter = q.write := by
  rw [writePieces, pieces_eq, pieces_eq, hlast, hfilter]
  rfl

namespace Packet

def encode : Packet → List UInt8 → Except CodecError Filled
  | reply r => r.encode
  | fragment f framing => f.encode framing
  | request (.info r) => r.encode
  | request (.players r) => r.encode
  | request (.rules r) => r.encode
  | request (.console line) => line.encode
  | listing q => q.encode
  | consoleRequest r => r.encode
  | consoleReply r => r.encode

/-- The body of a frame of the remote console. -/
def frameBody? : Packet → Option (List UInt8)
  | consoleRequest r => some (Text.Utf8.encode r.body)
  | consoleReply r => some r.bodyBytes
  | _ => none

/-- Whether a frame can hold the body. -/
def FitsFrame (p : Packet) : Prop := ∀ body ∈ p.frameBody?, body.length ≤ Rcon.maxBodySize

def bytes : Packet → List UInt8
  | reply r => r.bytes
  | fragment f framing => f.bytes framing
  | request r => r.bytes
  | listing q => q.bytes
  | consoleRequest r => Rcon.frameBytes r.id r.kind (Text.Utf8.encode r.body)
  | consoleReply r => Rcon.frameBytes r.id r.kind.number r.bodyBytes

theorem encodes_bytes {p : Packet} (h : p.FitsFrame) : Encodes p.encode p.bytes := by
  cases p with
  | reply r => exact encodes_of_eq r.write_eq
  | fragment f framing => exact f.encodes_bytes framing
  | request r =>
    cases r with
    | info r => exact Request.encodes_bytes (.info r)
    | players r => exact Request.encodes_bytes (.players r)
    | rules r => exact Request.encodes_bytes (.rules r)
    | console line => exact Request.encodes_bytes (.console line)
  | listing q => exact encodes_of_eq q.write_eq
  | consoleRequest r => exact Rcon.encodes_writeFrame r.id r.kind (h _ rfl)
  | consoleReply r => exact Rcon.encodes_writeFrame r.id r.kind.number (h _ rfl)

theorem length_bytes {p : Packet} {body : List UInt8} (h : p.frameBody? = some body) :
    p.bytes.length = body.length + 14 := by
  cases p with
  | consoleRequest r =>
    cases h
    exact Rcon.length_frameBytes ..
  | consoleReply r =>
    cases h
    exact Rcon.length_frameBytes ..
  | _ => cases h

theorem encode_tooLong {p : Packet} {body : List UInt8} (h : p.frameBody? = some body)
    (hlong : Rcon.maxBodySize < body.length) (buffer : List UInt8) :
    p.encode buffer =
      .error (.badFrameSize (Int32.ofNat (body.length + Rcon.minFrameSize))) := by
  cases p with
  | consoleRequest r =>
    cases h
    exact Rcon.encode_writeFrame_tooLong r.id r.kind hlong buffer
  | consoleReply r =>
    cases h
    exact Rcon.encode_writeFrame_tooLong r.id r.kind.number hlong buffer
  | _ => cases h

end Packet

/-- Each packet takes the same bytes in every buffer: if they fit, they are written over its front
and nothing behind them changes, and if they do not, the encoder runs out of room. A frame of the
remote console takes fourteen bytes more than its body, and one whose body is longer than 65526
bytes is refused in every buffer. A query that is displayed piece by piece takes the same bytes as
one that is written at once. -/
theorem encoders_use_exact_room :
    (∀ p : Packet, p.FitsFrame → ∃ s : List UInt8,
      (∀ buffer, p.encode buffer =
        if s.length ≤ buffer.length then .ok ⟨s.length, s ++ buffer.drop s.length⟩
        else .error .endOfBuffer) ∧
      ∀ body, p.frameBody? = some body → s.length = body.length + 14) ∧
    (∀ (p : Packet) (body : List UInt8), p.frameBody? = some body → 65526 < body.length →
      ∀ buffer, p.encode buffer = .error (.badFrameSize (Int32.ofNat (body.length + 10)))) ∧
    ∀ (q : ListingQuery) (last filter : List String),
      String.join last = String.ofList q.last.text → String.join filter = q.filter →
        (ListingQuery.writePieces q.region last filter).encode = q.encode := by
  refine ⟨?_, ?_, ?_⟩
  · intro p hfits
    exact ⟨p.bytes, Packet.encodes_bytes hfits, fun body hbody => Packet.length_bytes hbody⟩
  · intro p body hbody hlong buffer
    exact Packet.encode_tooLong hbody hlong buffer
  · intro q last filter hlast hfilter
    rw [ListingQuery.writePieces_eq hlast hfilter]
    rfl

end GameQuery
