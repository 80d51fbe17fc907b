import GameQuery.Bzip2.Stream
import GameQuery.Channel.Datagram
import GameQuery.Reassembler
import GameQuery.Request

namespace GameQuery

/-!
# Query channels

A channel to a game server. Replies come whole or in fragments.
-/

/-- The number at the start of a datagram. -/
def headerOf (datagram : List UInt8) : Option Int32 :=
  (splitOff 4 datagram).map fun (start, _) => (UInt32.ofNat (leValue start)).toInt32

/-- The buffer a query channel starts with. -/
def queryBufferSize : Nat := 1400

/-- A channel for requests to a game server and its replies. -/
structure QueryChannel where
  channel : DatagramChannel
  reassembler : Reassembler

namespace QueryChannel

def channelPart : Part QueryChannel DatagramChannel :=
  .field (·.channel) fun channel c => { c with channel }

/-- What waits to be received. -/
def queue (c : QueryChannel) : List Arrival := c.channel.socket.queue

def connect {σ : Type} (peer : SocketAddress) (framing : Framing) : Dialog σ QueryChannel := do
  let channel ← DatagramChannel.connect peer queryBufferSize
  return { channel, reassembler := { framing } }

def setTimeout (timeout : Option Nat) (c : QueryChannel) : QueryChannel :=
  { c with channel := c.channel.setTimeout timeout }

def send (r : Request) : Dialog QueryChannel Unit :=
  .on channelPart (DatagramChannel.sendRequest r.write)

/-- The reply that a datagram carries or completes. -/
def accept (datagram : List UInt8) : Dialog QueryChannel (Option Reply) := do
  match headerOf datagram with
  | none => Dialog.ofCodec (.error .malformed)
  | some header =>
    if header = wholeHeader then some <$> Dialog.ofCodec (Reply.decode datagram)
    else if header = fragmentHeader then do
      let c ← Dialog.state
      let (content, reassembler) := c.reassembler.push Bzip2.unpacker datagram
      Dialog.modifyState fun c => { c with reassembler }
      match ← Dialog.ofCodec content with
      | some whole => some <$> Dialog.ofCodec (Reply.decode whole)
      | none => return none
    else Dialog.ofCodec (.error (.badHeader header))

/-- GoldSrc servers send lines of their log to anyone; they answer nothing. -/
def isLogLine (framing : Framing) : Reply → Bool
  | .log _ => framing = .goldSrc
  | _ => false

/-- Receives a datagram and, if it completes one, takes the reply. -/
def replyPass (timeout : Option Nat) : Dialog QueryChannel (Pass Unit Reply) := do
  let datagram ← Dialog.on channelPart (DatagramChannel.receive timeout)
  match ← accept datagram with
  | none => return .again ()
  | some r =>
    let c ← Dialog.state
    return if isLogLine c.reassembler.framing r then .again () else .done r

theorem queue_of_accept {datagram : List UInt8} {w w' : QueryChannel × Network}
    {r : Option Reply} (h : accept datagram w = .ok r w') : w'.1.queue = w.1.queue := by
  cases hh : headerOf datagram with
  | none =>
    simp only [accept, hh] at h
    cases h
  | some header =>
    simp only [accept, hh] at h
    split at h
    · rw [Dialog.ofCodec_map_eq_ok h]
    · split at h
      · obtain ⟨c, w₁, h₁, h⟩ := Dialog.bind_eq_ok h
        cases h₁
        obtain ⟨u, w₁, h₁, h⟩ := Dialog.bind_eq_ok h
        cases h₁
        obtain ⟨content, w₁, h₁, h⟩ := Dialog.bind_eq_ok h
        cases Dialog.ofCodec_eq_ok h₁
        cases content with
        | none =>
          cases h
          rfl
        | some whole => rw [Dialog.ofCodec_map_eq_ok h]; rfl
      · cases h

/-- Every pass leaves the queue shorter. -/
theorem replyPass_shortens {timeout : Option Nat} {w w' : QueryChannel × Network}
    {p : Pass Unit Reply} (h : replyPass timeout w = .ok p w') :
    w'.1.queue.length < w.1.queue.length := by
  obtain ⟨datagram, w₁, h₁, h⟩ := Dialog.bind_eq_ok h
  obtain ⟨c, v, hc, hr, rfl⟩ := Dialog.on_eq_ok h₁
  cases hc
  have hs := DatagramChannel.receive_shortens hr
  obtain ⟨r, w₂, h₂, h⟩ := Dialog.bind_eq_ok h
  have hq := queue_of_accept h₂
  have hw : w' = w₂ := by
    cases r with
    | none => cases h; rfl
    | some r =>
      obtain ⟨c, w₃, h₃, h⟩ := Dialog.bind_eq_ok h
      cases h₃
      cases h
      rfl
  rw [hw, hq]
  exact hs

/-- Receives a reply. Fragments of earlier replies are forgotten. -/
def reply (timeout : Option Nat) : Dialog QueryChannel Reply := do
  Dialog.modifyState fun c => { c with reassembler := c.reassembler.clear }
  Dialog.iterate (fun _ c => c.queue.length) (fun _ => replyPass timeout) replyPass_shortens ()

/-- Every reply leaves the queue shorter. -/
theorem queue_of_reply {timeout : Option Nat} {w w' : QueryChannel × Network} {r : Reply}
    (h : reply timeout w = .ok r w') : w'.1.queue.length < w.1.queue.length := by
  obtain ⟨u, v, h₁, h⟩ := Dialog.bind_eq_ok h
  cases h₁
  exact Dialog.iterate_eq_ok replyPass_shortens
    (fun w w' => w'.1.queue.length < w.1.queue.length) (fun h₁ h₂ => Nat.lt_trans h₂ h₁)
    replyPass_shortens h

end QueryChannel

end GameQuery
