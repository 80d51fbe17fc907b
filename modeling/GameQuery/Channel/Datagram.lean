import GameQuery.Channel.Socket
import GameQuery.Bytes.Writer

namespace GameQuery

/-!
# Datagram channels

A channel receives whole datagrams. Its buffer grows until the datagram at the head of the queue
leaves room in it: a full buffer may mean that the datagram is longer.
-/

/-- The largest datagram there is. -/
def maxDatagramSize : Nat := 65535

/-- The room for a request. -/
def requestRoom : Nat := 4096

/-- The size of a receive buffer. -/
structure BufferSize where
  bytes : Nat
  pos : 0 < bytes
  le_max : bytes ≤ maxDatagramSize

namespace BufferSize

/-- The allowed size nearest to `n`. -/
def clamp (n : Nat) : BufferSize where
  bytes := max 1 (min n maxDatagramSize)
  pos := by omega
  le_max := by simp only [maxDatagramSize]; omega

/-- Twice the size, if that is allowed. -/
def double (b : BufferSize) : BufferSize where
  bytes := min (2 * b.bytes) maxDatagramSize
  pos := by
    have := b.pos
    simp only [maxDatagramSize]
    omega
  le_max := Nat.min_le_right _ _

/-- The first doubling of a size in which a datagram leaves room, or the largest size. -/
def fit (b : BufferSize) (datagram : List UInt8) : BufferSize :=
  if (datagram.take b.bytes).length < b.bytes ∨ maxDatagramSize ≤ b.bytes then b
  else fit b.double datagram
termination_by maxDatagramSize - b.bytes
decreasing_by
  have := b.pos
  simp only [double]
  omega

end BufferSize

/-- A channel for datagrams to and from one peer. -/
structure DatagramChannel where
  socket : Socket
  /-- How many milliseconds a receive waits, if not as is set for all. -/
  timeout : Option Nat := none
  buffer : BufferSize

namespace DatagramChannel

def socketPart : Part DatagramChannel Socket := .field (·.socket) fun socket c => { c with socket }

/-- Opens a channel whose buffer starts with some size. -/
def connect {σ : Type} (peer : SocketAddress) (size : Nat) : Dialog σ DatagramChannel := do
  let socket ← Socket.connect .udp peer
  return { socket, buffer := .clamp size }

def setTimeout (timeout : Option Nat) (c : DatagramChannel) : DatagramChannel := { c with timeout }

def send (bytes : List UInt8) : Dialog DatagramChannel Unit := .on socketPart (Socket.send bytes)

/-- Writes a request and sends it. -/
def sendRequest (w : Writer Unit) : Dialog DatagramChannel Unit := do
  let filled ← Dialog.ofCodec (w.encode (List.replicate requestRoom 0))
  send filled.bytes

/-- Receives a datagram. -/
def receive (timeout : Option Nat) : Dialog DatagramChannel (List UInt8) := do
  let c ← Dialog.state
  let n ← Dialog.network
  match ← Dialog.on socketPart (Socket.peek (n.settings.wait timeout c.timeout)) with
  | none => throw .dropped
  | some datagram =>
    let buffer := c.buffer.fit datagram
    Dialog.modifyState fun c => { c with buffer }
    Dialog.on socketPart Socket.takeDatagram
    return datagram.take buffer.bytes

/-- Every datagram that is received leaves the queue shorter. -/
theorem receive_shortens {timeout : Option Nat} {w w' : DatagramChannel × Network}
    {bytes : List UInt8} (h : receive timeout w = .ok bytes w') :
    w'.1.socket.queue.length < w.1.socket.queue.length := by
  obtain ⟨⟨⟨transport, peer, queue⟩, own, buffer⟩, n⟩ := w
  obtain ⟨c, w₁, h₁, h⟩ := Dialog.bind_eq_ok h
  cases h₁
  obtain ⟨n, w₁, h₁, h⟩ := Dialog.bind_eq_ok h
  cases h₁
  obtain ⟨head, w₁, h₁, h⟩ := Dialog.bind_eq_ok h
  cases head with
  | none => cases h
  | some datagram =>
    obtain ⟨s, v, hs, hp, rfl⟩ := Dialog.on_eq_ok h₁
    cases hs
    obtain ⟨hq, rest, hr⟩ := Socket.peek_eq_ok hp
    have hl := Arrival.length_passDelays_le queue
    obtain ⟨⟨t', p', q'⟩, n'⟩ := v
    cases hr
    simp only at hq
    rw [hq] at hl
    cases h
    exact hl

end DatagramChannel

end GameQuery
