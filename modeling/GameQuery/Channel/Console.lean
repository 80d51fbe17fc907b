import GameQuery.Channel.Socket
import GameQuery.Rcon.Frame

namespace GameQuery

/-!
# Console channels

A stream of frames to and from the console of a Source server. It is opened by the first frame
that is sent. A timeout between two frames leaves it open; whatever else goes wrong closes it, so
that no frame is ever read from the middle of another.
-/

/-- A channel for console frames. -/
structure ConsoleChannel where
  peer : SocketAddress
  /-- The stream, while it is open. -/
  stream : Option Socket := none
  /-- How many milliseconds a receive waits, if not as is set for all. -/
  timeout : Option Nat := none

namespace ConsoleChannel

def streamPart : Part ConsoleChannel Socket where
  get? c := c.stream
  put socket c := { c with stream := some socket }

def isConnected (c : ConsoleChannel) : Bool := c.stream.isSome

def setTimeout (timeout : Option Nat) (c : ConsoleChannel) : ConsoleChannel := { c with timeout }

/-- What a client can still receive. -/
def weight (c : ConsoleChannel) : Nat := (c.stream.map Socket.weight).getD 0

/-- Shuts the stream down, if it is open. -/
def close : Dialog ConsoleChannel Unit := do
  let c ← Dialog.state
  if c.isConnected then
    Dialog.record (.closed c.peer)
    Dialog.modifyState fun c => { c with stream := none }

/-- Opens the stream, unless it is open. -/
def connect : Dialog ConsoleChannel Unit := do
  let c ← Dialog.state
  unless c.isConnected do
    let socket ← Socket.connect .tcp c.peer
    Dialog.modifyState fun c => { c with stream := some socket }

/-- Sends a frame. -/
def send (r : Rcon.Request) : Dialog ConsoleChannel Unit := do
  let room := (Text.Utf8.encode r.body).length + Rcon.minFrameSize + 4
  let filled ← Dialog.ofCodec (r.encode (List.replicate room 0))
  connect
  Dialog.onError (.on streamPart (Socket.send filled.bytes)) fun _ => close

/-- Adds what can be read at once to the `head` of `count` bytes. -/
def fillPass (wait count : Nat) (head : List UInt8) :
    Dialog Socket (Pass (List UInt8) (Option (List UInt8))) := do
  if count ≤ head.length then return .done (some head)
  match ← Socket.read wait (count - head.length) with
  | none => return .done none
  | some bytes => return .again (head ++ bytes)

theorem fillPass_again {wait count : Nat} {head head' : List UInt8} {w w' : Socket × Network}
    (h : fillPass wait count head w = .ok (.again head') w') :
    count - head'.length < count - head.length ∧ w'.1.weight < w.1.weight := by
  unfold fillPass at h
  split at h
  · cases h
  · obtain ⟨bytes, v, hr, h⟩ := Dialog.bind_eq_ok h
    cases bytes with
    | none => cases h
    | some bytes =>
      cases h
      have := Socket.read_eq_ok hr
      simp only [List.length_append]
      omega

/-- Reads `count` bytes, of which the `head` has been read; nothing if the stream ends. -/
def fill (wait count : Nat) (head : List UInt8) : Dialog Socket (Option (List UInt8)) :=
  Dialog.iterate (fun head _ => count - head.length) (fillPass wait count)
    (fun h => (fillPass_again h).1) head

/-- Reads a frame, of which the `head` has been read; nothing if the stream ends. -/
def readFrame (wait : Nat) (head : List UInt8) : Dialog Socket (Option Rcon.Reply) := do
  match ← fill wait 4 head with
  | none => return none
  | some start =>
    let size ← Dialog.ofCodec (Rcon.frameSize start)
    match ← fill wait size [] with
    | none => return none
    | some frame => some <$> Dialog.ofCodec (Rcon.Reply.decode frame)

/-- Closes the channel, unless the error is a timeout. -/
def closeUnlessTimeout (e : ClientError) : Dialog ConsoleChannel Unit :=
  if e = .timeout then pure () else close

/-- Receives a frame; nothing if the stream ends or is not open. -/
def reply (timeout : Option Nat) : Dialog ConsoleChannel (Option Rcon.Reply) := do
  let c ← Dialog.state
  let n ← Dialog.network
  if !c.isConnected then return none
  let wait := n.settings.wait timeout c.timeout
  match ← Dialog.onError (.on streamPart (Socket.read wait 4)) closeUnlessTimeout with
  | none =>
    close
    return none
  | some head =>
    match ← Dialog.onError (.on streamPart (readFrame wait head)) fun _ => close with
    | none =>
      close
      return none
    | some r => return some r

theorem weight_of_fillPass {wait count : Nat} {head : List UInt8} {w w' : Socket × Network}
    {p : Pass (List UInt8) (Option (List UInt8))} (h : fillPass wait count head w = .ok p w') :
    w'.1.weight ≤ w.1.weight := by
  unfold fillPass at h
  split at h
  · cases h
    exact Nat.le_refl _
  · obtain ⟨bytes, v, hr, h⟩ := Dialog.bind_eq_ok h
    have := Socket.weight_of_read hr
    cases bytes <;> cases h <;> exact this

theorem weight_of_fill {wait count : Nat} {head : List UInt8} {w w' : Socket × Network}
    {r : Option (List UInt8)} (h : fill wait count head w = .ok r w') :
    w'.1.weight ≤ w.1.weight :=
  Dialog.iterate_eq_ok (fun h => (fillPass_again h).1) (fun w w' => w'.1.weight ≤ w.1.weight)
    (fun h₁ h₂ => Nat.le_trans h₂ h₁) weight_of_fillPass h

theorem weight_of_readFrame {wait : Nat} {head : List UInt8} {w w' : Socket × Network}
    {r : Option Rcon.Reply} (h : readFrame wait head w = .ok r w') :
    w'.1.weight ≤ w.1.weight := by
  obtain ⟨start, v, hs, h⟩ := Dialog.bind_eq_ok h
  have hsw := weight_of_fill hs
  cases start with
  | none =>
    cases h
    exact hsw
  | some start =>
    obtain ⟨size, v', hc, h⟩ := Dialog.bind_eq_ok h
    cases Dialog.ofCodec_eq_ok hc
    obtain ⟨frame, v', hf, h⟩ := Dialog.bind_eq_ok h
    have hfw := weight_of_fill hf
    cases frame with
    | none =>
      cases h
      exact Nat.le_trans hfw hsw
    | some frame =>
      cases Dialog.ofCodec_map_eq_ok h
      exact Nat.le_trans hfw hsw

/-- Every frame that is received leaves less to be received. -/
theorem weight_of_reply {timeout : Option Nat} {w w' : ConsoleChannel × Network}
    {r : Rcon.Reply} (h : reply timeout w = .ok (some r) w') : w'.1.weight < w.1.weight := by
  obtain ⟨c, v, h₁, h⟩ := Dialog.bind_eq_ok h
  cases h₁
  obtain ⟨n, v, h₁, h⟩ := Dialog.bind_eq_ok h
  cases h₁
  split at h
  · cases h
  · obtain ⟨head, v, h₁, h⟩ := Dialog.bind_eq_ok h
    obtain ⟨s, u, hs, hr, rfl⟩ := Dialog.on_eq_ok (Dialog.onError_eq_ok h₁)
    cases head with
    | none =>
      obtain ⟨x, v, _, h⟩ := Dialog.bind_eq_ok h
      cases h
    | some head =>
      have hlt := (Socket.read_eq_ok hr).2
      obtain ⟨f, v, h₂, h⟩ := Dialog.bind_eq_ok h
      obtain ⟨s', u', hs', hf, rfl⟩ := Dialog.on_eq_ok (Dialog.onError_eq_ok h₂)
      cases hs'
      have hle := weight_of_readFrame hf
      cases f with
      | none =>
        obtain ⟨x, v, _, h⟩ := Dialog.bind_eq_ok h
        cases h
      | some f =>
        cases h
        simp only [weight, streamPart] at hs ⊢
        rw [hs]
        exact Nat.lt_of_le_of_lt hle hlt

end ConsoleChannel

end GameQuery
