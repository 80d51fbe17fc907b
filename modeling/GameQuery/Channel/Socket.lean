import GameQuery.Dialog

namespace GameQuery

/-!
# Sockets

A socket is bound to one peer and has a receive queue of its own. Everything the peer sends in
answer to bytes from the socket goes to the end of its queue.
-/

/-- A socket bound to a peer. -/
structure Socket where
  transport : Transport
  peer : SocketAddress
  /-- What has been sent by the peer and not yet been received. -/
  queue : List Arrival := []

namespace Arrival

/-- How long the delays at the head of a queue take, and what comes behind them. -/
def passDelays : List Arrival → Nat × List Arrival
  | .delay micros :: queue =>
    let (elapsed, queue) := passDelays queue
    (micros + elapsed, queue)
  | queue => (0, queue)

/-- A bound on how often something can be received from a queue. -/
def weight : Arrival → Nat
  | .data bytes => bytes.length + 1
  | _ => 1

/-- The weight of a whole queue. -/
def queueWeight : List Arrival → Nat
  | [] => 0
  | a :: queue => a.weight + queueWeight queue

@[simp] theorem queueWeight_nil : queueWeight [] = 0 := rfl

@[simp] theorem queueWeight_cons (a : Arrival) (queue : List Arrival) :
    queueWeight (a :: queue) = a.weight + queueWeight queue := rfl

theorem length_passDelays_le (queue : List Arrival) :
    (passDelays queue).2.length ≤ queue.length := by
  fun_induction passDelays queue with
  | case1 micros queue elapsed rest h ih =>
    rw [h] at ih
    exact Nat.le_succ_of_le ih
  | case2 => exact Nat.le_refl _

theorem queueWeight_passDelays_le (queue : List Arrival) :
    queueWeight (passDelays queue).2 ≤ queueWeight queue := by
  fun_induction passDelays queue with
  | case1 micros queue elapsed rest h ih =>
    rw [h] at ih
    exact Nat.le_add_left_of_le ih
  | case2 => exact Nat.le_refl _

end Arrival

namespace Socket

/-- Binds a new socket to a peer. -/
def connect {σ : Type} (transport : Transport) (peer : SocketAddress) : Dialog σ Socket := do
  let n ← Dialog.network
  let failure := n.world.connect n.history transport peer
  Dialog.record (.connected transport peer failure)
  match failure with
  | some f => throw (.ofFailure f)
  | none => return { transport, peer }

/-- Sends bytes to the peer. -/
def send (bytes : List UInt8) : Dialog Socket Unit := do
  let s ← Dialog.state
  let n ← Dialog.network
  Dialog.record (.sent s.transport s.peer bytes)
  match n.world.react n.history s.transport s.peer bytes with
  | .error f => throw (.ofFailure f)
  | .ok arrivals => Dialog.modifyState fun s => { s with queue := s.queue ++ arrivals }

/-- Waits until something is at the head of the queue: its bytes, or nothing at the end of the
stream. They stay in the queue; whatever stands before them is gone. -/
def peek (wait : Nat) : Dialog Socket (Option (List UInt8)) := fun (s, n) =>
  let (elapsed, queue) := Arrival.passDelays s.queue
  let n := n.pass elapsed
  let timeOut (queue : List Arrival) :=
    .error .timeout ({ s with queue }, (n.pass (1000 * wait)).record
      (.timedOut s.transport s.peer wait))
  match queue with
  | .data bytes :: _ => .ok (some bytes) ({ s with queue }, n)
  | .closed :: _ => .ok none ({ s with queue }, n)
  | .failure f :: rest => .error (.ofFailure f) ({ s with queue := rest }, n)
  | .silence :: rest => timeOut rest
  | .delay _ :: _ | [] => timeOut queue

/-- Takes the whole datagram at the head of the queue. -/
def takeDatagram : Dialog Socket Unit := fun (s, n) =>
  match s.queue with
  | .data bytes :: rest =>
    .ok () ({ s with queue := rest }, n.record (.received s.transport s.peer bytes))
  | _ => .ok () (s, n)

/-- Takes some bytes off the piece at the head of the queue. -/
def takeBytes (count : Nat) : Dialog Socket (List UInt8) := fun (s, n) =>
  match s.queue with
  | .data bytes :: rest =>
    let taken := bytes.take count
    let queue := if count < bytes.length then .data (bytes.drop count) :: rest else rest
    .ok taken ({ s with queue }, n.record (.received s.transport s.peer taken))
  | _ => .ok [] (s, n)

theorem weight_of_peek {wait : Nat} {w w' : Socket × Network} {head : Option (List UInt8)}
    (h : peek wait w = .ok head w') :
    Arrival.queueWeight w'.1.queue ≤ Arrival.queueWeight w.1.queue := by
  have hl := Arrival.queueWeight_passDelays_le w.1.queue
  obtain ⟨s, n⟩ := w
  simp only [peek] at h
  split at h <;> cases h <;> exact hl

theorem weight_of_takeBytes {count : Nat} {w w' : Socket × Network} {bytes : List UInt8}
    (h : takeBytes count w = .ok bytes w') :
    Arrival.queueWeight w'.1.queue ≤ Arrival.queueWeight w.1.queue := by
  obtain ⟨⟨transport, peer, queue⟩, n⟩ := w
  simp only [takeBytes] at h
  split at h
  · cases h
    split
    · simp only [Arrival.queueWeight_cons, Arrival.weight, List.length_drop]
      omega
    · exact Nat.le_add_left _ _
  · cases h
    exact Nat.le_refl _

theorem peek_eq_ok {wait : Nat} {w w' : Socket × Network} {bytes : List UInt8}
    (h : peek wait w = .ok (some bytes) w') :
    (Arrival.passDelays w.1.queue).2 = w'.1.queue ∧ ∃ rest, w'.1.queue = .data bytes :: rest := by
  obtain ⟨s, n⟩ := w
  simp only [peek] at h
  split at h <;> cases h
  next rest hq => exact ⟨rfl, rest, hq⟩

/-- What a client can still receive from a socket. -/
def weight (s : Socket) : Nat := Arrival.queueWeight s.queue

/-- Reads up to `count` bytes from a stream; nothing at its end. -/
def read (wait count : Nat) : Dialog Socket (Option (List UInt8)) := do
  match ← peek wait with
  | none => return none
  | some _ =>
    let bytes ← takeBytes count
    return if bytes.isEmpty then none else some bytes

theorem weight_of_read {wait count : Nat} {w w' : Socket × Network} {r : Option (List UInt8)}
    (h : read wait count w = .ok r w') : w'.1.weight ≤ w.1.weight := by
  obtain ⟨head, v, hp, h⟩ := Dialog.bind_eq_ok h
  have hle := weight_of_peek hp
  cases head with
  | none =>
    cases h
    exact hle
  | some piece =>
    obtain ⟨bytes, v', ht, h⟩ := Dialog.bind_eq_ok h
    cases h
    exact Nat.le_trans (weight_of_takeBytes ht) hle

/-- What is read from a stream is not empty, and it is gone from the queue. -/
theorem read_eq_ok {wait count : Nat} {w w' : Socket × Network} {bytes : List UInt8}
    (h : read wait count w = .ok (some bytes) w') :
    0 < bytes.length ∧ w'.1.weight < w.1.weight := by
  obtain ⟨head, v, hp, h⟩ := Dialog.bind_eq_ok h
  cases head with
  | none => cases h
  | some piece =>
    obtain ⟨hq, rest, hr⟩ := peek_eq_ok hp
    have hl := Arrival.queueWeight_passDelays_le w.1.queue
    obtain ⟨⟨transport, peer, queue⟩, n⟩ := v
    cases hr
    simp only at hq
    obtain ⟨taken, v', ht, h⟩ := Dialog.bind_eq_ok h
    cases ht
    cases hb : (piece.take count).isEmpty with
    | true => simp [pure, EStateM.pure, hb] at h
    | false =>
      simp only [pure, EStateM.pure, hb, Bool.false_eq_true, if_false] at h
      cases h
      have hpos : 0 < (piece.take count).length := List.length_pos_iff.2 (by simpa using hb)
      refine ⟨hpos, ?_⟩
      rw [hq] at hl
      refine Nat.lt_of_lt_of_le ?_ hl
      simp only [weight, Arrival.queueWeight_cons, Arrival.weight]
      rw [List.length_take] at hpos
      split
      · simp only [Arrival.queueWeight_cons, Arrival.weight, List.length_drop]
        omega
      · omega

end Socket

end GameQuery
