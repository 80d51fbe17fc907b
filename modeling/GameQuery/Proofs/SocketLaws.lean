import GameQuery.Channel.Query
import GameQuery.Proofs.DialogLaws
import GameQuery.Proofs.WriterLaws

namespace GameQuery

/-!
# What sockets leave in the history

A socket adds events of its own transport and peer to the history and never rewrites it. What a
stream has delivered can be read off the history: `receivedBytes` puts the pieces together again.
-/

/-- Bytes that are sent or received, or waited for, between a client and a peer. -/
def Event.IsOn (transport : Transport) (peer : SocketAddress) : Event → Prop
  | .sent t p _ | .received t p _ | .timedOut t p _ => t = transport ∧ p = peer
  | .connected .. | .closed _ => False

/-- What has been received over streams, the earliest first, in a history with the latest event
first. -/
def receivedBytes : List Event → List UInt8
  | [] => []
  | .received .tcp _ bytes :: history => receivedBytes history ++ bytes
  | _ :: history => receivedBytes history

theorem receivedBytes_append (new history : List Event) :
    receivedBytes (new ++ history) = receivedBytes history ++ receivedBytes new := by
  fun_induction receivedBytes new with
  | case1 => simp
  | case2 peer bytes new ih => simp only [List.cons_append, receivedBytes, ih, List.append_assoc]
  | case3 e new hne ih =>
    rw [List.cons_append, receivedBytes, ih]
    exact hne

theorem ClientError.ofFailure_ne_notAuthenticated (f : Failure) :
    ClientError.ofFailure f ≠ .notAuthenticated := by
  cases f <;> nofun

theorem ClientError.ofCodec_ne_notAuthenticated (e : CodecError) :
    ClientError.ofCodec e ≠ .notAuthenticated := by
  rw [ClientError.ofCodec]
  split <;> nofun

/-- The error is none that sums a discovery up. -/
def ClientError.IsPlain (e : ClientError) : Prop := ∀ n servers, e ≠ .exhausted n servers

theorem ClientError.isPlain_ofFailure (f : Failure) : (ofFailure f).IsPlain := by
  intro n servers
  cases f <;> nofun

namespace Socket

/-- A socket and its network after some events that are its own. -/
structure Later (w v : Socket × Network) : Prop where
  transport : v.1.transport = w.1.transport
  peer : v.1.peer = w.1.peer
  world : v.2.world = w.2.world
  history : ∃ new, v.2.history = new ++ w.2.history ∧
    ∀ e ∈ new, e.IsOn w.1.transport w.1.peer

theorem Later.refl (w : Socket × Network) : Later w w :=
  ⟨rfl, rfl, rfl, [], rfl, fun _ he => nomatch he⟩

theorem Later.trans {u v w : Socket × Network} (h : Later u v) (h' : Later v w) : Later u w := by
  obtain ⟨new, hnew, hon⟩ := h.history
  obtain ⟨new', hnew', hon'⟩ := h'.history
  refine ⟨h'.transport.trans h.transport, h'.peer.trans h.peer, h'.world.trans h.world,
    new' ++ new, ?_, fun e he => ?_⟩
  · rw [hnew', hnew, List.append_assoc]
  · rcases List.mem_append.1 he with he | he
    · have hon := hon' e he
      rwa [h.transport, h.peer] at hon
    · exact hon e he

/-- A new socket is bound, or it is not; the history tells which. -/
theorem connect_ends {σ : Type} (transport : Transport) (peer : SocketAddress) (w : σ × Network) :
    Dialog.Ends (connect transport peer) w fun r v => v.1 = w.1 ∧
      match r with
      | .ok s => s = { transport, peer } ∧
          v.2.history = .connected transport peer none :: w.2.history
      | .error e => e ≠ .notAuthenticated ∧
          ∃ f, v.2.history = .connected transport peer (some f) :: w.2.history := by
  refine Dialog.ends_network_bind ?_
  cases hf : w.2.world.connect w.2.history transport peer with
  | none => exact Dialog.ends_bind_of_ok rfl ⟨rfl, rfl, rfl⟩
  | some f =>
    exact Dialog.ends_bind_of_ok rfl ⟨rfl, ClientError.ofFailure_ne_notAuthenticated f, f, rfl⟩

theorem send_eq (bytes : List UInt8) (s : Socket) (n : Network) :
    send bytes (s, n) =
      match n.world.react n.history s.transport s.peer bytes with
      | .ok arrivals => .ok () ({ s with queue := s.queue ++ arrivals },
          n.record (.sent s.transport s.peer bytes))
      | .error f => .error (.ofFailure f) (s, n.record (.sent s.transport s.peer bytes)) := by
  rw [send, Dialog.state_bind, Dialog.network_bind]
  cases n.world.react n.history s.transport s.peer bytes <;> rfl

theorem send_ends (bytes : List UInt8) (w : Socket × Network) :
    Dialog.Ends (send bytes) w fun r v =>
      v.1.transport = w.1.transport ∧ v.1.peer = w.1.peer ∧ v.2.world = w.2.world ∧
        v.2.history = .sent w.1.transport w.1.peer bytes :: w.2.history ∧
        ∀ e, r = .error e → e ≠ .notAuthenticated := by
  refine Dialog.ends_state_bind (Dialog.ends_network_bind ?_)
  refine Dialog.ends_bind_of_ok (v := (w.1, w.2.record (.sent w.1.transport w.1.peer bytes)))
    rfl ?_
  split
  · next f _ =>
    refine ⟨rfl, rfl, rfl, rfl, fun e he => ?_⟩
    cases he
    exact ClientError.ofFailure_ne_notAuthenticated f
  · exact ⟨rfl, rfl, rfl, rfl, nofun⟩

theorem later_send (bytes : List UInt8) (w : Socket × Network) :
    Dialog.Ends (send bytes) w fun _ v => Later w v := by
  refine (send_ends bytes w).imp ?_
  rintro r v ⟨htransport, hpeer, hworld, hhistory, -⟩
  exact ⟨htransport, hpeer, hworld, [_], hhistory, by simp [Event.IsOn]⟩

theorem peek_cases (wait : Nat) (s : Socket) (n : Network) : ∃ queue micros,
    (∃ head, peek wait (s, n) = .ok head ({ s with queue }, n.pass micros)) ∨
      (∃ f, peek wait (s, n) = .error (.ofFailure f) ({ s with queue }, n.pass micros)) ∨
      peek wait (s, n) = .error .timeout
        ({ s with queue }, (n.pass micros).record (.timedOut s.transport s.peer wait)) := by
  have hpass : ∀ a b, (n.pass a).pass b = n.pass (a + b) := by
    intro a b
    simp [Network.pass, Nat.add_assoc]
  simp only [peek]
  cases (Arrival.passDelays s.queue).2 with
  | nil => exact ⟨[], _, .inr (.inr (by rw [hpass]))⟩
  | cons a rest =>
    cases a with
    | data bytes => exact ⟨_, _, .inl ⟨some bytes, rfl⟩⟩
    | closed => exact ⟨_, _, .inl ⟨none, rfl⟩⟩
    | failure f => exact ⟨rest, _, .inr (.inl ⟨f, rfl⟩)⟩
    | silence => exact ⟨rest, _, .inr (.inr (by rw [hpass]))⟩
    | delay micros => exact ⟨.delay micros :: rest, _, .inr (.inr (by rw [hpass]))⟩

theorem later_peek (wait : Nat) (w : Socket × Network) :
    Dialog.Ends (peek wait) w fun _ v => Later w v := by
  obtain ⟨s, n⟩ := w
  have hquiet : ∀ queue micros, Later (s, n) ({ s with queue }, n.pass micros) :=
    fun queue micros => ⟨rfl, rfl, rfl, [], rfl, fun _ he => nomatch he⟩
  obtain ⟨queue, micros, ⟨head, h⟩ | ⟨f, h⟩ | h⟩ := peek_cases wait s n
  · exact Dialog.ends_of_ok h (hquiet _ _)
  · exact Dialog.ends_of_error h (hquiet _ _)
  · refine Dialog.ends_of_error h ?_
    exact ⟨rfl, rfl, rfl, [.timedOut s.transport s.peer wait], rfl, by simp [Event.IsOn]⟩

theorem later_takeDatagram (w : Socket × Network) :
    Dialog.Ends takeDatagram w fun _ v => Later w v := by
  obtain ⟨⟨transport, peer, queue⟩, n⟩ := w
  match queue with
  | .data bytes :: rest =>
    exact ⟨rfl, rfl, rfl, [.received transport peer bytes], rfl, by simp [Event.IsOn]⟩
  | [] | .silence :: _ | .delay _ :: _ | .failure _ :: _ | .closed :: _ => exact Later.refl _

/-- Something with a socket and its network after some events of the socket. -/
def LaterOf {σ : Type} (socket : σ → Socket) (w v : σ × Network) : Prop :=
  Later (socket w.1, w.2) (socket v.1, v.2)

section LaterOf

variable {σ τ α : Type} {socket : σ → Socket}

instance : Std.Refl (LaterOf socket) := ⟨fun _ => Later.refl _⟩

instance : Trans (LaterOf socket) (LaterOf socket) (LaterOf socket) := ⟨Later.trans⟩

theorem laterOf_modifyState {f : σ → σ} (hf : ∀ s, socket (f s) = socket s) :
    Dialog.Moves (LaterOf socket) (Dialog.modifyState f) := by
  refine Dialog.moves_modifyState fun s n => ?_
  rw [LaterOf, hf]
  exact .refl _

theorem laterOf_on (socket : σ → Socket) {d : Dialog σ α} {outer : τ → Socket} {get : τ → σ}
    {put : σ → τ → τ} (hd : Dialog.Moves (LaterOf socket) d) (hget : ∀ t, outer t = socket (get t))
    (hput : ∀ s t, outer (put s t) = socket s) :
    Dialog.Moves (LaterOf outer) (Dialog.on (.field get put) d) := by
  refine hd.on fun t n s v hs hv => ?_
  cases hs
  change Later _ (outer (put v.1 t), v.2)
  rw [hget, hput]
  exact hv

end LaterOf

end Socket

/-! ## Datagrams -/

/-- However small the buffer is at first, only what no buffer holds of a datagram is cut off. -/
theorem BufferSize.take_fit (b : BufferSize) (datagram : List UInt8) :
    datagram.take (b.fit datagram).bytes = datagram.take maxDatagramSize := by
  fun_induction fit b datagram with
  | case1 b hfits =>
    have hmax := b.le_max
    rcases hfits with hroom | hfull
    · rw [List.length_take] at hroom
      rw [List.take_of_length_le (by omega), List.take_of_length_le (by omega)]
    · rw [Nat.le_antisymm hmax hfull]
  | case2 b hfull ih => exact ih

open Dialog Socket

namespace DatagramChannel

theorem connect_ends {σ : Type} (peer : SocketAddress) (size : Nat) (w : σ × Network) :
    Ends (connect peer size) w fun r v => v.1 = w.1 ∧
      match r with
      | .ok c => c = { socket := { transport := .udp, peer }, buffer := .clamp size } ∧
          v.2.history = .connected .udp peer none :: w.2.history
      | .error e => e ≠ .notAuthenticated ∧
          ∃ f, v.2.history = .connected .udp peer (some f) :: w.2.history := by
  refine (Socket.connect_ends .udp peer w).bind ?_ fun e v hv => hv
  rintro s v ⟨hv, rfl, hhistory⟩
  exact ⟨hv, rfl, hhistory⟩

theorem laterOf_send (bytes : List UInt8) : Moves (LaterOf socket) (send bytes) :=
  laterOf_on id (later_send bytes) (fun _ => rfl) fun _ _ => rfl

theorem laterOf_sendRequest (w : Writer Unit) : Moves (LaterOf socket) (sendRequest w) :=
  (moves_ofCodec _).bind fun filled => laterOf_send filled.bytes

theorem laterOf_receive (timeout : Option Nat) : Moves (LaterOf socket) (receive timeout) := by
  refine moves_state.bind fun c => moves_network.bind fun n => ?_
  refine Moves.bind ?_ fun head => ?_
  · exact laterOf_on id (later_peek _) (fun _ => rfl) fun _ _ => rfl
  · cases head with
    | none => exact moves_throw _
    | some datagram =>
      refine Moves.bind (laterOf_modifyState ?_) fun _ => Moves.bind ?_ fun _ => moves_pure _
      · exact fun _ => rfl
      · exact laterOf_on id later_takeDatagram (fun _ => rfl) fun _ _ => rfl

/-- A request that has no room is not sent, and no other is left out. -/
theorem sendRequest_ends (s : List UInt8) (w : DatagramChannel × Network) :
    Ends (sendRequest (Writer.bytes s)) w fun r v =>
      (∃ e, r = .error (.ofCodec e) ∧ v = w) ∨ ((∀ e, r = .error e → ∃ f, e = .ofFailure f) ∧
        v.2.history = .sent w.1.socket.transport w.1.socket.peer s :: w.2.history) := by
  rw [sendRequest, Writer.encode_bytes]
  split
  · refine ends_ofCodec_bind (fun filled hfilled => ?_) fun e he => by cases he
    cases hfilled
    refine Ends.on (p := socketPart) rfl (ends_state_bind (ends_network_bind ?_))
    refine ends_bind_of_ok rfl ?_
    have hbytes : Writer.Filled.bytes
        ⟨s.length, s ++ (List.replicate requestRoom 0).drop s.length⟩ = s := by
      simp [Writer.Filled.bytes]
    rw [hbytes]
    split
    · next f _ =>
      refine .inr ⟨fun e he => ?_, rfl⟩
      cases he
      exact ⟨f, rfl⟩
    · refine .inr ⟨fun e he => ?_, rfl⟩
      cases he
  · exact ends_ofCodec_bind (fun filled hfilled => by cases hfilled) fun e _ => .inl ⟨e, rfl, rfl⟩

theorem receive_ends (timeout : Option Nat) (w : DatagramChannel × Network) :
    Ends (receive timeout) w fun r v =>
      match r with
      | .ok bytes => ∃ datagram, bytes = datagram.take maxDatagramSize ∧ v.2.history =
          .received w.1.socket.transport w.1.socket.peer datagram :: w.2.history
      | .error e => e.IsPlain ∧ (v.2.history = w.2.history ∨ ∃ wait, v.2.history =
          .timedOut w.1.socket.transport w.1.socket.peer wait :: w.2.history) := by
  obtain ⟨c, n⟩ := w
  refine ends_state_bind (ends_network_bind ?_)
  have hpeek : Ends (.on socketPart (Socket.peek (n.settings.wait timeout c.timeout))) (c, n)
      fun r v => v.1.socket.transport = c.socket.transport ∧ v.1.socket.peer = c.socket.peer ∧
        match r with
        | .ok head => v.2.history = n.history ∧ ∀ datagram, head = some datagram →
            ∃ rest, v.1.socket.queue = .data datagram :: rest
        | .error e => e.IsPlain ∧ (v.2.history = n.history ∨ ∃ wait, v.2.history =
            .timedOut c.socket.transport c.socket.peer wait :: n.history) := by
    refine Ends.on (t := c.socket) rfl ?_
    obtain ⟨queue, micros, ⟨head, h⟩ | ⟨f, h⟩ | h⟩ :=
      Socket.peek_cases (n.settings.wait timeout c.timeout) c.socket n
    · refine ends_of_ok h ⟨rfl, rfl, rfl, fun datagram hd => ?_⟩
      subst hd
      exact (Socket.peek_eq_ok h).2
    · exact ends_of_error h ⟨rfl, rfl, ClientError.isPlain_ofFailure f, .inl rfl⟩
    · exact ends_of_error h ⟨rfl, rfl, nofun, .inr ⟨_, rfl⟩⟩
  refine hpeek.bind ?_ fun e v hv => hv.2.2
  rintro head ⟨⟨⟨transport, peer, queue⟩, own, buffer'⟩, m⟩ ⟨htransport, hpeer, hhistory, hhead⟩
  cases head with
  | none => exact ⟨nofun, .inl hhistory⟩
  | some datagram =>
    obtain ⟨rest, hqueue⟩ := hhead datagram rfl
    simp only at htransport hpeer hqueue hhistory
    subst htransport hpeer hqueue
    exact ⟨datagram, c.buffer.take_fit datagram, congrArg _ hhistory⟩

end DatagramChannel

namespace QueryChannel

def socket (c : QueryChannel) : Socket := c.channel.socket

theorem connect_ends {σ : Type} (peer : SocketAddress) (framing : Framing) (w : σ × Network) :
    Ends (connect peer framing) w fun r v => v.1 = w.1 ∧
      match r with
      | .ok c => c.socket = { transport := .udp, peer } ∧ c.reassembler = { framing } ∧
          v.2.history = .connected .udp peer none :: w.2.history
      | .error e => e ≠ .notAuthenticated ∧
          ∃ f, v.2.history = .connected .udp peer (some f) :: w.2.history := by
  refine (DatagramChannel.connect_ends peer queryBufferSize w).bind ?_ fun e v hv => hv
  rintro c v ⟨hv, rfl, hhistory⟩
  exact ⟨hv, rfl, rfl, hhistory⟩

theorem laterOf_send (r : Request) : Moves (LaterOf socket) (send r) :=
  laterOf_on DatagramChannel.socket (DatagramChannel.laterOf_sendRequest _) (fun _ => rfl)
    fun _ _ => rfl

theorem laterOf_accept (datagram : List UInt8) : Moves (LaterOf socket) (accept datagram) := by
  unfold accept
  split
  · exact moves_ofCodec _
  · split
    · exact (moves_ofCodec _).map some
    · split
      · refine moves_state.bind fun c => ?_
        cases c.reassembler.push Bzip2.unpacker datagram with
        | mk content reassembler =>
          refine Moves.bind (laterOf_modifyState ?_) fun _ => Moves.bind (moves_ofCodec _) ?_
          · exact fun _ => rfl
          · rintro (_ | whole)
            · exact moves_pure _
            · exact (moves_ofCodec _).map some
      · exact moves_ofCodec _

theorem laterOf_replyPass (timeout : Option Nat) : Moves (LaterOf socket) (replyPass timeout) := by
  refine Moves.bind ?_ fun datagram => ?_
  · exact laterOf_on DatagramChannel.socket (DatagramChannel.laterOf_receive timeout)
      (fun _ => rfl) fun _ _ => rfl
  · refine (laterOf_accept datagram).bind fun r => ?_
    cases r with
    | none => exact moves_pure _
    | some r => exact moves_state.bind fun c => moves_pure _

theorem laterOf_reply (timeout : Option Nat) : Moves (LaterOf socket) (reply timeout) := by
  refine Moves.bind (laterOf_modifyState ?_) fun _ => ?_
  · exact fun _ => rfl
  · exact Moves.iterate replyPass_shortens () fun _ => laterOf_replyPass timeout

end QueryChannel

end GameQuery
