import GameQuery.Proofs.Onlooker
import GameQuery.Proofs.RequestNumbers

namespace GameQuery

/-!
# Where replies come from

A client that waits for a reply takes datagrams from one peer until one of them completes the reply,
and keeps nothing of earlier ones. So a reply is a function of the datagrams that have been taken
for it, and these can be read off the history: `Came` says that a reply has come from a peer.
-/

open Dialog

/-- The events of taking some datagrams, the latest event first. -/
def receptions (peer : SocketAddress) (datagrams : List (List UInt8)) : List Event :=
  (datagrams.map (.received .udp peer)).reverse

theorem receptions_append (peer : SocketAddress) (datagrams : List (List UInt8))
    (datagram : List UInt8) : receptions peer (datagrams ++ [datagram]) =
      .received .udp peer datagram :: receptions peer datagrams := by
  rw [receptions, List.map_append, List.reverse_append]
  rfl

namespace QueryChannel

/-- The reply that the last of some datagrams completes, if none of them is refused and the others
are fragments and lines of a log. -/
def replyIn (r : Reassembler) : List (List UInt8) → Option Reply
  | [] => none
  | datagram :: rest =>
    match digest r (datagram.take maxDatagramSize) with
    | (.error _, _) => none
    | (.ok none, r) => replyIn r rest
    | (.ok (some reply), r) =>
      if isLogLine r.framing reply then replyIn r rest
      else if rest = [] then some reply else none

/-- A channel for datagrams of some framing from and to a peer, with a timeout of its own. -/
structure IsBoundTo (peer : SocketAddress) (framing : Framing) (timeout : Option Nat)
    (c : QueryChannel) : Prop where
  transport : c.socket.transport = .udp
  peer : c.socket.peer = peer
  framing : c.reassembler.framing = framing
  timeout : c.channel.timeout = timeout

end QueryChannel

/-- A reply has come from a peer: it is in a stretch of datagrams that have been taken one after
another. -/
def Came (framing : Framing) (peer : SocketAddress) (recent : List Event) (reply : Reply) : Prop :=
  ∃ later datagrams earlier, recent = later ++ (receptions peer datagrams ++ earlier) ∧
    QueryChannel.replyIn { framing } datagrams = some reply

theorem Came.append {framing : Framing} {peer : SocketAddress} {recent : List Event} {reply : Reply}
    (h : Came framing peer recent reply) (new : List Event) :
    Came framing peer (new ++ recent) reply := by
  obtain ⟨later, datagrams, earlier, rfl, hreply⟩ := h
  exact ⟨new ++ later, datagrams, earlier, (List.append_assoc ..).symm, hreply⟩

theorem Came.after {framing : Framing} {peer : SocketAddress} {recent : List Event} {reply : Reply}
    (h : Came framing peer recent reply) (old : List Event) :
    Came framing peer (recent ++ old) reply := by
  obtain ⟨later, datagrams, earlier, rfl, hreply⟩ := h
  exact ⟨later, datagrams, earlier ++ old, by simp only [List.append_assoc], hreply⟩

/-! ## Sending -/

theorem ClientError.ofFailure_ne_unexpected (f : Failure) : ofFailure f ≠ .unexpected := by
  cases f <;> nofun

theorem ClientError.ofCodec_ne_unexpected (e : CodecError) : ofCodec e ≠ .unexpected := by
  intro h
  rw [ofCodec] at h
  split at h <;> cases h

namespace DatagramChannel

variable {σ α : Type}

/-- The timeout of a channel is as it was. -/
def SameTimeout (w v : DatagramChannel × Network) : Prop := v.1.timeout = w.1.timeout

instance : Std.Refl SameTimeout := ⟨fun _ => rfl⟩

instance : Trans SameTimeout SameTimeout SameTimeout := ⟨fun h h' => Eq.trans h' h⟩

theorem sameTimeout_onSocket (d : Dialog Socket α) : Moves SameTimeout (on socketPart d) := by
  refine Moves.on (S := fun _ _ => True) (fun _ => ends_of_forall fun _ _ => trivial) ?_
  intro c n s v _ _
  rfl

theorem sameTimeout_sendRequest (w : Writer Unit) : Moves SameTimeout (sendRequest w) :=
  (moves_ofCodec _).bind fun _ => sameTimeout_onSocket _

theorem sameTimeout_receive (timeout : Option Nat) : Moves SameTimeout (receive timeout) := by
  refine moves_state.bind fun c => moves_network.bind fun n => ?_
  refine (sameTimeout_onSocket _).bind fun head => ?_
  split
  · exact moves_throw _
  · refine Moves.bind (moves_modifyState fun _ _ => rfl) fun _ => ?_
    exact (sameTimeout_onSocket _).bind fun _ => moves_pure _

theorem receive_ne_unexpected (timeout : Option Nat) (w : DatagramChannel × Network) :
    Ends (receive timeout) w fun r _ => ∀ e, r = .error e → e ≠ .unexpected := by
  obtain ⟨c, n⟩ := w
  refine ends_state_bind (ends_network_bind ?_)
  have hpeek : Ends (on socketPart (Socket.peek (n.settings.wait timeout c.timeout))) (c, n)
      fun r _ => ∀ e, r = .error e → e ≠ .unexpected := by
    refine Ends.on (t := c.socket) rfl ?_
    obtain ⟨queue, micros, ⟨head, h⟩ | ⟨f, h⟩ | h⟩ :=
      Socket.peek_cases (n.settings.wait timeout c.timeout) c.socket n
    · exact ends_of_ok h nofun
    · refine ends_of_error h ?_
      rintro e ⟨⟩
      exact ClientError.ofFailure_ne_unexpected f
    · refine ends_of_error h ?_
      rintro e ⟨⟩
      nofun
  refine hpeek.bind (fun head v _ => ?_) ?_
  · split
    · refine ends_throw ?_
      rintro e ⟨⟩
      nofun
    · refine ends_modifyState_bind (Ends.bind (Q := fun r _ => ∃ u, r = .ok u) ?_ ?_ ?_)
      · obtain ⟨⟨⟨transport, peer, queue⟩, own, buffer⟩, m⟩ := v
        match queue with
        | .data bytes :: rest => exact ⟨(), rfl⟩
        | [] | .silence :: _ | .delay _ :: _ | .failure _ :: _ | .closed :: _ => exact ⟨(), rfl⟩
      · exact fun _ _ _ => ends_pure nofun
      · rintro e v ⟨u, he⟩
        cases he
  · intro e v h e' he
    cases he
    exact h e rfl

end DatagramChannel

theorem DatagramChannel.sendRequest_eq (s : List UInt8) : sendRequest (Writer.bytes s) =
    if s.length ≤ requestRoom then send s else throw (.ofCodec .endOfBuffer) := by
  rw [sendRequest, Writer.encode_bytes, List.length_replicate]
  split
  · simp only [ofCodec, pure_bind, Writer.Filled.bytes, List.take_left']
  · rfl

namespace QueryChannel

variable {peer : SocketAddress} {framing : Framing} {own : Option Nat} {c : QueryChannel}
  {n m : Network}

theorem IsBoundTo.of_channel {channel : DatagramChannel} (h : c.IsBoundTo peer framing own)
    (hlater : Socket.Later (c.channel.socket, n) (channel.socket, m))
    (hsame : channel.timeout = c.channel.timeout) :
    IsBoundTo peer framing own { c with channel } where
  transport := hlater.transport.trans h.transport
  peer := hlater.peer.trans h.peer
  framing := h.framing
  timeout := hsame.trans h.timeout

/-- A request is sent to the peer, unless it has no room. -/
theorem send_ends (r : Request) (h : c.IsBoundTo peer framing own) (n : Network) :
    Ends (send r) (c, n) fun o v => v.1.IsBoundTo peer framing own ∧
      (∀ e, o = .error e → e ≠ .unexpected) ∧
      (v.2.history = .sent .udp peer r.bytes :: n.history ∨
        requestRoom < r.bytes.length ∧ v.2.history = n.history) := by
  rw [send, Request.write_eq, DatagramChannel.sendRequest_eq]
  obtain ⟨htransport, hpeer, hframing, htimeout⟩ := h
  simp only [socket] at htransport hpeer
  refine Ends.on (p := channelPart) rfl ?_
  split
  · refine Ends.on (p := DatagramChannel.socketPart) rfl ?_
    rw [Ends, Socket.send_eq, htransport, hpeer]
    cases n.world.react n.history .udp peer r.bytes with
    | ok arrivals => exact ⟨⟨rfl, rfl, hframing, htimeout⟩, nofun, .inl rfl⟩
    | error f =>
      refine ⟨⟨htransport, hpeer, hframing, htimeout⟩, ?_, .inl rfl⟩
      rintro e ⟨⟩
      exact ClientError.ofFailure_ne_unexpected f
  · next hlarge =>
    refine ends_throw ⟨⟨htransport, hpeer, hframing, htimeout⟩, ?_, .inr ⟨?_, rfl⟩⟩
    · rintro e ⟨⟩
      exact ClientError.ofCodec_ne_unexpected _
    · omega

/-! ## Receiving -/

/-- The events of waiting for a reply that does not come: nothing arrives any more in time, or what
arrives is no reply. -/
def Abandoned (peer : SocketAddress) (datagrams : List (List UInt8)) (old history : List Event) :
    Prop :=
  history = receptions peer datagrams ++ old ∨
    ∃ wait, history = .timedOut .udp peer wait :: (receptions peer datagrams ++ old)

/-- What comes of waiting for a reply. -/
def Waited (framing : Framing) (peer : SocketAddress) (old : List Event)
    (datagrams : List (List UInt8)) (r : Except ClientError Reply) (history : List Event) : Prop :=
  match r with
  | .ok reply => replyIn { framing } datagrams = some reply ∧
      history = receptions peer datagrams ++ old
  | .error e => replyIn { framing } datagrams = none ∧ e ≠ .unexpected ∧
      Abandoned peer datagrams old history

theorem receive_bound (timeout : Option Nat) (h : c.IsBoundTo peer framing own) (n : Network) :
    Ends (on channelPart (DatagramChannel.receive timeout)) (c, n) fun r v =>
      v.1.IsBoundTo peer framing own ∧ v.1.reassembler = c.reassembler ∧
        match r with
        | .ok datagram => ∃ bytes, datagram = bytes.take maxDatagramSize ∧
            v.2.history = .received .udp peer bytes :: n.history
        | .error e => e ≠ .unexpected ∧ (v.2.history = n.history ∨
            ∃ wait, v.2.history = .timedOut .udp peer wait :: n.history) := by
  have hlater := DatagramChannel.laterOf_receive timeout (c.channel, n)
  have hsame := DatagramChannel.sameTimeout_receive timeout (c.channel, n)
  have hplain := DatagramChannel.receive_ne_unexpected timeout (c.channel, n)
  have hreceive := DatagramChannel.receive_ends timeout (c.channel, n)
  refine Ends.on rfl ((((hlater.and hsame).and hplain).and hreceive).imp ?_)
  rintro r v ⟨⟨⟨hlater, hsame⟩, hplain⟩, hr⟩
  have htransport : c.channel.socket.transport = .udp := h.transport
  have hpeer : c.channel.socket.peer = peer := h.peer
  rw [htransport, hpeer] at hr
  refine ⟨h.of_channel hlater hsame, rfl, ?_⟩
  cases r with
  | ok datagram => exact hr
  | error e => exact ⟨hplain e rfl, hr.2⟩

/-- Some datagrams have been taken, and the reply is still to come. -/
structure Underway (framing : Framing) (peer : SocketAddress) (own : Option Nat)
    (old : List Event) (datagrams : List (List UInt8)) (v : QueryChannel × Network) : Prop where
  bound : v.1.IsBoundTo peer framing own
  history : v.2.history = receptions peer datagrams ++ old
  replyIn : ∀ rest, QueryChannel.replyIn { framing } (datagrams ++ rest) =
    QueryChannel.replyIn v.1.reassembler rest

theorem replyPass_ends (timeout : Option Nat) {old : List Event} {datagrams : List (List UInt8)}
    (h : Underway framing peer own old datagrams (c, n)) :
    Ends (replyPass timeout) (c, n) fun r v =>
      match r with
      | .ok (.again _) => ∃ datagrams, Underway framing peer own old datagrams v
      | .ok (.done reply) => v.1.IsBoundTo peer framing own ∧
          ∃ datagrams, Waited framing peer old datagrams (.ok reply) v.2.history
      | .error e => v.1.IsBoundTo peer framing own ∧
          ∃ datagrams, Waited framing peer old datagrams (.error e) v.2.history := by
  obtain ⟨hbound, hhistory, hreplyIn⟩ := h
  refine (receive_bound timeout hbound n).bind ?_ ?_
  · rintro datagram ⟨d, m⟩ ⟨hd, hreassembler, bytes, rfl, hm⟩
    simp only at hreplyIn hhistory hreassembler hm hd
    rw [hhistory, ← List.cons_append, ← receptions_append] at hm
    have hall : ∀ rest, QueryChannel.replyIn { framing } ((datagrams ++ [bytes]) ++ rest) =
        QueryChannel.replyIn c.reassembler (bytes :: rest) := by
      intro rest
      rw [List.append_assoc]
      exact hreplyIn (bytes :: rest)
    have haccept := accept_eq (bytes.take maxDatagramSize) d m
    have hframing := digest_framing d.reassembler (bytes.take maxDatagramSize)
    rw [hreassembler] at haccept hframing
    cases hdigest : digest c.reassembler (bytes.take maxDatagramSize) with
    | mk content r =>
      rw [hdigest] at haccept hframing
      have hbound' : IsBoundTo peer framing own { d with reassembler := r } :=
        ⟨hd.transport, hd.peer, hframing.trans hbound.framing, hd.timeout⟩
      simp only [QueryChannel.replyIn, hdigest] at hall
      rcases content with e | _ | reply
      · refine ends_of_error (bind_of_error haccept _)
          ⟨hbound', datagrams ++ [bytes], ?_, ClientError.ofCodec_ne_unexpected e, .inl hm⟩
        have hnone := hall []
        rwa [List.append_nil] at hnone
      · exact ends_bind_of_ok haccept ⟨datagrams ++ [bytes], hbound', hm, hall⟩
      · refine ends_bind_of_ok haccept (ends_state_bind ?_)
        simp only
        simp only at hall
        split
        · next hlog =>
          simp only [hlog, if_true] at hall
          exact ends_pure ⟨datagrams ++ [bytes], hbound', hm, hall⟩
        · next hlog =>
          simp only [hlog, Bool.false_eq_true, if_false] at hall
          refine ends_pure ⟨hbound', datagrams ++ [bytes], ?_, hm⟩
          have hlast := hall []
          rwa [List.append_nil, if_pos rfl] at hlast
  · rintro e ⟨d, m⟩ ⟨hd, -, he, hm⟩
    have hnone := hreplyIn []
    rw [List.append_nil] at hnone
    refine ⟨hd, datagrams, hnone, he, ?_⟩
    simp only at hhistory hm
    rwa [hhistory] at hm

/-- However waiting for a reply ends, the history tells which datagrams have been taken, and the
reply is in them. -/
theorem reply_ends (timeout : Option Nat) (h : c.IsBoundTo peer framing own) (n : Network) :
    Ends (reply timeout) (c, n) fun r v => v.1.IsBoundTo peer framing own ∧
      ∃ datagrams, Waited framing peer n.history datagrams r v.2.history := by
  obtain ⟨htransport, hpeer, hframing, htimeout⟩ := h
  refine ends_modifyState_bind (ends_iterate replyPass_shortens
    (fun _ v => ∃ datagrams, Underway framing peer own n.history datagrams v) ?_ ?_)
  · rintro - ⟨d, m⟩ ⟨datagrams, hd⟩
    refine (replyPass_ends timeout hd).imp ?_
    rintro (e | _ | reply) v hv
    · exact hv
    · exact hv
    · exact hv
  · refine ⟨[], ⟨htransport, hpeer, hframing, htimeout⟩, rfl, fun rest => ?_⟩
    rw [← hframing]
    rfl

/-- A request is sent, and its reply is waited for. -/
theorem converse_ends {r : Request} (hr : ∀ line, r ≠ .console line)
    (h : c.IsBoundTo peer framing own) (n : Network) :
    Ends (do send r; reply none) (c, n) fun o v => v.1.IsBoundTo peer framing own ∧
      ∃ datagrams, Waited framing peer (.sent .udp peer r.bytes :: n.history) datagrams o
        v.2.history := by
  have hroom := Request.length_bytes_le hr
  have hsent : Ends (send r) (c, n) fun o v => v.1.IsBoundTo peer framing own ∧
      (∀ e, o = .error e → e ≠ .unexpected) ∧
      v.2.history = .sent .udp peer r.bytes :: n.history := by
    refine (send_ends r h n).imp ?_
    rintro o v ⟨hv, ho, hhistory⟩
    exact ⟨hv, ho, hhistory.resolve_right fun hlarge => absurd hroom (Nat.not_le.2 hlarge.1)⟩
  refine hsent.bind ?_ ?_
  · rintro _ ⟨d, m⟩ ⟨hd, -, hm⟩
    have hreply := reply_ends none hd m
    simp only at hm
    rwa [hm] at hreply
  · rintro e v ⟨hv, he, hhistory⟩
    exact ⟨hv, [], rfl, he e rfl, .inl hhistory⟩

end QueryChannel

end GameQuery
