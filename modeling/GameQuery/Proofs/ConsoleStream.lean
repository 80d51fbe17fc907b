import GameQuery.Channel.Console
import GameQuery.Proofs.ReaderLaws
import GameQuery.Proofs.SocketLaws
import GameQuery.Proofs.WriterLaws

namespace GameQuery

/-!
# Frames on a stream

A console channel reads whole frames: whenever it gives a reply, the bytes received since the last
one are exactly the frame of the reply. `Reception` accounts for the bytes taken off a stream, and
`reply_ends` and `send_ends` say everything that receiving and sending a frame can do.
-/

namespace Rcon

/-- The bytes of a frame with its size in front. -/
def frameBytes (id kind : Int32) (body : List UInt8) : List UInt8 :=
  leBytes 4 (UInt32.ofNat (body.length + minFrameSize)).toNat ++
    (leBytes 4 id.toUInt32.toNat ++ (leBytes 4 kind.toUInt32.toNat ++ (body ++ [0, 0])))

def Request.bytes (r : Request) : List UInt8 := frameBytes r.id r.kind (Text.Utf8.encode r.body)

def frameKind (bytes : List UInt8) : Nat := leValue ((bytes.drop 8).take 4)

theorem length_payload (id kind : Int32) (body : List UInt8) :
    (leBytes 4 id.toUInt32.toNat ++ (leBytes 4 kind.toUInt32.toNat ++ (body ++ [0, 0]))).length =
      body.length + minFrameSize := by
  simp only [List.length_append, length_leBytes, List.length_cons, List.length_nil, minFrameSize]
  omega

theorem length_frameBytes (id kind : Int32) (body : List UInt8) :
    (frameBytes id kind body).length = body.length + minFrameSize + 4 := by
  rw [frameBytes, List.length_append, length_payload, length_leBytes, Nat.add_comm]

theorem frameKind_frameBytes (id kind : Int32) (body : List UInt8) :
    frameKind (frameBytes id kind body) = kind.toUInt32.toNat := by
  have hdrop : (frameBytes id kind body).drop 8 =
      leBytes 4 kind.toUInt32.toNat ++ (body ++ [0, 0]) := by
    rw [frameBytes, ← List.append_assoc]
    exact List.drop_left' (by simp)
  rw [frameKind, hdrop, List.take_left' (length_leBytes 4 _), leValue_leBytes]
  exact Nat.mod_eq_of_lt kind.toUInt32.toNat_lt

theorem writeFrame_eq (id kind : Int32) (body : List UInt8) :
    writeFrame id kind body =
      if maxFrameSize < body.length + minFrameSize then
        throw (.badFrameSize (Int32.ofNat (body.length + minFrameSize)))
      else Writer.bytes (frameBytes id kind body) := by
  rw [writeFrame]
  split
  · rfl
  · simp only [Writer.u32, Writer.i32, Writer.bytes_bind_bytes, frameBytes]

/-- Bytes that are the frame of a reply. -/
def IsFrame (bytes : List UInt8) (r : Reply) : Prop :=
  ∃ start payload, bytes = start ++ payload ∧ start.length = 4 ∧
    frameSize start = .ok payload.length ∧ Reply.decode payload = .ok r

/-- Bytes that are the frames of some replies, one after another. -/
inductive AreFrames : List UInt8 → List Reply → Prop
  | nil : AreFrames [] []
  | cons {frame bytes : List UInt8} {r : Reply} {rs : List Reply} :
    IsFrame frame r → AreFrames bytes rs → AreFrames (frame ++ bytes) (r :: rs)

theorem AreFrames.append {s t : List UInt8} {rs qs : List Reply} (hs : AreFrames s rs)
    (ht : AreFrames t qs) : AreFrames (s ++ t) (rs ++ qs) := by
  induction hs with
  | nil => exact ht
  | cons hframe _ ih =>
    rw [List.append_assoc]
    exact .cons hframe ih

theorem IsFrame.areFrames {s : List UInt8} {r : Reply} (h : IsFrame s r) : AreFrames s [r] := by
  rw [← List.append_nil s]
  exact .cons h .nil

end Rcon

/-- Events of a client that only listens to a stream. -/
def Event.IsReception (peer : SocketAddress) : Event → Prop
  | .received .tcp p _ | .timedOut .tcp p _ => p = peer
  | _ => False

namespace Socket

/-- A stream and its network after `bytes` have been taken off the stream. -/
structure Reception (w v : Socket × Network) (bytes : List UInt8) : Prop where
  transport : v.1.transport = w.1.transport
  peer : v.1.peer = w.1.peer
  world : v.2.world = w.2.world
  history : ∃ new, v.2.history = new ++ w.2.history ∧ (∀ e ∈ new, e.IsReception w.1.peer) ∧
    receivedBytes new = bytes

theorem Reception.refl (w : Socket × Network) : Reception w w [] :=
  ⟨rfl, rfl, rfl, [], rfl, (fun _ he => nomatch he), rfl⟩

theorem Reception.trans {u v w : Socket × Network} {s t : List UInt8} (h : Reception u v s)
    (h' : Reception v w t) : Reception u w (s ++ t) := by
  obtain ⟨new, hnew, hon, hbytes⟩ := h.history
  obtain ⟨new', hnew', hon', hbytes'⟩ := h'.history
  refine ⟨h'.transport.trans h.transport, h'.peer.trans h.peer, h'.world.trans h.world,
    new' ++ new, ?_, fun e he => ?_, ?_⟩
  · rw [hnew', hnew, List.append_assoc]
  · rcases List.mem_append.1 he with he | he
    · exact h.peer ▸ hon' e he
    · exact hon e he
  · rw [receivedBytes_append, hbytes, hbytes']

theorem Reception.after_nil {u v w : Socket × Network} {t : List UInt8} (h : Reception u v [])
    (h' : Reception v w t) : Reception u w t := h.trans h'

theorem peek_reception (wait : Nat) {w : Socket × Network} (hw : w.1.transport = .tcp) :
    Dialog.Ends (peek wait) w fun r v =>
      Reception w v [] ∧ r ≠ .error .notAuthenticated := by
  obtain ⟨s, n⟩ := w
  have hquiet : ∀ queue micros, Reception (s, n) ({ s with queue }, n.pass micros) [] :=
    fun queue micros => ⟨rfl, rfl, rfl, [], rfl, (fun _ he => nomatch he), rfl⟩
  obtain ⟨queue, micros, ⟨head, h⟩ | ⟨f, h⟩ | h⟩ := peek_cases wait s n
  · exact Dialog.ends_of_ok h ⟨hquiet _ _, nofun⟩
  · refine Dialog.ends_of_error h ⟨hquiet _ _, fun he => ?_⟩
    exact ClientError.ofFailure_ne_notAuthenticated f (Except.error.inj he)
  · refine Dialog.ends_of_error h ⟨?_, nofun⟩
    have htcp : s.transport = .tcp := hw
    refine ⟨rfl, rfl, rfl, [.timedOut s.transport s.peer wait], rfl, ?_, rfl⟩
    simp [Event.IsReception, htcp]

theorem takeBytes_reception (count : Nat) {w : Socket × Network} (hw : w.1.transport = .tcp) :
    Dialog.Ends (takeBytes count) w fun r v =>
      ∃ bytes, r = .ok bytes ∧ Reception w v bytes ∧ bytes.length ≤ count := by
  obtain ⟨⟨transport, peer, queue⟩, n⟩ := w
  obtain rfl : transport = .tcp := hw
  match queue with
  | .data bytes :: rest =>
    refine ⟨bytes.take count, rfl, ⟨rfl, rfl, rfl, [.received .tcp peer (bytes.take count)], rfl,
      ?_, rfl⟩, ?_⟩
    · simp [Event.IsReception]
    · exact List.length_take_le count bytes
  | [] | .silence :: _ | .delay _ :: _ | .failure _ :: _ | .closed :: _ =>
    exact ⟨[], rfl, .refl _, Nat.zero_le _⟩

theorem read_reception (wait count : Nat) {w : Socket × Network} (hw : w.1.transport = .tcp) :
    Dialog.Ends (read wait count) w fun r v => ∃ bytes, Reception w v bytes ∧
      match r with
      | .ok (some out) => bytes = out ∧ out.length ≤ count
      | .ok none => bytes = []
      | .error e => bytes = [] ∧ e ≠ .notAuthenticated := by
  refine (peek_reception wait hw).bind (fun head v hv => ?_) fun e v hv => ?_
  · cases head with
    | none => exact ⟨[], hv.1, rfl⟩
    | some _ =>
      have hvt : v.1.transport = .tcp := hv.1.transport.trans hw
      refine (takeBytes_reception count hvt).bind ?_ ?_
      · rintro out u ⟨bytes, hout, hu, hlen⟩
        cases hout
        refine ⟨out, hv.1.after_nil hu, ?_⟩
        cases out with
        | nil => rfl
        | cons b out => exact ⟨rfl, hlen⟩
      · rintro e u ⟨bytes, hout, -⟩
        cases hout
  · exact ⟨[], hv.1, rfl, fun he => hv.2 (by rw [he])⟩

end Socket

namespace ConsoleChannel

open Socket

theorem fillPass_reception (wait : Nat) {count : Nat} {head : List UInt8} {w : Socket × Network}
    (hw : w.1.transport = .tcp) (hhead : head.length ≤ count) :
    Dialog.Ends (fillPass wait count head) w fun r v => ∃ bytes, Reception w v bytes ∧
      match r with
      | .ok (.again head') => head' = head ++ bytes ∧ head'.length ≤ count
      | .ok (.done (some out)) => out = head ++ bytes ∧ out.length = count
      | .ok (.done none) => True
      | .error e => e ≠ .notAuthenticated := by
  unfold fillPass
  split
  · next hcount =>
    exact ⟨[], .refl w, (List.append_nil head).symm, Nat.le_antisymm hhead hcount⟩
  · next hcount =>
    refine (read_reception wait _ hw).bind (fun out v hv => ?_) ?_
    · obtain ⟨bytes, hreception, hout⟩ := hv
      cases out with
      | none => exact ⟨bytes, hreception, trivial⟩
      | some out =>
        obtain ⟨rfl, hlen⟩ := hout
        refine ⟨bytes, hreception, rfl, ?_⟩
        rw [List.length_append]
        omega
    · rintro e v ⟨bytes, hreception, -, he⟩
      exact ⟨bytes, hreception, he⟩

theorem fill_reception (wait : Nat) {count : Nat} {head : List UInt8} {w : Socket × Network}
    (hw : w.1.transport = .tcp) (hhead : head.length ≤ count) :
    Dialog.Ends (fill wait count head) w fun r v => ∃ bytes, Reception w v bytes ∧
      match r with
      | .ok (some out) => out = head ++ bytes ∧ out.length = count
      | .ok none => True
      | .error e => e ≠ .notAuthenticated := by
  refine Dialog.ends_iterate (fun h => (fillPass_again h).1)
    (fun head' v => ∃ bytes, Reception w v bytes ∧ head' = head ++ bytes ∧ head'.length ≤ count)
    ?_ ⟨[], .refl w, (List.append_nil head).symm, hhead⟩
  rintro head' v ⟨bytes, hv, rfl, hlen⟩
  refine (fillPass_reception wait (hv.transport.trans hw) hlen).imp ?_
  rintro r u ⟨more, hu, hr⟩
  have hall := hv.trans hu
  cases r with
  | error e => exact ⟨_, hall, hr⟩
  | ok pass =>
    cases pass with
    | again head'' => exact ⟨_, hall, hr.1.trans (List.append_assoc ..), hr.2⟩
    | done out =>
      cases out with
      | none => exact ⟨_, hall, trivial⟩
      | some out => exact ⟨_, hall, hr.1.trans (List.append_assoc ..), hr.2⟩

theorem readFrame_reception (wait : Nat) {head : List UInt8} {w : Socket × Network}
    (hw : w.1.transport = .tcp) (hhead : head.length ≤ 4) :
    Dialog.Ends (readFrame wait head) w fun r v => ∃ bytes, Reception w v bytes ∧
      match r with
      | .ok (some reply) => Rcon.IsFrame (head ++ bytes) reply
      | .ok none => True
      | .error e => e ≠ .notAuthenticated := by
  refine (fill_reception wait hw hhead).bind (fun start v hv => ?_) fun e v hv => hv
  obtain ⟨bytes, hstart, hout⟩ := hv
  cases start with
  | none => exact ⟨bytes, hstart, trivial⟩
  | some start =>
    obtain ⟨rfl, hlen⟩ := hout
    refine Dialog.ends_ofCodec_bind (fun size hsize => ?_) fun e _ =>
      ⟨bytes, hstart, ClientError.ofCodec_ne_notAuthenticated e⟩
    refine (fill_reception wait (hstart.transport.trans hw) (Nat.zero_le size)).bind ?_ ?_
    · rintro payload u ⟨more, hu, hpayload⟩
      have hall := hstart.trans hu
      cases payload with
      | none => exact ⟨_, hall, trivial⟩
      | some payload =>
        obtain ⟨rfl, hcount⟩ := hpayload
        refine Dialog.Ends.map (Dialog.ends_ofCodec (fun reply hreply => ?_) fun e _ => ?_)
        · refine ⟨_, hall, head ++ bytes, payload, (List.append_assoc ..).symm, hlen, ?_, hreply⟩
          rw [hsize, ← hcount]
        · exact ⟨_, hall, ClientError.ofCodec_ne_notAuthenticated e⟩
    · rintro e u ⟨more, hu, he⟩
      exact ⟨_, hstart.trans hu, he⟩

/-! ## What a channel does to its stream -/

/-- The stream of a channel is open, to the peer of the channel. -/
def IsOpen (c : ConsoleChannel) : Prop :=
  ∃ s, c.stream = some s ∧ s.transport = .tcp ∧ s.peer = c.peer

/-- A channel whose stream is open after some events. -/
structure Stays (w v : ConsoleChannel × Network) (new : List Event) : Prop where
  isOpen : v.1.IsOpen
  peer : v.1.peer = w.1.peer
  history : v.2.history = new ++ w.2.history

/-- A channel whose stream has been shut down after some events. -/
structure Closes (w v : ConsoleChannel × Network) (new : List Event) : Prop where
  stream : v.1.stream = none
  peer : v.1.peer = w.1.peer
  history : v.2.history = .closed w.1.peer :: (new ++ w.2.history)

variable {w v : ConsoleChannel × Network} {new : List Event}

theorem IsOpen.stream_ne_none {c : ConsoleChannel} (h : c.IsOpen) : c.stream ≠ none := by
  obtain ⟨s, hs, -⟩ := h
  rw [hs]
  exact Option.some_ne_none s

theorem Stays.refl (h : w.1.IsOpen) : Stays w w [] := ⟨h, rfl, rfl⟩

theorem Stays.trans {u : ConsoleChannel × Network} {new' : List Event} (h : Stays w v new)
    (h' : Stays v u new') : Stays w u (new' ++ new) :=
  ⟨h'.isOpen, h'.peer.trans h.peer, by rw [h'.history, h.history, List.append_assoc]⟩

theorem Stays.closes {u : ConsoleChannel × Network} {new' : List Event} (h : Stays w v new)
    (h' : Closes v u new') : Closes w u (new' ++ new) :=
  ⟨h'.stream, h'.peer.trans h.peer, by rw [h'.history, h.history, h.peer, List.append_assoc]⟩

theorem Stays.receptions {new' : List Event} (h : Stays w v new)
    (hnew : ∀ e ∈ new, e.IsReception w.1.peer) (hnew' : ∀ e ∈ new', e.IsReception v.1.peer) :
    ∀ e ∈ new' ++ new, e.IsReception w.1.peer := by
  intro e he
  rcases List.mem_append.1 he with he | he
  · exact h.peer ▸ hnew' e he
  · exact hnew e he

theorem close_ends_of_closed (h : w.1.stream = none) :
    Dialog.Ends close w fun r v => r = .ok () ∧ v = w := by
  obtain ⟨⟨peer, stream, timeout⟩, n⟩ := w
  cases h
  exact ⟨rfl, rfl⟩

theorem close_ends (h : w.1.IsOpen) :
    Dialog.Ends close w fun r v => r = .ok () ∧ Closes w v [] := by
  obtain ⟨⟨peer, stream, timeout⟩, n⟩ := w
  obtain ⟨s, rfl, -⟩ := h
  exact ⟨rfl, rfl, rfl, rfl⟩

theorem on_stream {α : Type} {d : Dialog Socket α} {P : Except ClientError α → List UInt8 → Prop}
    (hw : w.1.IsOpen)
    (hd : ∀ s, s.transport = .tcp → Dialog.Ends d (s, w.2) fun r v =>
      ∃ bytes, Reception (s, w.2) v bytes ∧ P r bytes) :
    Dialog.Ends (.on streamPart d) w fun r v =>
      ∃ new, Stays w v new ∧ (∀ e ∈ new, e.IsReception w.1.peer) ∧ P r (receivedBytes new) := by
  obtain ⟨s, hs, htcp, hpeer⟩ := hw
  refine Dialog.Ends.on hs ((hd s htcp).imp ?_)
  rintro r v ⟨bytes, hv, hP⟩
  obtain ⟨new, hnew, hon, rfl⟩ := hv.history
  refine ⟨new, ⟨⟨v.1, rfl, ?_, ?_⟩, rfl, hnew⟩, ?_, hP⟩
  · rw [hv.transport, htcp]
  · exact hv.peer.trans hpeer
  · rwa [← hpeer]

theorem readStart_ends (wait : Nat) (hw : w.1.IsOpen) :
    Dialog.Ends (Dialog.onError (.on streamPart (read wait 4)) closeUnlessTimeout) w fun r v =>
      ∃ new, (∀ e ∈ new, e.IsReception w.1.peer) ∧
        match r with
        | .ok (some head) => Stays w v new ∧ receivedBytes new = head ∧ head.length ≤ 4
        | .ok none => Stays w v new
        | .error e => e ≠ .notAuthenticated ∧
            (Stays w v new ∧ receivedBytes new = [] ∨ Closes w v new) := by
  refine (on_stream hw fun s hs => read_reception wait 4 hs).onError ?_ ?_
  · rintro (_ | head) v ⟨new, hstays, hon, hnew⟩
    · exact ⟨new, hon, hstays⟩
    · exact ⟨new, hon, hstays, hnew⟩
  · rintro e v ⟨new, hstays, hon, hnew, he⟩
    unfold closeUnlessTimeout
    split
    · exact ⟨new, hon, he, .inl ⟨hstays, hnew⟩⟩
    · refine (close_ends hstays.isOpen).imp ?_
      rintro r u ⟨rfl, hu⟩
      exact ⟨new, hon, he, .inr (hstays.closes hu)⟩

theorem readRest_ends (wait : Nat) {head : List UInt8} (hw : w.1.IsOpen) (hhead : head.length ≤ 4) :
    Dialog.Ends (Dialog.onError (.on streamPart (readFrame wait head)) fun _ => close) w fun r v =>
      ∃ new, (∀ e ∈ new, e.IsReception w.1.peer) ∧
        match r with
        | .ok (some reply) => Stays w v new ∧ Rcon.IsFrame (head ++ receivedBytes new) reply
        | .ok none => Stays w v new
        | .error e => e ≠ .notAuthenticated ∧ Closes w v new := by
  refine (on_stream hw fun s hs => readFrame_reception wait hs hhead).onError ?_ ?_
  · rintro (_ | reply) v ⟨new, hstays, hon, hframe⟩
    · exact ⟨new, hon, hstays⟩
    · exact ⟨new, hon, hstays, hframe⟩
  · rintro e v ⟨new, hstays, hon, he⟩
    refine (close_ends hstays.isOpen).imp ?_
    rintro r u ⟨rfl, hu⟩
    exact ⟨new, hon, he, hstays.closes hu⟩

/-- Receiving gives the reply whose frame has arrived, or shuts the stream down, or leaves it
open after a timeout, with nothing received. -/
theorem reply_ends (timeout : Option Nat) (hw : w.1.IsOpen) :
    Dialog.Ends (reply timeout) w fun r v => ∃ new, (∀ e ∈ new, e.IsReception w.1.peer) ∧
      match r with
      | .ok (some reply) => Stays w v new ∧ Rcon.IsFrame (receivedBytes new) reply
      | .ok none => Closes w v new
      | .error e => e ≠ .notAuthenticated ∧
          (Stays w v new ∧ receivedBytes new = [] ∨ Closes w v new) := by
  have hconnected : w.1.isConnected = true := Option.isSome_iff_ne_none.2 hw.stream_ne_none
  refine Dialog.ends_state_bind (Dialog.ends_network_bind ?_)
  simp only [hconnected, Bool.not_true, Bool.false_eq_true, if_false]
  refine (readStart_ends _ hw).bind ?_ fun e v hv => hv
  rintro (_ | head) v ⟨new, hon, hv⟩
  · exact (close_ends hv.isOpen).bind (fun _ u hu => ⟨new, hon, hv.closes hu.2⟩)
      fun e u hu => nomatch hu.1
  · obtain ⟨hv, rfl, hlen⟩ := hv
    refine (readRest_ends _ hv.isOpen hlen).bind ?_ ?_
    · rintro (_ | reply) u ⟨more, hmore, hu⟩
      · exact (close_ends hu.isOpen).bind
          (fun _ u' hu' => ⟨more ++ new, hv.receptions hon hmore, hv.closes (hu.closes hu'.2)⟩)
          fun e u' hu' => nomatch hu'.1
      · refine ⟨more ++ new, hv.receptions hon hmore, hv.trans hu.1, ?_⟩
        rw [receivedBytes_append]
        exact hu.2
    · rintro e u ⟨more, hmore, he, hu⟩
      exact ⟨more ++ new, hv.receptions hon hmore, he, .inr (hv.closes hu)⟩

theorem transmit_ends (bytes : List UInt8) (hw : w.1.IsOpen) :
    Dialog.Ends (Dialog.onError (.on streamPart (Socket.send bytes)) fun _ => close) w fun r v =>
      match r with
      | .ok _ => Stays w v [.sent .tcp w.1.peer bytes]
      | .error e => e ≠ .notAuthenticated ∧ Closes w v [.sent .tcp w.1.peer bytes] := by
  obtain ⟨s, hs, htcp, hpeer⟩ := hw
  have hsent : Dialog.Ends (.on streamPart (Socket.send bytes)) w fun r v =>
      Stays w v [.sent .tcp w.1.peer bytes] ∧ ∀ e, r = .error e → e ≠ .notAuthenticated := by
    refine Dialog.Ends.on hs ((send_ends bytes (s, w.2)).imp ?_)
    rintro r v ⟨htransport, hpeer', -, hhistory, hr⟩
    refine ⟨⟨⟨v.1, rfl, htransport.trans htcp, hpeer'.trans hpeer⟩, rfl, ?_⟩, hr⟩
    rw [hhistory, htcp, hpeer]
    rfl
  refine hsent.onError (fun _ v hv => hv.1) ?_
  rintro e v ⟨hstays, he⟩
  refine (close_ends hstays.isOpen).imp ?_
  rintro r u ⟨rfl, hu⟩
  exact ⟨he e rfl, hstays.closes hu⟩

theorem connect_ends_of_open (h : w.1.IsOpen) :
    Dialog.Ends connect w fun r v => r = .ok () ∧ v = w := by
  obtain ⟨⟨peer, stream, timeout⟩, n⟩ := w
  obtain ⟨s, rfl, -⟩ := h
  exact ⟨rfl, rfl⟩

theorem connect_ends (h : w.1.stream = none) :
    Dialog.Ends connect w fun r v =>
      match r with
      | .ok _ => Stays w v [.connected .tcp w.1.peer none]
      | .error e => e ≠ .notAuthenticated ∧ v.1 = w.1 ∧
          ∃ f, v.2.history = .connected .tcp w.1.peer (some f) :: w.2.history := by
  obtain ⟨⟨peer, stream, timeout⟩, n⟩ := w
  cases h
  refine Dialog.ends_state_bind ((Socket.connect_ends .tcp peer _).bind ?_ ?_)
  · rintro s ⟨c, m⟩ ⟨rfl, rfl, hm⟩
    exact ⟨⟨_, rfl, rfl, rfl⟩, rfl, hm⟩
  · rintro e v ⟨hv, he, hf⟩
    exact ⟨he, hv, hf⟩

theorem encode_request (r : Rcon.Request) {filled : Writer.Filled}
    (h : r.encode (List.replicate ((Text.Utf8.encode r.body).length + Rcon.minFrameSize + 4) 0) =
      .ok filled) : filled.bytes = r.bytes := by
  rw [Rcon.Request.encode, Rcon.Request.write, Rcon.writeFrame_eq] at h
  split at h
  · cases h
  · have hroom : r.bytes.length ≤ (List.replicate ((Text.Utf8.encode r.body).length +
        Rcon.minFrameSize + 4) (0 : UInt8)).length := by
      rw [List.length_replicate]
      exact Nat.le_of_eq (Rcon.length_frameBytes r.id r.kind (Text.Utf8.encode r.body))
    obtain ⟨filled', hfilled, hbytes⟩ := Writer.encode_bytes_of_le hroom
    cases hfilled.symm.trans h
    exact hbytes

theorem send_ends_of_open (r : Rcon.Request) (hw : w.1.IsOpen) :
    Dialog.Ends (send r) w fun o v =>
      match o with
      | .ok _ => Stays w v [.sent .tcp w.1.peer r.bytes]
      | .error e => e ≠ .notAuthenticated ∧
          (Stays w v [] ∨ Closes w v [.sent .tcp w.1.peer r.bytes]) := by
  refine Dialog.ends_ofCodec_bind (fun filled hfilled => ?_) fun e _ =>
    ⟨ClientError.ofCodec_ne_notAuthenticated e, .inl (.refl hw)⟩
  refine (connect_ends_of_open hw).bind ?_ fun e v hv => nomatch hv.1
  rintro _ v ⟨-, rfl⟩
  rw [← encode_request r hfilled]
  refine (transmit_ends filled.bytes hw).imp ?_
  rintro (e | _) u hu
  · exact ⟨hu.1, .inr hu.2⟩
  · exact hu

/-- Sending a request when no stream is open: one is opened for it. -/
theorem send_ends_of_closed (r : Rcon.Request) (hw : w.1.stream = none) :
    Dialog.Ends (send r) w fun o v =>
      match o with
      | .ok _ => Stays w v [.sent .tcp w.1.peer r.bytes, .connected .tcp w.1.peer none]
      | .error e => e ≠ .notAuthenticated ∧ v.1.stream = none ∧ v.1.peer = w.1.peer ∧
          ∃ new, v.2.history = new ++ w.2.history ∧ ∀ b ∈ new,
            b = .sent .tcp w.1.peer r.bytes ∨ b = .closed w.1.peer ∨
              ∃ f, b = .connected .tcp w.1.peer f := by
  refine Dialog.ends_ofCodec_bind (fun filled hfilled => ?_) fun e _ =>
    ⟨ClientError.ofCodec_ne_notAuthenticated e, hw, rfl, [], rfl, fun _ h => nomatch h⟩
  refine (connect_ends hw).bind (fun _ v hv => ?_) ?_
  · rw [← encode_request r hfilled]
    refine (transmit_ends filled.bytes hv.isOpen).imp ?_
    rw [hv.peer]
    rintro (e | _) u hu
    · have hall := hv.closes hu.2
      refine ⟨hu.1, hall.stream, hall.peer, .closed w.1.peer :: [_, _], hall.history, by simp⟩
    · exact hv.trans hu
  · rintro e v ⟨he, hv, f, hf⟩
    exact ⟨he, hv ▸ hw, hv ▸ rfl, [_], hf, by simp⟩

end ConsoleChannel

end GameQuery
