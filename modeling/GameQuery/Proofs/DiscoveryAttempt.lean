import GameQuery.MasterServer
import GameQuery.Proofs.SocketLaws
import GameQuery.Proofs.WriterLaws

namespace GameQuery

/-!
# Attempts to get a page

An attempt opens a socket if there is none, asks a master server for the page behind a cursor and
waits for it. What it asks and what it gets can be read off the history, and so can a socket that
could not be opened: these are the exchanges of a history.
-/

open Dialog

/-! ## Requests and pages in a history -/

def ListingQuery.bytes (q : ListingQuery) : List UInt8 :=
  [0x31] ++ ([q.region.toByte] ++ (Text.Utf8.encode (String.ofList q.last.text) ++
    ([0] ++ (Text.Utf8.encode q.filter ++ [0]))))

theorem ListingQuery.write_eq (q : ListingQuery) : q.write = Writer.bytes q.bytes := by
  simp only [write, Writer.u8, Writer.chars, Writer.text, Writer.bytes_bind_bytes, bytes]

namespace Page

def addressBytes (a : SocketAddressV4) : List UInt8 :=
  [a.ip.a, a.ip.b, a.ip.c, a.ip.d] ++ bigEndian a.port

/-- A datagram with some addresses. -/
def datagram (page : List SocketAddressV4) : List UInt8 := start ++ page.flatMap addressBytes

theorem addresses_datagram (page : List SocketAddressV4) :
    addresses (page.flatMap addressBytes) = page := by
  induction page with
  | nil => rfl
  | cons a page ih =>
    obtain ⟨⟨b₀, b₁, b₂, b₃⟩, port⟩ := a
    have hport : (UInt8.ofNat (port.toNat / 256)).toUInt16 * 256 +
        (UInt8.ofNat port.toNat).toUInt16 = port := by
      have hlt := port.toNat_lt
      apply UInt16.toNat_inj.1
      simp only [UInt16.toNat_add, UInt16.toNat_mul, UInt8.toNat_toUInt16, UInt8.toNat_ofNat']
      simp only [UInt16.reduceToNat]
      omega
    rw [List.flatMap_cons]
    change _ :: addresses (page.flatMap addressBytes) = _
    rw [ih, hport]

theorem length_datagram (page : List SocketAddressV4) :
    (datagram page).length = 6 + 6 * page.length := by
  induction page with
  | nil => rfl
  | cons a page ih =>
    simp only [datagram, List.flatMap_cons, List.length_append, List.length_cons] at ih ⊢
    have ha : (addressBytes a).length = 6 := rfl
    omega

theorem decode_start {entries : List UInt8} (h : entries.length % 6 = 0) :
    decode (start ++ entries) = .ok (addresses entries) := by
  have hread : read (start ++ entries) = .ok (addresses entries) [] := by
    simp [read, Reader.literal, Reader.rest, h, Bind.bind, EStateM.bind, pure, EStateM.pure]
  rw [decode, Reader.decode, hread]

theorem decode_datagram (page : List SocketAddressV4) : decode (datagram page) = .ok page := by
  have hlength := length_datagram page
  rw [datagram, List.length_append] at hlength
  have hsix : (page.flatMap addressBytes).length % 6 = 0 := by
    have hstart : start.length = 6 := rfl
    omega
  rw [datagram, decode_start hsix, addresses_datagram]

end Page

theorem ListingChannel.readPage_datagram (page : List SocketAddressV4) :
    readPage (Page.datagram page) = .ok page := by
  have hvalue : (UInt32.ofNat (leValue [0xFF, 0xFF, 0xFF, 0xFF])).toInt32 = wholeHeader := by decide
  have hheader : headerOf (Page.datagram page) = some wholeHeader := congrArg some hvalue
  simp only [readPage, hheader, if_true, Page.decode_datagram]

/-- What passes between a client and a master server. -/
inductive Exchange where
  | unopened (peer : SocketAddress)
  | request (peer : SocketAddress) (bytes : List UInt8)
  /-- A datagram, as much of it as a client can receive. -/
  | answer (peer : SocketAddress) (page : Except CodecError (List SocketAddressV4))

def Event.exchange? : Event → Option Exchange
  | .connected .udp peer (some _) => some (.unopened peer)
  | .sent .udp peer bytes => some (.request peer bytes)
  | .received .udp peer datagram =>
    some (.answer peer (ListingChannel.readPage (datagram.take maxDatagramSize)))
  | _ => none

/-- The exchanges of a history, the earliest first. -/
def exchanges (history : List Event) : List Exchange := history.reverse.filterMap Event.exchange?

theorem exchanges_cons (e : Event) (history : List Event) :
    exchanges (e :: history) = exchanges history ++ e.exchange?.toList := by
  rw [exchanges, List.reverse_cons, List.filterMap_append, exchanges]
  cases he : e.exchange? <;> simp [he]

theorem ClientError.ofCodec_cases (e : CodecError) :
    (ofCodec e).IsPlain ∧ (ofCodec e).isTransport = false := by
  rw [ofCodec]
  split <;> refine ⟨fun n servers h => ?_, rfl⟩ <;> cases h

/-! ## Channels to master servers -/

namespace ListingChannel

def socket (c : ListingChannel) : Socket := c.channel.socket

-- Requests are large terms, which are not to be evaluated.
attribute [local irreducible] Dialog.Ends

theorem laterOf_send (q : ListingQuery) : Moves (Socket.LaterOf socket) (send q) :=
  Socket.laterOf_on DatagramChannel.socket (DatagramChannel.laterOf_sendRequest _) (fun _ => rfl)
    fun _ _ => rfl

theorem laterOf_reply : Moves (Socket.LaterOf socket) reply := by
  refine Moves.bind ?_ fun datagram => moves_ofCodec _
  exact Socket.laterOf_on DatagramChannel.socket (DatagramChannel.laterOf_receive none)
    (fun _ => rfl) fun _ _ => rfl

variable {peer : SocketAddress}

theorem send_ends (q : ListingQuery) (c : ListingChannel) (n : Network)
    (htransport : c.socket.transport = .udp) (hpeer : c.socket.peer = peer) :
    Ends (send q) (c, n) fun r v => (∀ e, r = .error e → e.IsPlain) ∧
      ((∀ e, r = .error e → e.isTransport = true) →
        exchanges v.2.history = exchanges n.history ++ [.request peer q.bytes]) := by
  subst hpeer
  simp only [socket] at htransport ⊢
  have hget : channelPart.get? c = some c.channel := rfl
  have hsend := DatagramChannel.sendRequest_ends q.bytes (c.channel, n)
  rw [← ListingQuery.write_eq] at hsend
  refine Ends.on hget (hsend.imp ?_)
  rintro r v (⟨e, rfl, hv⟩ | ⟨hfailure, hhistory⟩)
  · obtain ⟨hplain, hno⟩ := ClientError.ofCodec_cases e
    constructor
    · rintro e' ⟨⟩
      exact hplain
    · intro htransport'
      rw [htransport' _ rfl] at hno
      cases hno
  · constructor
    · intro e he
      obtain ⟨f, rfl⟩ := hfailure e he
      exact ClientError.isPlain_ofFailure f
    · intro _
      have hnew := congrArg exchanges hhistory
      rw [htransport, exchanges_cons] at hnew
      exact hnew

theorem receive_ends (c : ListingChannel) (n : Network) (htransport : c.socket.transport = .udp) :
    Ends (.on channelPart (DatagramChannel.receive none)) (c, n) fun r v =>
      match r with
      | .ok bytes => exchanges v.2.history =
          exchanges n.history ++ [.answer c.socket.peer (readPage bytes)]
      | .error e => e.IsPlain ∧ exchanges v.2.history = exchanges n.history := by
  simp only [socket] at htransport ⊢
  have hget : channelPart.get? c = some c.channel := rfl
  refine Ends.on hget ((DatagramChannel.receive_ends none (c.channel, n)).imp fun r v hv => ?_)
  rw [htransport] at hv
  cases r with
  | ok bytes =>
    obtain ⟨datagram, rfl, hhistory⟩ := hv
    simp only [hhistory, exchanges_cons]
    rfl
  | error e =>
    obtain ⟨hplain, hhistory | ⟨wait, hhistory⟩⟩ := hv
    · exact ⟨hplain, congrArg exchanges hhistory⟩
    · refine ⟨hplain, ?_⟩
      simp only [hhistory, exchanges_cons, Event.exchange?, Option.toList_none, List.append_nil]

theorem reply_ends (c : ListingChannel) (n : Network) (htransport : c.socket.transport = .udp)
    (hpeer : c.socket.peer = peer) :
    Ends reply (c, n) fun r v =>
      match r with
      | .ok page => exchanges v.2.history = exchanges n.history ++ [.answer peer (.ok page)]
      | .error e => e.IsPlain ∧
          (e.isTransport = true → exchanges v.2.history = exchanges n.history) := by
  subst hpeer
  refine (receive_ends c n htransport).bind (fun bytes v hv => ends_ofCodec ?_ ?_)
    fun e v hv => ⟨hv.1, fun _ => hv.2⟩
  · intro page hpage
    simpa only [hpage] using hv
  · intro e _
    obtain ⟨hplain, hno⟩ := ClientError.ofCodec_cases e
    refine ⟨hplain, fun h => ?_⟩
    rw [h] at hno
    cases hno

/-- Asks for a page and waits for it. -/
def ask (q : ListingQuery) : Dialog ListingChannel (List SocketAddressV4) := do
  send q
  reply

theorem laterOf_ask (q : ListingQuery) : Moves (Socket.LaterOf socket) (ask q) :=
  (laterOf_send q).bind fun _ => laterOf_reply

theorem ask_ends (q : ListingQuery) (c : ListingChannel) (n : Network)
    (htransport : c.socket.transport = .udp) (hpeer : c.socket.peer = peer) :
    Ends (ask q) (c, n) fun r v =>
      match r with
      | .ok page => exchanges v.2.history =
          exchanges n.history ++ [.request peer q.bytes, .answer peer (.ok page)]
      | .error e => e.IsPlain ∧ (e.isTransport = true →
          exchanges v.2.history = exchanges n.history ++ [.request peer q.bytes]) := by
  refine ((laterOf_send q (c, n)).and (send_ends q c n htransport hpeer)).bind ?_ ?_
  · rintro _ v ⟨hlater, -, hhistory⟩
    have hrequest := hhistory nofun
    have htransport' := hlater.transport.trans htransport
    have hpeer' := hlater.peer.trans hpeer
    refine (reply_ends v.1 v.2 htransport' hpeer').imp ?_
    rintro (e | page) u hu
    · exact ⟨hu.1, fun he => (hu.2 he).trans hrequest⟩
    · simp only at hu ⊢
      rw [hu, hrequest, List.append_assoc]
      rfl
  · rintro e v ⟨-, hplain, hhistory⟩
    refine ⟨hplain e rfl, fun he => hhistory fun e' he' => ?_⟩
    cases he'
    exact he

/-- A channel to a peer that nothing has been sent over. -/
def fresh (peer : SocketAddress) (timeout : Option Nat) : ListingChannel where
  channel := { socket := { transport := .udp, peer }, timeout, buffer := .clamp listingBufferSize }

end ListingChannel

/-! ## Opening sockets -/

namespace MasterSession

/-- The sockets of a client are given up, and new ones opened if the network lets them. -/
theorem openSockets_eq (peer : SocketAddress) (s : MasterSession) (n : Network) :
    openSockets peer (s, n) =
      match n.world.connect n.history .udp peer with
      | none => .ok () ({ s with channel := some (.fresh peer s.timeout) },
          n.record (.connected .udp peer none))
      | some f => .error (.ofFailure f) ({ s with channel := none },
          n.record (.connected .udp peer (some f))) := by
  rw [openSockets, modifyState_bind]
  simp only [ListingChannel.connect, DatagramChannel.connect, Socket.connect, bind_assoc]
  rw [network_bind]
  cases n.world.connect n.history .udp peer <;> rfl

/-- The socket, if there is one, is bound to a peer. -/
def IsBound (s : MasterSession) (peer : SocketAddress) : Prop :=
  ∀ c, s.channel = some c → c.socket.transport = .udp ∧ c.socket.peer = peer

/-- There is a socket to a peer, and nothing has been sent over it. -/
def IsFresh (s : MasterSession) (peer : SocketAddress) : Prop :=
  ∃ timeout, s.channel = some (.fresh peer timeout)

variable {s : MasterSession} {peer : SocketAddress}

theorem IsFresh.isBound (h : s.IsFresh peer) : s.IsBound peer := by
  obtain ⟨timeout, hchannel⟩ := h
  intro c hc
  rw [hchannel] at hc
  cases hc
  exact ⟨rfl, rfl⟩

theorem isBound_of_none (h : s.channel = none) : s.IsBound peer := by
  intro c hc
  rw [h] at hc
  cases hc

theorem reconnect_ends (c : Connection MasterSession) (n : Network) :
    Ends Connection.reconnect (c, n) fun r v =>
      v.1.endpoint = c.endpoint ∧ v.2.world = n.world ∧
        match r with
        | .ok _ => v.1.owner.IsFresh c.endpoint.address ∧
            v.2.history = .connected .udp c.endpoint.address none :: n.history
        | .error e => v.1.owner.channel = none ∧
            ∃ f, n.world.connect n.history .udp c.endpoint.address = some f ∧ e = .ofFailure f ∧
              v.2.history = .connected .udp c.endpoint.address (some f) :: n.history := by
  have hopen := openSockets_eq c.endpoint.address c.owner n
  refine ends_state_bind (Ends.on (p := Connection.ownerPart) rfl ?_)
  cases hconnect : n.world.connect n.history .udp c.endpoint.address with
  | none =>
    rw [hconnect] at hopen
    exact ends_of_ok hopen ⟨rfl, rfl, ⟨_, rfl⟩, rfl⟩
  | some f =>
    rw [hconnect] at hopen
    exact ends_of_error hopen ⟨rfl, rfl, rfl, f, rfl, rfl, rfl⟩

end MasterSession

/-! ## Attempts -/

/-- What comes of an attempt. -/
inductive Answer where
  | unopened (e : ClientError)
  | unanswered (e : ClientError)
  | page (entries : List SocketAddressV4)

/-- An attempt to get the page behind a cursor from the active address of an endpoint. -/
structure Attempt where
  endpoint : Endpoint
  cursor : SocketAddressV4
  answer : Answer

namespace Attempt

/-- What the page brings. -/
def harvest (a : Attempt) : Harvest :=
  match a.answer with
  | .page entries => Harvest.ofPage a.cursor entries
  | .unopened _ | .unanswered _ => { found := [], isLast := false }

/-- Nothing is reached, or there is no answer, or one that brings nothing and is not the end. -/
def failed (a : Attempt) : Bool :=
  match a.answer with
  | .page _ => a.harvest.found.isEmpty && !a.harvest.isLast
  | .unopened e | .unanswered e => e.isTransport

def exchanges (region : Region) (filter : String) (a : Attempt) : List Exchange :=
  let request := .request a.endpoint.address (ListingQuery.bytes ⟨region, a.cursor, filter⟩)
  match a.answer with
  | .unopened _ => [.unopened a.endpoint.address]
  | .unanswered _ => [request]
  | .page entries => [request, .answer a.endpoint.address (.ok entries)]

variable {a : Attempt} {e : ClientError} {page : List SocketAddressV4}

theorem harvest_of_page (h : a.answer = .page page) : a.harvest = .ofPage a.cursor page := by
  rw [harvest, h]

theorem failed_of_page (h : a.answer = .page page) :
    a.failed = (a.harvest.found.isEmpty && !a.harvest.isLast) := by
  rw [failed, h]

theorem harvest_of_error (h : a.answer = .unopened e ∨ a.answer = .unanswered e) :
    a.harvest = { found := [], isLast := false } := by
  rcases h with h | h <;> rw [harvest, h]

theorem failed_of_error (h : a.answer = .unopened e ∨ a.answer = .unanswered e) :
    a.failed = e.isTransport := by
  rcases h with h | h <;> rw [failed, h]

end Attempt

namespace MasterServer

def openUp : Dialog MasterServer Unit := do
  let s ← Dialog.state
  unless s.connection.owner.channel.isSome do .on connectionPart Connection.reconnect

def askPage (region : Region) (filter : String) (cursor : SocketAddressV4) :
    Dialog MasterServer (List SocketAddressV4) :=
  .on channelPart (ListingChannel.ask ⟨region, cursor, filter⟩)

variable {region : Region} {filter : String} {cursor : SocketAddressV4}
  {w : MasterServer × Network}

theorem fetchPage_eq : fetchPage region filter cursor =
    openUp >>= fun _ => Harvest.ofPage cursor <$> askPage region filter cursor := by
  have hget : ∀ s c c', channelPart.get? s = some c → channelPart.get? (channelPart.put c' s) =
      some c' := fun _ _ _ _ => rfl
  have hask := on_bind hget (fun _ _ _ _ _ => rfl) (ListingChannel.send ⟨region, cursor, filter⟩)
    fun _ => ListingChannel.reply
  simp only [fetchPage, openUp, askPage, ListingChannel.ask, hask, bind_assoc, map_eq_pure_bind]
  congr 1
  funext s
  split
  · rw [pure_bind]
  · rfl

/-- The attempt that a client makes. -/
def attemptAt (region : Region) (filter : String) (cursor : SocketAddressV4)
    (w : MasterServer × Network) : Attempt where
  endpoint := w.1.endpoint
  cursor := cursor
  answer :=
    match openUp w with
    | .error e _ => .unopened e
    | .ok _ u =>
      match askPage region filter cursor u with
      | .error e _ => .unanswered e
      | .ok entries _ => .page entries

/-- The socket of a client, if there is one, is bound to the active address. -/
def IsBound (s : MasterServer) : Prop := s.connection.owner.IsBound s.endpoint.address

/-- The sockets that a rotation opens are bound to the next address. -/
theorem rotate_ends (s : MasterServer) (n : Network) :
    Ends (.on connectionPart Connection.rotate) (s, n) fun r v =>
      v.1.endpoint = s.endpoint.next ∧ v.1.IsBound ∧ v.2.world = n.world ∧
        match r with
        | .ok back => back = s.endpoint.next.atFirst ∧
            v.1.connection.owner.IsFresh s.endpoint.next.address ∧
            v.2.history = .connected .udp s.endpoint.next.address none :: n.history
        | .error e => ∃ f, e = .ofFailure f ∧
            n.world.connect n.history .udp s.endpoint.next.address = some f ∧
            v.2.history = .connected .udp s.endpoint.next.address (some f) :: n.history := by
  have hget : connectionPart.get? s = some s.connection := rfl
  refine Ends.on hget (ends_state_bind (ends_modifyState_bind (ends_bind_of_ok rfl ?_)))
  refine (MasterSession.reconnect_ends { s.connection with endpoint := s.endpoint.next } _).bind ?_ ?_
  · rintro _ v ⟨hendpoint, hworld, hfresh, hhistory⟩
    refine ends_pure ⟨hendpoint, ?_, hworld, rfl, hfresh, hhistory⟩
    change MasterSession.IsBound v.1.owner v.1.endpoint.address
    rw [hendpoint]
    exact hfresh.isBound
  · rintro e v ⟨hendpoint, hworld, hnone, f, hconnect, he, hhistory⟩
    exact ⟨hendpoint, MasterSession.isBound_of_none hnone, hworld, f, he, hconnect, hhistory⟩

theorem openUp_ends (h : w.1.IsBound) : Ends openUp w fun r v =>
    v.1.endpoint = w.1.endpoint ∧ v.1.IsBound ∧
      match r with
      | .ok _ => v.1.connection.owner.channel.isSome ∧
          exchanges v.2.history = exchanges w.2.history
      | .error e => e.IsPlain ∧ exchanges v.2.history =
          exchanges w.2.history ++ [.unopened w.1.endpoint.address] := by
  obtain ⟨s, n⟩ := w
  refine ends_state_bind ?_
  cases hchannel : s.connection.owner.channel with
  | some c =>
    simp only [Option.isSome_some, if_true]
    exact ends_pure ⟨rfl, h, by rw [hchannel]; rfl, rfl⟩
  | none =>
    simp only [Option.isSome_none, Bool.false_eq_true, if_false]
    refine Ends.on (p := connectionPart) rfl ((MasterSession.reconnect_ends _ n).imp ?_)
    rintro (e | _) v ⟨hendpoint, -, hv⟩
    · obtain ⟨hnone, f, -, rfl, hhistory⟩ := hv
      refine ⟨hendpoint, MasterSession.isBound_of_none hnone, ClientError.isPlain_ofFailure f, ?_⟩
      exact (congrArg exchanges hhistory).trans (exchanges_cons _ _)
    · obtain ⟨⟨timeout, hfresh⟩, hhistory⟩ := hv
      have hbound := MasterSession.IsFresh.isBound ⟨timeout, hfresh⟩
      refine ⟨hendpoint, ?_, ?_, ?_⟩
      · change MasterSession.IsBound v.1.owner v.1.endpoint.address
        rw [hendpoint]
        exact hbound
      · exact Option.isSome_iff_exists.2 ⟨_, hfresh⟩
      · refine (congrArg exchanges hhistory).trans ((exchanges_cons _ _).trans ?_)
        exact List.append_nil _

attribute [local irreducible] Dialog.Ends in
theorem askPage_ends (region : Region) (filter : String) (cursor : SocketAddressV4)
    (h : w.1.IsBound) (hopen : w.1.connection.owner.channel.isSome) :
    Ends (askPage region filter cursor) w fun r v =>
      let request := .request w.1.endpoint.address (ListingQuery.bytes ⟨region, cursor, filter⟩)
      v.1.endpoint = w.1.endpoint ∧ v.1.IsBound ∧
        match r with
        | .ok page => exchanges v.2.history =
            exchanges w.2.history ++ [request, .answer w.1.endpoint.address (.ok page)]
        | .error e => e.IsPlain ∧ (e.isTransport = true →
            exchanges v.2.history = exchanges w.2.history ++ [request]) := by
  obtain ⟨s, n⟩ := w
  obtain ⟨c, hc⟩ := Option.isSome_iff_exists.1 hopen
  obtain ⟨htransport, hpeer⟩ := h c hc
  have hget : channelPart.get? s = some c := hc
  have hlater := ListingChannel.laterOf_ask ⟨region, cursor, filter⟩ (c, n)
  have hask := ListingChannel.ask_ends ⟨region, cursor, filter⟩ c n htransport hpeer
  refine Ends.on hget ((Ends.and hlater hask).imp ?_)
  rintro r v ⟨hlater, hr⟩
  refine ⟨rfl, ?_, hr⟩
  rintro c' ⟨⟩
  exact ⟨hlater.transport.trans htransport, hlater.peer.trans hpeer⟩

/-- An attempt leaves the endpoint as it is, and what happens is what the attempt says. -/
theorem fetchPage_ends (region : Region) (filter : String) (cursor : SocketAddressV4)
    (h : w.1.IsBound) :
    Ends (fetchPage region filter cursor) w fun r v =>
      v.1.endpoint = w.1.endpoint ∧ v.1.IsBound ∧
        match r with
        | .ok harvest => ∃ page, (attemptAt region filter cursor w).answer = .page page ∧
            harvest = Harvest.ofPage cursor page ∧ exchanges v.2.history =
              exchanges w.2.history ++ (attemptAt region filter cursor w).exchanges region filter
        | .error e => e.IsPlain ∧ ((attemptAt region filter cursor w).answer = .unopened e ∨
              (attemptAt region filter cursor w).answer = .unanswered e) ∧
            (e.isTransport = true → exchanges v.2.history =
              exchanges w.2.history ++ (attemptAt region filter cursor w).exchanges region filter) := by
  have hopen := openUp_ends h
  rw [fetchPage_eq]
  cases hup : openUp w with
  | error e u =>
    have hattempt : (attemptAt region filter cursor w).answer = .unopened e := by
      simp only [attemptAt, hup]
    obtain ⟨hendpoint, hbound, hplain, hhistory⟩ := hopen.of_eq_error hup
    refine ends_of_error (bind_of_error hup _) ⟨hendpoint, hbound, hplain, .inl hattempt, fun _ => ?_⟩
    rw [hhistory, Attempt.exchanges, hattempt]
    rfl
  | ok _ u =>
    obtain ⟨hendpoint, hbound, hchannel, hhistory⟩ := hopen.of_eq_ok hup
    refine ends_bind_of_ok hup (Ends.map ?_)
    have hask := askPage_ends region filter cursor hbound hchannel
    cases hpage : askPage region filter cursor u with
    | ok page v =>
      have hattempt : (attemptAt region filter cursor w).answer = .page page := by
        simp only [attemptAt, hup, hpage]
      obtain ⟨hendpoint', hbound', hhistory'⟩ := hask.of_eq_ok hpage
      refine ends_of_ok hpage ⟨hendpoint'.trans hendpoint, hbound', page, hattempt, rfl, ?_⟩
      rw [hhistory', hhistory, Attempt.exchanges, hattempt, hendpoint]
      rfl
    | error e v =>
      have hattempt : (attemptAt region filter cursor w).answer = .unanswered e := by
        simp only [attemptAt, hup, hpage]
      obtain ⟨hendpoint', hbound', hplain, hhistory'⟩ := hask.of_eq_error hpage
      refine ends_of_error hpage ⟨hendpoint'.trans hendpoint, hbound', hplain, .inr hattempt, ?_⟩
      intro he
      rw [hhistory' he, hhistory, Attempt.exchanges, hattempt, hendpoint]
      rfl

/-! ## Steps -/

section Steps

variable {force : Bool} {r : Nat} {p : Progress}
  {P : Except ClientError Next → MasterServer × Network → Prop}

/-- After a failed attempt a client stays or gives up, or it goes to the next address. -/
theorem ends_afterFailure {s : MasterServer} {n : Network}
    (hagain : ∀ line, p.failed + 1 < r → P (.ok (.resume p.fail)) (s, n.logLine .info line))
    (hgiveUp : r ≤ p.failed + 1 → force = false →
      P (.error (.exhausted (p.allFailed + 1) p.servers)) (s, n))
    (hrotate : r ≤ p.failed + 1 → force = true →
      Ends (.on connectionPart Connection.rotate) (s, n) fun back v =>
        match back with
        | .ok true => P (.error (.exhausted (p.allFailed + 1) p.servers)) v
        | .ok false => P (.ok (.resume p.fail.moveOn)) v
        | .error e => P (.error e) v) :
    Ends (afterFailure force r p) (s, n) P := by
  simp only [afterFailure]
  split
  · next hlt => exact ends_bind_of_ok rfl (ends_pure (hagain _ hlt))
  · next hge =>
    have hle : r ≤ p.failed + 1 := Nat.le_of_not_lt hge
    cases hforce : force with
    | false => exact ends_throw (hgiveUp hle hforce)
    | true =>
      refine (hrotate hle hforce).bind ?_ fun e v hv => hv
      rintro (_ | _) v hv
      · exact ends_pure hv
      · exact ends_throw hv

/-- A step is an attempt and what is made of its outcome. -/
theorem ends_step {Q : Except ClientError Harvest → MasterServer × Network → Prop}
    (hfetch : Ends (fetchPage region filter p.cursor) w Q)
    (hlast : ∀ harvest v line, Q (.ok harvest) v → harvest.isLast = true →
      P (.ok (.finish (p.collect harvest.found).servers)) (v.1, v.2.logLine .debug line))
    (hmore : ∀ harvest v, Q (.ok harvest) v → harvest.isLast = false → harvest.found ≠ [] →
      P (.ok (.resume (p.collect harvest.found))) v)
    (hstalled : ∀ harvest v line, Q (.ok harvest) v → harvest.isLast = false →
      harvest.found = [] → Ends (afterFailure force r p) (v.1, v.2.logLine .debug line) P)
    (hfailed : ∀ e v line, Q (.error e) v → e.isTransport = true →
      Ends (afterFailure force r p) (v.1, v.2.logLine .debug line) P)
    (hbroken : ∀ e v, Q (.error e) v → e.isTransport = false → P (.error e) v) :
    Ends (step region filter force r p) w P := by
  simp only [step]
  refine hfetch.outcome_bind ?_
  rintro (e | harvest) v hv
  · cases htransport : e.isTransport with
    | false =>
      simp only [htransport, Bool.false_eq_true, if_false]
      exact ends_throw (hbroken e v hv htransport)
    | true =>
      simp only [htransport, if_true]
      exact ends_bind_of_ok rfl (hfailed e v _ hv htransport)
  · simp only
    cases hend : harvest.isLast with
    | true =>
      rw [if_pos rfl]
      exact ends_bind_of_ok rfl (ends_pure (hlast harvest v _ hv hend))
    | false =>
      rw [if_neg Bool.false_ne_true]
      by_cases hnew : harvest.found = []
      · rw [if_neg (not_not_intro hnew)]
        exact ends_bind_of_ok rfl (hstalled harvest v _ hv hend hnew)
      · rw [if_pos hnew]
        exact ends_pure (hmore harvest v hv hend hnew)

end Steps

end MasterServer

end GameQuery
