import GameQuery.Proofs.ServerCoherence

namespace GameQuery

/-!
# Sockets and the active address

A client of a master server keeps its socket with the active address of its endpoint, as a client of
a game server does: whatever the two have done, and whatever has come of it, their sockets go to the
active address and wait as they were told last, and sockets that are missing are opened again when
there is something to ask.
-/

open Dialog

/-- A rotation to the next address, at which sockets are opened once, or cannot be opened. -/
structure Rotates (world : World) (e : Endpoint) (wasOpen : Bool) (old : List Event)
    (r : Except ClientError Bool) (next : Endpoint) (isOpen : Bool) (history : List Event) :
    Prop where
  addresses : next.addresses = e.addresses
  active : next.active = (e.active + 1) % e.addresses.length
  opens : ∃ failure, OpensOnce world next.address wasOpen old failure history ∧
    isOpen = failure.isNone ∧ r = (Failure.outcome failure).map fun _ => decide (next.active = 0)

theorem GameServer.rotates (w : GameServer × Network) : Ends rotate w fun r v =>
    Rotates w.2.world w.1.endpoint w.1.engine.holdsSocket w.2.history r v.1.endpoint
      v.1.engine.isOpen v.2.history := by
  refine (rotate_opens w).imp ?_
  rintro r v ⟨hendpoint, -, -, failure, hopens, hopen, hr⟩
  rw [hendpoint]
  exact ⟨rfl, rfl, failure, hopens, hopen, hr⟩

/-! ## Channels to master servers -/

attribute [local irreducible] Dialog.Ends in
theorem ListingChannel.sameTimeout_ask (q : ListingQuery) :
    Moves (fun w v => v.1.channel.timeout = w.1.channel.timeout) (ask q) := by
  have hon : ∀ {α : Type} {d : Dialog DatagramChannel α}, Moves DatagramChannel.SameTimeout d →
      ∀ w, Ends (on channelPart d) w fun _ v => v.1.channel.timeout = w.1.channel.timeout :=
    fun hd w => Ends.on rfl ((hd (w.1.channel, w.2)).imp fun _ _ hv => hv)
  intro w
  refine (hon (DatagramChannel.sameTimeout_sendRequest q.write) w).bind ?_ fun _ _ hv => hv
  intro _ v hv
  refine (hon (DatagramChannel.sameTimeout_receive none) v).bind ?_ fun _ _ hu => hu.trans hv
  intro datagram u hu
  exact ends_ofCodec (fun _ _ => hu.trans hv) fun _ _ => hu.trans hv

namespace MasterSession

/-- The socket, if there is one, goes to a peer. -/
structure IsBoundTo (peer : SocketAddress) (own : Option Nat) (s : MasterSession) : Prop where
  socket : s.IsBound peer
  waits : ∀ c, s.channel = some c → c.channel.timeout = own
  timeout : s.timeout = own

variable {peer : SocketAddress} {own : Option Nat} {s : MasterSession}

theorem isBoundTo_of_none (hchannel : s.channel = none) (htimeout : s.timeout = own) :
    s.IsBoundTo peer own := by
  refine ⟨isBound_of_none hchannel, ?_, htimeout⟩
  intro c hc
  rw [hchannel] at hc
  cases hc

theorem isBoundTo_of_fresh (hchannel : s.channel = some (.fresh peer own))
    (htimeout : s.timeout = own) : s.IsBoundTo peer own := by
  refine ⟨IsFresh.isBound ⟨own, hchannel⟩, ?_, htimeout⟩
  intro c hc
  rw [hchannel] at hc
  cases hc
  rfl

theorem IsBoundTo.setTimeout (h : s.IsBoundTo peer own) (timeout : Option Nat) :
    (s.setTimeout timeout).IsBoundTo peer timeout := by
  refine ⟨?_, ?_, rfl⟩
  · intro c hc
    obtain ⟨d, hd, rfl⟩ := Option.map_eq_some_iff.1 hc
    exact h.socket d hd
  · intro c hc
    obtain ⟨d, hd, rfl⟩ := Option.map_eq_some_iff.1 hc
    rfl

theorem IsBoundTo.withChannel {c d : ListingChannel} (h : s.IsBoundTo peer own)
    (hc : s.channel = some c) {n m : Network} (hlater : Socket.Later (c.socket, n) (d.socket, m))
    (hsame : d.channel.timeout = c.channel.timeout) :
    IsBoundTo peer own { s with channel := some d } := by
  obtain ⟨htransport, hpeer⟩ := h.socket c hc
  refine ⟨?_, ?_, h.timeout⟩
  · rintro _ ⟨⟩
    exact ⟨hlater.transport.trans htransport, hlater.peer.trans hpeer⟩
  · rintro _ ⟨⟩
    exact hsame.trans (h.waits c hc)

/-- New sockets go to the peer, and that is tried once. -/
theorem openSockets_opens (peer : SocketAddress) (s : MasterSession) (n : Network) :
    Ends (openSockets peer) (s, n) fun r v => v.1.IsBoundTo peer s.timeout ∧ ∃ failure,
      OpensOnce n.world peer s.channel.isSome n.history failure v.2.history ∧
      r = Failure.outcome failure ∧ v.1.channel.isSome = failure.isNone := by
  rw [Ends, openSockets_eq]
  have hclosed := List.forall_mem_nil fun e : Event => ∃ p, e = .closed p
  cases hconnect : n.world.connect n.history .udp peer with
  | none =>
    exact ⟨isBoundTo_of_fresh rfl rfl, none,
      ⟨[], hclosed, fun _ => rfl, hconnect.symm, rfl⟩, rfl, rfl⟩
  | some f =>
    exact ⟨isBoundTo_of_none rfl rfl, some f, ⟨[], hclosed, fun _ => rfl, hconnect.symm, rfl⟩, rfl,
      rfl⟩

end MasterSession

namespace MasterServer

variable {own : Option Nat} {region : Region} {filter : String} {force : Bool} {r : Nat}
  {p : Progress}

/-! ## What a discovery keeps -/

/-- The socket of a client, if there is one, goes to the active address. -/
def IsBoundTo (own : Option Nat) (s : MasterServer) : Prop :=
  s.connection.owner.IsBoundTo s.endpoint.address own

/-- The socket stays with the active address. -/
def StaysBound (own : Option Nat) (w v : MasterServer × Network) : Prop :=
  w.1.IsBoundTo own → v.1.IsBoundTo own

instance : Std.Refl (StaysBound own) := ⟨fun _ h => h⟩

instance : Trans (StaysBound own) (StaysBound own) (StaysBound own) := ⟨fun h h' hw => h' (h hw)⟩

theorem reconnect_opens (c : Connection MasterSession) (n : Network) :
    Ends Connection.reconnect (c, n) fun r v => v.1.endpoint = c.endpoint ∧
      v.1.owner.IsBoundTo c.endpoint.address c.owner.timeout ∧ ∃ failure,
        OpensOnce n.world c.endpoint.address c.owner.channel.isSome n.history failure v.2.history ∧
        r = Failure.outcome failure ∧ v.1.owner.channel.isSome = failure.isNone := by
  refine ends_state_bind (Ends.on (p := Connection.ownerPart) rfl ?_)
  refine (MasterSession.openSockets_opens c.endpoint.address c.owner n).imp ?_
  rintro r v ⟨hbound, hopens⟩
  exact ⟨rfl, hbound, hopens⟩

theorem staysBound_note (level : LogLevel) (text : String) :
    Moves (StaysBound own) (noteEndpoint level text) :=
  moves_state.bind fun _ => moves_modifyNetwork fun _ _ h => h

theorem staysBound_rotate : Moves (StaysBound own) (.on connectionPart Connection.rotate) := by
  rintro ⟨s, n⟩
  refine Ends.on (p := connectionPart) rfl (ends_state_bind (ends_modifyState_bind ?_))
  refine ends_bind_of_ok rfl ((reconnect_opens { s.connection with endpoint := _ } _).bind ?_ ?_)
  · rintro _ v ⟨hendpoint, hbound, -⟩
    refine ends_pure fun hs => ?_
    rw [hs.timeout, ← hendpoint] at hbound
    exact hbound
  · rintro e v ⟨hendpoint, hbound, -⟩ hs
    rw [hs.timeout, ← hendpoint] at hbound
    exact hbound

theorem staysBound_openUp : Moves (StaysBound own) openUp := by
  refine moves_state.bind fun s => ?_
  split
  · exact moves_pure _
  · rintro ⟨s, n⟩
    refine Ends.on (p := connectionPart) rfl ((reconnect_opens s.connection n).imp ?_)
    rintro r v ⟨hendpoint, hbound, -⟩ hs
    rw [hs.timeout, ← hendpoint] at hbound
    exact hbound

attribute [local irreducible] Dialog.Ends in
theorem staysBound_askPage (cursor : SocketAddressV4) :
    Moves (StaysBound own) (askPage region filter cursor) := by
  rintro ⟨s, n⟩
  cases hc : s.connection.owner.channel with
  | none => exact ends_on_none hc fun hs => hs
  | some c =>
    have hlater := ListingChannel.laterOf_ask ⟨region, cursor, filter⟩ (c, n)
    have hsame := ListingChannel.sameTimeout_ask ⟨region, cursor, filter⟩ (c, n)
    refine Ends.on (p := channelPart) hc ((hlater.and hsame).imp ?_)
    rintro r v ⟨hlater, hsame⟩ hs
    exact hs.withChannel hc hlater hsame

theorem staysBound_fetchPage (cursor : SocketAddressV4) :
    Moves (StaysBound own) (fetchPage region filter cursor) := by
  rw [fetchPage_eq]
  exact staysBound_openUp.bind fun _ => (staysBound_askPage cursor).map _

theorem staysBound_getServers (limit : Nat) :
    Moves (StaysBound own) (getServers limit region filter force) := by
  have hresume : ∀ r p limit, Moves (StaysBound own) (resume region filter force r limit p) := by
    intro r p limit
    induction limit generalizing p with
    | zero => exact moves_throw _
    | succ limit ih =>
      have hstep : Moves (StaysBound own) (step region filter force r p) :=
        moves_step (R := StaysBound own) staysBound_fetchPage staysBound_note staysBound_rotate
      refine hstep.bind fun next => ?_
      cases next with
      | finish servers => exact moves_pure _
      | resume q => exact ih q
  exact moves_state.bind fun _ => moves_network.bind fun _ => hresume _ _ limit

/-! ## Runs -/

/-- What a program does with a client of a master server. -/
inductive Operation where
  | setTimeout (timeout : Option Nat)
  | setRetries (retries : Option Nat)
  | configure (settings : Settings)
  | getServers (limit : Nat) (region : Region) (filter : String) (force : Bool)

/-- Carries an operation out. The value is of no interest. -/
def Operation.perform : Operation → Dialog MasterServer Unit
  | setTimeout timeout => modifyState (MasterServer.setTimeout timeout)
  | setRetries retries => modifyState (MasterServer.setRetries retries)
  | configure settings => modifyNetwork fun n => { n with settings }
  | getServers limit region filter force =>
    discard (MasterServer.getServers limit region filter force)

def run (ops : List Operation) (w : MasterServer × Network) : MasterServer × Network :=
  ops.foldl (fun v op => afterwards op.perform v) w

/-- How long the sockets are to wait once some operations have been carried out. -/
def lastTimeout (own : Option Nat) : List Operation → Option Nat
  | [] => own
  | .setTimeout timeout :: ops => lastTimeout timeout ops
  | _ :: ops => lastTimeout own ops

theorem proceeds_perform (op : Operation) (w : MasterServer × Network) :
    (afterwards op.perform w).1.endpoint.addresses = w.1.endpoint.addresses := by
  cases op with
  | setTimeout timeout => rfl
  | setRetries retries => rfl
  | configure settings => rfl
  | getServers limit region filter force =>
    exact ((proceeds_getServers limit).discard.afterwards w).addresses

theorem bound_run (ops : List Operation) {w : MasterServer × Network} (h : w.1.IsBoundTo own) :
    (run ops w).1.endpoint.addresses = w.1.endpoint.addresses ∧
      (run ops w).1.IsBoundTo (lastTimeout own ops) := by
  induction ops generalizing own w with
  | nil => exact ⟨rfl, h⟩
  | cons op ops ih =>
    have hop : (afterwards op.perform w).1.IsBoundTo (lastTimeout own [op]) := by
      cases op with
      | setTimeout timeout => exact MasterSession.IsBoundTo.setTimeout h timeout
      | setRetries retries => exact h
      | configure settings => exact h
      | getServers limit region filter force =>
        exact (staysBound_getServers limit).discard.afterwards w h
    have hlast : lastTimeout own (op :: ops) = lastTimeout (lastTimeout own [op]) ops := by
      cases op <;> rfl
    obtain ⟨haddresses, hbound⟩ := ih hop
    rw [hlast]
    exact ⟨haddresses.trans (proceeds_perform op w), hbound⟩

theorem bound_of_connect {σ : Type} {endpoint : Endpoint} {w v : σ × Network}
    {master : MasterServer} (h : connect endpoint w = .ok master v) :
    master.endpoint = endpoint ∧ master.IsBoundTo none := by
  obtain ⟨c, u, hbuild, h⟩ := bind_eq_ok h
  cases h
  obtain ⟨hreconnect, -⟩ := build_eq_ok hbuild
  obtain ⟨hendpoint, hbound, -⟩ := (reconnect_opens _ _).of_eq_ok hreconnect
  refine ⟨hendpoint, ?_⟩
  change MasterSession.IsBoundTo c.endpoint.address none c.owner
  rw [hendpoint]
  exact hbound

/-! ## Rotations and sockets that are opened again -/

theorem rotates (w : MasterServer × Network) :
    Ends (.on connectionPart Connection.rotate) w fun r v =>
      Rotates w.2.world w.1.endpoint w.1.connection.owner.channel.isSome w.2.history r v.1.endpoint
        v.1.connection.owner.channel.isSome v.2.history := by
  obtain ⟨s, n⟩ := w
  refine Ends.on (p := connectionPart) rfl (ends_state_bind (ends_modifyState_bind ?_))
  refine ends_bind_of_ok rfl ((reconnect_opens { s.connection with endpoint := _ } _).bind ?_ ?_)
  · rintro _ v ⟨hendpoint, -, _ | f, hopens, hr, hopen⟩
    · have haddresses := congrArg Endpoint.addresses hendpoint
      have hactive := congrArg Endpoint.active hendpoint
      refine ends_pure ⟨haddresses, hactive, none, ?_, hopen, ?_⟩
      · change OpensOnce _ v.1.endpoint.address _ _ _ _
        rw [hendpoint]
        exact hopens
      · change _ = Except.ok (decide (v.1.endpoint.active = 0))
        rw [hendpoint]
        rfl
    · cases hr
  · rintro e v ⟨hendpoint, -, _ | f, hopens, hr, hopen⟩
    · cases hr
    · cases hr
      have haddresses := congrArg Endpoint.addresses hendpoint
      have hactive := congrArg Endpoint.active hendpoint
      refine ⟨haddresses, hactive, some f, ?_, hopen, rfl⟩
      change OpensOnce _ v.1.endpoint.address _ _ _ _
      rw [hendpoint]
      exact hopens

/-- The latest history goes on from trying a new socket to the active address. -/
def Reopens (w v : MasterServer × Network) : Prop :=
  w.1.connection.owner.channel = none → ∃ new failure,
    failure = w.2.world.connect w.2.history .udp w.1.endpoint.address ∧
    v.2.history = new ++ .connected .udp w.1.endpoint.address failure :: w.2.history

instance : Trans Reopens Proceeds Reopens where
  trans h h' hnone := by
    obtain ⟨new, failure, hfailure, hnew⟩ := h hnone
    obtain ⟨later, hlater⟩ := h'.history
    refine ⟨later ++ new, failure, hfailure, ?_⟩
    rw [← hlater, hnew, List.append_assoc]

attribute [local irreducible] Dialog.Ends in
/-- What asks for a page without a socket opens one first. -/
theorem fetchPage_reopens (cursor : SocketAddressV4) {w : MasterServer × Network}
    (hnone : w.1.connection.owner.channel = none) :
    Ends (fetchPage region filter cursor) w fun r v => ∃ new failure,
      failure = w.2.world.connect w.2.history .udp w.1.endpoint.address ∧
      v.2.history = new ++ .connected .udp w.1.endpoint.address failure :: w.2.history ∧
      v.1.connection.owner.channel.isSome = failure.isNone ∧
      ∀ f, failure = some f → new = [] ∧ r = .error (.ofFailure f) := by
  obtain ⟨s, n⟩ := w
  have hopen : Ends openUp (s, n) fun r v => v.1.connection.owner.channel.isSome = r.toBool ∧
      ∃ failure, failure = n.world.connect n.history .udp s.endpoint.address ∧
        v.2.history = .connected .udp s.endpoint.address failure :: n.history ∧
        r = Failure.outcome failure := by
    refine ends_state_bind ?_
    simp only at hnone
    simp only [hnone, Option.isSome_none, Bool.false_eq_true, if_false]
    refine Ends.on (p := connectionPart) rfl ((reconnect_opens s.connection n).imp ?_)
    rintro r v ⟨-, -, failure, ⟨closed, -, hwas, hfailure, hhistory⟩, hr, hopen⟩
    have hclosed : closed = [] := by
      apply hwas
      rw [hnone]
      rfl
    subst hclosed
    refine ⟨?_, failure, hfailure, hhistory, hr⟩
    subst hr
    cases failure with
    | none => exact hopen
    | some f => exact hopen
  rw [fetchPage_eq]
  refine hopen.bind ?_ ?_
  · rintro _ v ⟨hsome, _ | f, hfailure, hhistory, hr⟩
    · obtain ⟨c, hc⟩ := Option.isSome_iff_exists.1 hsome
      let q : ListingQuery := ⟨region, cursor, filter⟩
      refine Ends.map (Ends.on (p := channelPart) hc ?_)
      refine (ListingChannel.laterOf_ask q (c, v.2)).imp fun r u hu => ?_
      obtain ⟨new, hnew, -⟩ := hu.history
      refine ⟨new, none, hfailure, ?_, rfl, nofun⟩
      rw [hnew, hhistory]
    · cases hr
  · rintro e v ⟨hsome, _ | f, hfailure, hhistory, hr⟩
    · cases hr
    · cases hr
      refine ⟨[], some f, hfailure, hhistory, hsome, ?_⟩
      rintro f' ⟨⟩
      exact ⟨rfl, rfl⟩

theorem getServers_reopens (limit : Nat) :
    Moves Reopens (getServers (limit + 1) region filter force) := by
  have hfetch : ∀ cursor, Moves Reopens (fetchPage region filter cursor) := by
    intro cursor w
    cases hchannel : w.1.connection.owner.channel with
    | some c =>
      refine ends_of_forall fun _ _ hnone => ?_
      rw [hchannel] at hnone
      cases hnone
    | none =>
      refine (fetchPage_reopens cursor hchannel).imp ?_
      rintro r v ⟨new, failure, hfailure, hhistory, -⟩ -
      exact ⟨new, failure, hfailure, hhistory⟩
  intro w
  refine ends_state_bind (ends_network_bind ?_)
  have hstep : Moves Reopens (step region filter force (w.1.attempts w.2.settings) {}) :=
    moves_step (R := Proceeds) hfetch proceeds_note proceeds_rotate
  refine (hstep w).bind ?_ fun _ _ hv => hv
  intro next v hv
  cases next with
  | finish servers => exact ends_pure hv
  | resume q => exact (proceeds_resume limit v).imp fun _ _ hu => Trans.trans hv hu

end MasterServer

/-! ## Both kinds of clients -/

/-- A client of a game server and its sockets. Without them the next request opens new ones. -/
structure GameServer.Coheres (addresses : List SocketAddress) (own : Option Nat)
    (w : GameServer × Network) : Prop where
  addresses : w.1.endpoint.addresses = addresses
  sockets : w.1.engine.IsBoundTo w.1.engine.framing w.1.address own
  disconnects : Ends disconnect w fun _ v => v.1.engine.isOpen = false
  reopens : w.1.engine.isOpen = false → ∀ op : Operation, op.Asks w.1.cache →
    Ends op.perform w (Reopens w.1.endpoint w.1.engine.framing own w)

/-- A client of a master server and its socket. Without it the next discovery opens a new one. -/
structure MasterServer.Coheres (addresses : List SocketAddress) (own : Option Nat)
    (w : MasterServer × Network) : Prop where
  addresses : w.1.endpoint.addresses = addresses
  socket : w.1.connection.owner.IsBoundTo w.1.endpoint.address own
  reopens : w.1.connection.owner.channel = none → ∀ limit region filter force,
    Ends (getServers (limit + 1) region filter force) w fun _ v => Reopens w v

/-- Whatever two clients of a game server and of a master server have done, and whichever sockets
could not be opened: their sockets go to the active address and wait as they were told last, a
rotation opens sockets to the next address once, and missing sockets are opened again. -/
theorem connections_cohere {σ τ : Type} {endpoint endpoint' : Endpoint} {engine : EngineSession}
    {start v : σ × Network} {server : GameServer} {start' v' : τ × Network} {master : MasterServer}
    (h : GameServer.connect endpoint engine start = .ok server v)
    (h' : MasterServer.connect endpoint' start' = .ok master v')
    (ops : List GameServer.Operation) (ops' : List MasterServer.Operation) :
    GameServer.Coheres endpoint.addresses (GameServer.lastTimeout engine.timeout ops)
        (GameServer.run ops (server, v.2)) ∧
      MasterServer.Coheres endpoint'.addresses (MasterServer.lastTimeout none ops')
        (MasterServer.run ops' (master, v'.2)) ∧
      (∀ w, Ends GameServer.rotate w fun r u => Rotates w.2.world w.1.endpoint
        w.1.engine.holdsSocket w.2.history r u.1.endpoint u.1.engine.isOpen u.2.history) ∧
      ∀ w, Ends (.on MasterServer.connectionPart Connection.rotate) w fun r u =>
        Rotates w.2.world w.1.endpoint w.1.connection.owner.channel.isSome w.2.history r
          u.1.endpoint u.1.connection.owner.channel.isSome u.2.history := by
  refine ⟨?_, ?_, GameServer.rotates, MasterServer.rotates⟩
  · obtain ⟨hattached, -⟩ := GameServer.attached_of_connect h
    obtain ⟨last, haddresses, hrun⟩ :=
      GameServer.attached_run (w := (server, v.2)) ops hattached
    generalize GameServer.run ops (server, v.2) = w at hrun
    generalize GameServer.lastTimeout engine.timeout ops = own at hrun
    have hframing := hrun.engine.bound.framing_eq
    have hendpoint := hrun.endpoint
    subst hendpoint
    rw [← hframing] at hrun
    refine ⟨haddresses, hrun.engine.bound, ?_, ?_⟩
    · exact (GameServer.disconnect_ends w hrun).imp fun _ _ hv => hv.2.1
    · intro hclosed op hop
      exact GameServer.reopens_perform hrun hclosed hop
  · obtain ⟨hendpoint, hbound⟩ := MasterServer.bound_of_connect h'
    obtain ⟨haddresses, hrun⟩ := MasterServer.bound_run (w := (master, v'.2)) ops' hbound
    refine ⟨haddresses.trans (congrArg Endpoint.addresses hendpoint), hrun, ?_⟩
    intro hnone limit region filter force
    exact MasterServer.getServers_reopens limit _

section Refused

open MasterServer (mastersAt masterAddress)

def refusedEndpoint : Endpoint := mastersAt (masterAddress 1) [masterAddress 2, masterAddress 3]

def refusedStart : Unit × Network := ((), { world := refusingWorld })

/-- The socket to the second address cannot be opened, so a client that goes on to it has none. -/
theorem connections_cohere_refused : ∃ server v master v',
    GameServer.connect refusedEndpoint (.source {}) refusedStart = .ok server v ∧
      MasterServer.connect refusedEndpoint refusedStart = .ok master v' ∧
      let w := GameServer.run [.setTimeout (some 7), .rotate] (server, v.2)
      w.1.address = masterAddress 2 ∧ w.1.engine.isOpen = false ∧
        GameServer.Coheres refusedEndpoint.addresses (some 7) w ∧
        Ends (GameServer.Operation.perform (.update .rules)) w
          (GameServer.Reopens w.1.endpoint .source (some 7) w) ∧
        MasterServer.Coheres refusedEndpoint.addresses none
          (MasterServer.run [.getServers 1 .world "" true] (master, v'.2)) := by
  refine ⟨_, _, _, _, rfl, rfl, ?_⟩
  have hserver : GameServer.connect refusedEndpoint (.source {}) refusedStart = .ok _ _ := rfl
  have hmaster : MasterServer.connect refusedEndpoint refusedStart = .ok _ _ := rfl
  obtain ⟨hcoherent, hcoherent', -⟩ := connections_cohere hserver hmaster
    [.setTimeout (some 7), .rotate] [.getServers 1 .world "" true]
  exact ⟨rfl, rfl, hcoherent, hcoherent.reopens rfl (.update .rules) trivial, hcoherent'⟩

end Refused

end GameQuery
