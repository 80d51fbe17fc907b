import GameQuery.Proofs.ServerCoherence

namespace GameQuery

/-!
# Whom a client talks to

Everything that happens to a client of a game server happens between it and the addresses of its
endpoint: requests go to the active address, streams are closed there, and a rotation opens sockets
to the next one. So a client of one address talks to nobody else, however often it is made to
rotate.
-/

open Dialog

/-- Whom an event is about. -/
def Event.peer : Event → SocketAddress
  | connected _ peer _ | sent _ peer _ | received _ peer _ | timedOut _ peer _ | closed peer => peer

/-- Some events more have happened, all of them with peers of a list. -/
def TalksTo (peers : List SocketAddress) (old history : List Event) : Prop :=
  ∃ new, history = new ++ old ∧ ∀ e ∈ new, e.peer ∈ peers

section TalksTo

variable {peers : List SocketAddress} {first second third : List Event}

theorem TalksTo.refl (peers : List SocketAddress) (history : List Event) :
    TalksTo peers history history := ⟨[], rfl, List.forall_mem_nil _⟩

theorem TalksTo.trans (h : TalksTo peers first second) (h' : TalksTo peers second third) :
    TalksTo peers first third := by
  obtain ⟨new, rfl, hnew⟩ := h
  obtain ⟨more, rfl, hmore⟩ := h'
  exact ⟨more ++ new, (List.append_assoc ..).symm, List.forall_mem_append.2 ⟨hmore, hnew⟩⟩

theorem TalksTo.cons {e : Event} (h : TalksTo peers first second) (he : e.peer ∈ peers) :
    TalksTo peers first (e :: second) := by
  obtain ⟨new, rfl, hnew⟩ := h
  exact ⟨e :: new, rfl, List.forall_mem_cons.2 ⟨he, hnew⟩⟩

end TalksTo

variable {peers : List SocketAddress} {peer : SocketAddress} {framing : Framing}
  {own : Option Nat} {old history : List Event}

/-! ## Waiting for a reply -/

theorem talksTo_receptions (hpeer : peer ∈ peers) (datagrams : List (List UInt8)) :
    TalksTo peers old (receptions peer datagrams ++ old) := by
  refine ⟨_, rfl, fun e he => ?_⟩
  obtain ⟨bytes, -, rfl⟩ := List.mem_map.1 (List.mem_reverse.1 he)
  exact hpeer

theorem talksTo_of_waited {datagrams : List (List UInt8)} {o : Except ClientError Reply}
    (hpeer : peer ∈ peers) (h : QueryChannel.Waited framing peer old datagrams o history) :
    TalksTo peers old history := by
  have htaken : TalksTo peers old _ := talksTo_receptions hpeer datagrams
  cases o with
  | ok reply =>
    rw [h.2]
    exact htaken
  | error e =>
    obtain ⟨-, -, rfl | ⟨wait, rfl⟩⟩ := h
    · exact htaken
    · exact htaken.cons hpeer

namespace GameServer

theorem talksTo_of_asked {r : Request} {wasOpen : Bool} {o : Except ClientError Reply}
    (hpeer : peer ∈ peers) (h : Asked framing peer r wasOpen old o history) :
    TalksTo peers old history := by
  cases h with
  | unopened _ f => exact (TalksTo.refl peers old).cons hpeer
  | waited datagrams h =>
    have hopening : TalksTo peers old (opening peer wasOpen ++ old) := by
      cases wasOpen with
      | true => exact .refl peers old
      | false => exact (TalksTo.refl peers old).cons hpeer
    have hsent : TalksTo peers old (.sent .udp peer r.bytes :: (opening peer wasOpen ++ old)) :=
      hopening.cons hpeer
    exact hsent.trans (talksTo_of_waited hpeer h)

/-- Over open sockets the request is what happens first. -/
theorem talksTo_of_asked_open {r : Request} {o : Except ClientError Reply} (hpeer : peer ∈ peers)
    (h : Asked framing peer r true old o history) :
    TalksTo peers (.sent .udp peer r.bytes :: old) history := by
  cases h with
  | unopened hwas _ => cases hwas
  | waited datagrams h => exact talksTo_of_waited hpeer h

end GameServer

/-! ## Opening and closing sockets -/

theorem QueryChannel.connect_talksTo {σ : Type} (hpeer : peer ∈ peers) (w : σ × Network) :
    Ends (connect peer framing) w fun _ v => TalksTo peers w.2.history v.2.history := by
  refine (connect_ends peer framing w).imp fun r v hv => ?_
  have hconnected : ∀ failure, TalksTo peers w.2.history
      (.connected .udp peer failure :: w.2.history) := fun _ => (TalksTo.refl _ _).cons hpeer
  cases r with
  | ok c =>
    rw [hv.2.2.2]
    exact hconnected none
  | error e =>
    obtain ⟨-, -, f, hhistory⟩ := hv
    rw [hhistory]
    exact hconnected (some f)

section Opening

variable {before : SocketAddress} (hbefore : before ∈ peers) (hpeer : peer ∈ peers)
include hpeer

theorem GoldSrcSession.openSockets_talksTo (s : GoldSrcSession) (n : Network) :
    Ends (openSockets peer) (s, n) fun _ v => TalksTo peers n.history v.2.history := by
  apply ends_modifyState_bind
  apply (QueryChannel.connect_talksTo hpeer _).bind
  · exact fun _ _ hv => hv
  · exact fun _ _ hv => hv

include hbefore

theorem SourceSession.openSockets_talksTo {s : SourceSession} (h : s.IsBoundTo before own)
    (n : Network) :
    Ends (openSockets peer) (s, n) fun _ v => TalksTo peers n.history v.2.history := by
  obtain ⟨closed, hconsole, -, hdisconnect⟩ := disconnect_closes s n
  have hclosed : TalksTo peers n.history (closed ++ n.history) := by
    refine ⟨closed, rfl, fun e he => ?_⟩
    obtain ⟨c, hc, rfl⟩ := hconsole e he
    rw [Event.peer, (h.console c hc).peer]
    exact hbefore
  apply ends_bind_of_ok hdisconnect
  apply (QueryChannel.connect_talksTo hpeer _).bind
  · exact fun _ _ hv => hclosed.trans hv
  · exact fun _ _ hv => hclosed.trans hv

theorem EngineSession.openSockets_talksTo {e : EngineSession} (h : e.IsBoundTo framing before own)
    (n : Network) :
    Ends (SocketOwner.openSockets peer) (e, n) fun _ v => TalksTo peers n.history v.2.history := by
  change Ends (byEngine (SourceSession.openSockets peer) (GoldSrcSession.openSockets peer)) _ _
  apply ends_state_bind
  cases e with
  | source s =>
    apply Ends.on (p := sourcePart) rfl
    exact SourceSession.openSockets_talksTo hbefore hpeer h.2 n
  | goldSrc s =>
    apply Ends.on (p := goldSrcPart) rfl
    exact GoldSrcSession.openSockets_talksTo hpeer s n

end Opening

namespace GameServer

variable {α : Type}

theorem rotate_talksTo {w : GameServer × Network} {before : SocketAddress}
    (h : w.1.engine.IsBoundTo framing before own) (hbefore : before ∈ peers)
    (hnext : w.1.endpoint.next.address ∈ peers) :
    Ends rotate w fun _ v => TalksTo peers w.2.history v.2.history := by
  obtain ⟨⟨⟨e, owner⟩, cache⟩, n⟩ := w
  apply ends_modifyState_bind
  apply Ends.on (p := connectionPart) rfl
  apply ends_state_bind
  apply ends_modifyState_bind
  refine ends_bind_of_ok rfl ?_
  have hopen : Ends Connection.reconnect ((⟨e.next, owner⟩ : Connection EngineSession),
      n.logLine .info ("switching to " ++ toString e.next)) fun _ v =>
      TalksTo peers n.history v.2.history := by
    apply ends_state_bind
    apply Ends.on (p := Connection.ownerPart) rfl
    exact EngineSession.openSockets_talksTo hbefore hnext h _
  apply hopen.bind
  · exact fun _ _ hv => hv
  · exact fun _ _ hv => hv

/-! ## What stays among the addresses of an endpoint -/

/-- A client has these addresses, and its sockets go to the active one of them. -/
structure IsAmong (peers : List SocketAddress) (framing : Framing) (own : Option Nat)
    (s : GameServer) : Prop where
  attached : s.IsAttached False s.endpoint framing own
  addresses : s.endpoint.addresses = peers

theorem IsAmong.address_mem {s : GameServer} (h : s.IsAmong peers framing own) :
    s.endpoint.address ∈ peers := by
  rw [← h.addresses]
  exact s.endpoint.address_mem

/-- A client keeps its addresses, and whatever it does happens between it and them. -/
def StaysAmong (peers : List SocketAddress) (framing : Framing) (own : Option Nat)
    (w v : GameServer × Network) : Prop :=
  w.1.IsAmong peers framing own →
    v.1.IsAmong peers framing own ∧ TalksTo peers w.2.history v.2.history

instance : Std.Refl (StaysAmong peers framing own) := ⟨fun _ h => ⟨h, .refl _ _⟩⟩

instance : Trans (StaysAmong peers framing own) (StaysAmong peers framing own)
    (StaysAmong peers framing own) where
  trans h h' hw := by
    obtain ⟨hv, hnew⟩ := h hw
    obtain ⟨hu, hmore⟩ := h' hv
    exact ⟨hu, hnew.trans hmore⟩

theorem staysAmong_of_ends {d : Dialog GameServer α}
    (h : ∀ w, w.1.IsAmong peers framing own → Ends d w fun _ v =>
      v.1.IsAmong peers framing own ∧ TalksTo peers w.2.history v.2.history) :
    Moves (StaysAmong peers framing own) d := by
  intro w
  by_cases hw : w.1.IsAmong peers framing own
  · exact (h w hw).imp fun _ _ hv _ => hv
  · exact ends_of_forall fun _ _ hw' => absurd hw' hw

theorem IsAmong.of_attached {s t : GameServer} (h : s.IsAmong peers framing own)
    (ht : t.IsAttached False s.endpoint framing own) : t.IsAmong peers framing own := by
  obtain ⟨hengine, hendpoint⟩ := ht
  refine ⟨⟨?_, rfl⟩, ?_⟩
  · rw [hendpoint]
    exact hengine
  · rw [hendpoint]
    exact h.addresses

theorem staysAmong_exchange (category : Category) (infoChallenge : Option Int32) :
    Moves (StaysAmong peers framing own) (exchange category infoChallenge) := by
  refine staysAmong_of_ends fun w hw => (exchange_ends category infoChallenge hw.attached w.2).imp ?_
  rintro r v ⟨hv, o, hasked, -⟩
  exact ⟨hw.of_attached hv, talksTo_of_asked hw.address_mem hasked⟩

theorem staysAmong_updatePing : Moves (StaysAmong peers framing own) updatePing := by
  refine staysAmong_of_ends fun w hw => (updatePing_ends hw.attached w.2).imp ?_
  rintro r v ⟨hv, o, hasked, -⟩
  exact ⟨hw.of_attached hv, talksTo_of_asked hw.address_mem hasked⟩

theorem carriesRequests_staysAmong : CarriesRequests (StaysAmong peers framing own) where
  quiet _ _ _ _ hhistory hs := ⟨hs, hhistory ▸ .refl _ _⟩
  asks category := staysAmong_exchange category none
  asksAgain category := moves_state.bind fun _ => staysAmong_exchange category _

theorem staysAmong_note (level : LogLevel) (text : String) :
    Moves (StaysAmong peers framing own) (note level text) :=
  moves_modifyNetwork fun _ _ hs => ⟨hs, .refl _ _⟩

theorem staysAmong_rotate : Moves (StaysAmong peers framing own) rotate := by
  refine staysAmong_of_ends fun w hw => ?_
  have hnext : w.1.endpoint.next.address ∈ peers := by
    rw [← hw.addresses]
    exact w.1.endpoint.next.address_mem
  have hbound := hw.attached.engine.bound
  refine ((rotate_opens w).and (rotate_talksTo hbound hw.address_mem hnext)).imp ?_
  rintro r v ⟨⟨hendpoint, -, hnew, -⟩, htalks⟩
  rw [hbound.framing_eq, hbound.timeout_eq, ← hendpoint] at hnew
  refine ⟨⟨⟨⟨hnew, False.elim⟩, rfl⟩, ?_⟩, htalks⟩
  rw [hendpoint]
  exact hw.addresses

theorem staysAmong_disconnect : Moves (StaysAmong peers framing own) disconnect := by
  refine staysAmong_of_ends fun w hw => (disconnect_ends w hw.attached).imp ?_
  rintro r v ⟨hv, -, -, closed, hclosed, hhistory⟩
  refine ⟨hw.of_attached hv, closed, hhistory, fun e he => ?_⟩
  rw [hclosed e he]
  exact hw.address_mem

/-- What has happened since some moment has happened between a client and its addresses. -/
def AmongSince (peers : List SocketAddress) (framing : Framing) (own : Option Nat)
    (first : List Event) (v : GameServer × Network) : Prop :=
  v.1.IsAmong peers framing own ∧ TalksTo peers first v.2.history

variable {first : List Event} {w : GameServer × Network}

theorem ends_of_staysAmong {d : Dialog GameServer α} (hd : Moves (StaysAmong peers framing own) d)
    (hw : AmongSince peers framing own first w) :
    Ends d w fun _ v => AmongSince peers framing own first v := by
  refine (hd w).imp fun _ v hv => ?_
  obtain ⟨hamong, hnew⟩ := hv hw.1
  exact ⟨hamong, hw.2.trans hnew⟩

/-- Failover tries one of the addresses after another. -/
theorem tryAddresses_among {d : Dialog GameServer α} (hd : Moves (StaysAmong peers framing own) d)
    (k : Nat) (h : Ends d w fun _ v => AmongSince peers framing own first v) :
    Ends (tryAddresses d k) w fun _ v => AmongSince peers framing own first v := by
  induction k generalizing w with
  | zero => exact h
  | succ k ih =>
    refine h.outcome_bind fun r v hv => ?_
    cases r with
    | ok a => exact ends_pure hv
    | error e =>
      have hagain : Ends (do
          let s ← state
          note .debug (toString s.address ++ ": " ++ e.message)
          if ← rotate then throw e
          tryAddresses d k) v fun _ u => AmongSince peers framing own first u := by
        apply ends_state_bind
        apply (ends_of_staysAmong (staysAmong_note _ _) hv).bind
        · intro _ t ht
          apply (ends_of_staysAmong staysAmong_rotate ht).bind
          · intro back u hu
            cases back with
            | true => exact ends_throw hu
            | false => exact ih (ends_of_staysAmong hd hu)
          · exact fun _ _ hu => hu
        · exact fun _ _ ht => ht
      simp only
      split
      · exact hagain
      · exact ends_throw hv

/-! ## The first request -/

/-- Sockets are opened to the active address, and nothing else happens. -/
theorem connect_opens {σ : Type} {endpoint : Endpoint} {engine : EngineSession}
    (hclosed : engine.holdsSocket = false) (w : σ × Network) :
    Ends (connect endpoint engine) w fun r v => v.1 = w.1 ∧ ∃ failure,
      v.2.history = .connected .udp endpoint.address failure :: w.2.history ∧
        match r with
        | .ok server => failure = none ∧ server.cache = {} ∧
            server.IsAttached True endpoint engine.framing engine.timeout
        | .error _ => failure.isSome = true := by
  have hopens := EngineSession.openSockets_opens endpoint.address engine w.2
  rw [hclosed] at hopens
  refine Ends.bind (Q := fun r v => v.1 = w.1 ∧ ∃ failure,
      v.2.history = .connected .udp endpoint.address failure :: w.2.history ∧
        match r with
        | .ok c => failure = none ∧ c.endpoint = endpoint ∧
            c.owner.IsAttached True engine.framing endpoint.address engine.timeout
        | .error _ => failure.isSome = true) ?_ ?_ ?_
  · apply Ends.build
    apply ends_state_bind
    apply Ends.on (p := Connection.ownerPart) rfl
    refine hopens.imp ?_
    rintro r v ⟨hbound, -, failure, ⟨closed, -, hnone, -, hhistory⟩, rfl, hquery⟩
    rw [hnone rfl, List.nil_append] at hhistory
    refine ⟨rfl, failure, hhistory, ?_⟩
    cases failure with
    | none =>
      refine ⟨rfl, rfl, hbound, fun _ => ?_⟩
      change (EngineSession.queryPart.get? v.1).isSome = true
      rw [hquery]
      rfl
    | some f => rfl
  · rintro c v ⟨hv, failure, hhistory, hnone, hendpoint, hattached⟩
    exact ends_pure ⟨hv, failure, hhistory, hnone, rfl, hattached, hendpoint⟩
  · exact fun _ _ hv => hv

/-- What is asked first of a server of which nothing is kept is its information. -/
theorem ping_asks (hw : w.1.IsAmong peers framing own) (hopen : w.1.engine.isOpen = true)
    (hcache : w.1.cache = {}) : Ends ping w fun _ v => AmongSince peers framing own
      (.sent .udp w.1.endpoint.address (Request.info {}).bytes :: w.2.history) v := by
  have hnone : w.1.cache.ping = none := by rw [hcache]
  apply ends_state_bind
  rw [hnone]
  refine (updatePing_ends hw.attached w.2).imp ?_
  rintro r v ⟨hv, o, hasked, -⟩
  rw [hopen] at hasked
  exact ⟨hw.of_attached hv, talksTo_of_asked_open hw.address_mem hasked⟩

end GameServer

end GameQuery
