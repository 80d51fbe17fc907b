import GameQuery.Proofs.DiscoveryRequests
import GameQuery.Proofs.DiscoveryRotation
import GameQuery.Proofs.ServerRun

namespace GameQuery

/-!
# Failover between the addresses of a game server

What is tried with a game server is tried at its active address and, after errors that may pass, at
the addresses behind it. A client that goes on to an address whose socket cannot be opened does not
try the addresses behind it. A discovery that is forced to use all master servers has this in common
with a client of a game server.
-/

open Dialog

/-! ## Opening sockets -/

/-- A channel to a peer that nothing has been sent over. -/
def QueryChannel.fresh (peer : SocketAddress) (framing : Framing) : QueryChannel where
  channel := { socket := { transport := .udp, peer }, buffer := .clamp queryBufferSize }
  reassembler := { framing }

theorem QueryChannel.connect_eq {σ : Type} (peer : SocketAddress) (framing : Framing)
    (w : σ × Network) : connect peer framing w =
      match w.2.world.connect w.2.history .udp peer with
      | none => .ok (fresh peer framing) (w.1, w.2.record (.connected .udp peer none))
      | some f => .error (.ofFailure f) (w.1, w.2.record (.connected .udp peer (some f))) := by
  simp only [connect, DatagramChannel.connect, Socket.connect, bind_assoc, network_bind]
  cases w.2.world.connect w.2.history .udp peer <;> rfl

/-- The latest that has happened is that a socket to a peer has been opened, or could not be. -/
def Reports {σ : Type} (peer : SocketAddress) (r : Except ClientError Unit) (v : σ × Network) :
    Prop :=
  match r with
  | .ok _ => v.2.history.head? = some (.connected .udp peer none)
  | .error e => ∃ f, e = .ofFailure f ∧ v.2.history.head? = some (.connected .udp peer (some f))

theorem QueryChannel.reports_connect {σ : Type} (peer : SocketAddress) (framing : Framing)
    (w : σ × Network) (f : QueryChannel → σ → σ) :
    Ends (do
      let c ← connect peer framing
      modifyState (f c)) w (Reports peer) := by
  have hconnect := connect_eq peer framing w
  cases hworld : w.2.world.connect w.2.history .udp peer with
  | none =>
    rw [hworld] at hconnect
    exact ends_bind_of_ok hconnect rfl
  | some failure =>
    rw [hworld] at hconnect
    exact ends_of_error (bind_of_error hconnect _) ⟨failure, rfl, rfl⟩

theorem SourceSession.disconnect_ok (w : SourceSession × Network) :
    ∃ v, disconnect w = .ok () v := by
  obtain ⟨⟨query, console, id, authenticated, timeout⟩, n⟩ := w
  cases console with
  | none => exact ⟨_, rfl⟩
  | some console =>
    obtain ⟨peer, stream, consoleTimeout⟩ := console
    cases stream with
    | none => exact ⟨_, rfl⟩
    | some stream => exact ⟨_, rfl⟩

theorem EngineSession.reports_openSockets (peer : SocketAddress) (w : EngineSession × Network) :
    Ends (SocketOwner.openSockets peer) w (Reports peer) := by
  obtain ⟨e, n⟩ := w
  change Ends (byEngine (SourceSession.openSockets peer) (GoldSrcSession.openSockets peer)) _ _
  cases e with
  | source s =>
    have hopen : Ends (SourceSession.openSockets peer) (s, n) (Reports peer) := by
      obtain ⟨v, hdisconnect⟩ := SourceSession.disconnect_ok (s, n)
      exact ends_bind_of_ok hdisconnect (QueryChannel.reports_connect peer .source v _)
    exact ends_state_bind (Ends.on (p := sourcePart) rfl (hopen.imp fun _ _ hv => hv))
  | goldSrc s =>
    have hopen : Ends (GoldSrcSession.openSockets peer) (s, n) (Reports peer) :=
      ends_modifyState_bind (QueryChannel.reports_connect peer .goldSrc _ _)
    exact ends_state_bind (Ends.on (p := goldSrcPart) rfl (hopen.imp fun _ _ hv => hv))

/-! ## The addresses that are left -/

namespace Endpoint

variable {e : Endpoint}

theorem drop_active (e : Endpoint) :
    e.addresses.drop e.active = e.address :: e.addresses.drop (e.active + 1) :=
  List.drop_eq_getElem_cons e.active_lt

theorem drop_active_of_next (h : e.next.active ≠ 0) :
    e.addresses.drop e.active = e.address :: e.next.addresses.drop e.next.active := by
  rw [active_next_of_ne_zero h, addresses_next]
  exact e.drop_active

theorem drop_active_of_last (h : e.next.active = 0) :
    e.addresses.drop e.active = [e.address] := by
  rw [drop_active, active_of_next_eq_zero h, List.drop_length]

end Endpoint

namespace GameServer

/-- A rotation goes on to the next address, whether or not the socket to it can be opened. -/
theorem rotate_ends (w : GameServer × Network) :
    Ends rotate w fun r v => v.1.endpoint = w.1.endpoint.next ∧
      match r with
      | .ok back => back = w.1.endpoint.next.atFirst
      | .error e => ∃ f, e = .ofFailure f ∧
          v.2.history.head? = some (.connected .udp w.1.endpoint.next.address (some f)) := by
  obtain ⟨⟨⟨endpoint, owner⟩, cache⟩, n⟩ := w
  refine ends_modifyState_bind (Ends.on (p := connectionPart) rfl ?_)
  refine ends_state_bind (ends_modifyState_bind (ends_bind_of_ok rfl ?_))
  have hopen : ∀ m, Ends Connection.reconnect
      ((⟨endpoint.next, owner⟩ : Connection EngineSession), m) fun r v =>
        v.1.endpoint = endpoint.next ∧ Reports endpoint.next.address r v := by
    intro m
    refine ends_state_bind (Ends.on (p := Connection.ownerPart) rfl ?_)
    exact (EngineSession.reports_openSockets endpoint.next.address (owner, m)).imp
      fun _ _ hv => ⟨rfl, hv⟩
  refine (hopen _).bind ?_ fun e v hv => hv
  rintro _ v ⟨hendpoint, -⟩
  exact ends_pure ⟨hendpoint, rfl⟩

/-! ## What stays at its address -/

def SameEndpoint (w v : GameServer × Network) : Prop := v.1.endpoint = w.1.endpoint

instance : Std.Refl SameEndpoint := ⟨fun _ => rfl⟩

instance : Trans SameEndpoint SameEndpoint SameEndpoint := ⟨fun h h' => Eq.trans h' h⟩

variable {α : Type}

/-- The client stays at its address. -/
def KeepsEndpoint (d : Dialog GameServer α) : Prop := Moves SameEndpoint d

theorem keepsEndpoint_onEngine (d : Dialog EngineSession α) : KeepsEndpoint (.on enginePart d) := by
  refine Moves.on (S := fun _ _ => True) (fun _ => ends_of_forall fun _ _ => trivial) ?_
  intro s n t v hs _
  rfl

theorem keepsEndpoint_onQuery (d : Dialog QueryChannel α) : KeepsEndpoint (.on queryPart d) := by
  refine Moves.on (S := fun _ _ => True) (fun _ => ends_of_forall fun _ _ => trivial) ?_
  intro s n t v hs _
  rfl

theorem keepsEndpoint_modifyState {f : GameServer → GameServer}
    (hf : ∀ s, (f s).endpoint = s.endpoint) : KeepsEndpoint (modifyState f) :=
  moves_modifyState fun s _ => hf s

theorem keepsEndpoint_ensureOpen : KeepsEndpoint ensureOpen := by
  refine moves_state.bind fun s => ?_
  split
  · exact moves_pure _
  · have hreconnect : Moves (fun w v => v.1.endpoint = w.1.endpoint)
        (Connection.reconnect (σ := EngineSession)) := fun w =>
      ends_state_bind (Ends.on (p := Connection.ownerPart) rfl (ends_of_forall fun _ _ => rfl))
    exact hreconnect.on fun _ _ _ _ hs hv => by cases hs; exact hv

theorem keepsEndpoint_exchange (category : Category) (infoChallenge : Option Int32) :
    KeepsEndpoint (exchange category infoChallenge) := by
  refine moves_state.bind fun s => keepsEndpoint_ensureOpen.bind fun _ => ?_
  refine (keepsEndpoint_onQuery _).bind fun _ => (keepsEndpoint_onQuery _).bind fun r => ?_
  refine Moves.bind (keepsEndpoint_modifyState ?_) fun _ => moves_pure _
  exact fun _ => rfl

theorem keepsEndpoint_updatePing : KeepsEndpoint updatePing := by
  refine keepsEndpoint_ensureOpen.bind fun _ => moves_network.bind fun start => ?_
  refine (keepsEndpoint_onQuery _).bind fun _ => (keepsEndpoint_onQuery _).bind fun r => ?_
  refine moves_network.bind fun now => ?_
  refine Moves.bind (keepsEndpoint_modifyState ?_) fun _ => moves_pure _
  exact fun _ => rfl

theorem keepsEndpoint_mergeStatus (output : String) : KeepsEndpoint (mergeStatus output) := by
  intro w
  obtain h | ⟨rows, log, -, h⟩ := mergeStatus_cases output w
  · exact ends_of_error h rfl
  · exact ends_of_ok h rfl

/-- Whatever a client asks a server, it asks at its address. -/
theorem carries_sameEndpoint : Carries SameEndpoint where
  quiet _ _ _ _ _ := rfl
  asks category := keepsEndpoint_exchange category none
  asksAgain category := moves_state.bind fun s => keepsEndpoint_exchange category s.cache.challenge
  logsIn _ := keepsEndpoint_ensureOpen.bind fun _ => keepsEndpoint_onEngine _
  commands _ := keepsEndpoint_onEngine _
  asksStatus := (keepsEndpoint_onEngine _).bind keepsEndpoint_mergeStatus
  measures := keepsEndpoint_updatePing

theorem keepsEndpoint_ping_info : KeepsEndpoint (do
    let ping ← ping
    let info ← info
    return (ping, info)) := by
  refine (moves_ping keepsEndpoint_updatePing).bind fun ping => ?_
  exact (moves_fetch (carries_sameEndpoint.moves_update .info) .info _).bind fun info =>
    moves_pure _

theorem keepsEndpoint_rules : KeepsEndpoint rules :=
  moves_fetch (carries_sameEndpoint.moves_update .rules) .rules _

theorem keepsEndpoint_updatePlayers (password : Option String) :
    KeepsEndpoint (updatePlayers password) :=
  carries_sameEndpoint.moves_updatePlayers password

theorem keepsEndpoint_authenticate (password : String) : KeepsEndpoint (authenticate password) :=
  carries_sameEndpoint.logsIn password

/-- What the query tool tries at one address after another. -/
inductive IsTried : {α : Type} → Dialog GameServer α → Prop
  | info : IsTried (do
      let ping ← ping
      let info ← info
      return (ping, info))
  | rules : IsTried rules
  | players (password : Option String) : IsTried (updatePlayers password)
  | console (password : String) : IsTried (authenticate password)

theorem IsTried.keepsEndpoint {d : Dialog GameServer α} (h : IsTried d) : KeepsEndpoint d := by
  cases h with
  | info => exact keepsEndpoint_ping_info
  | rules => exact keepsEndpoint_rules
  | players password => exact keepsEndpoint_updatePlayers password
  | console password => exact keepsEndpoint_authenticate password

/-! ## Tries -/

variable {d : Dialog GameServer α} {w v : GameServer × Network}

/-- One try at the active address. After an error that may pass the client goes on to the next
address, if that is not the first one. -/
def tryOnce (d : Dialog GameServer α) : Dialog GameServer (Option α) := do
  match ← Dialog.outcome d with
  | .ok a => return some a
  | .error e =>
    unless e.isTransport do throw e
    let s ← Dialog.state
    Dialog.note .debug (toString s.address ++ ": " ++ e.message)
    if ← rotate then throw e
    return none

theorem tryAddresses_succ (d : Dialog GameServer α) (n : Nat) : tryAddresses d (n + 1) =
    (tryOnce d >>= fun
      | some a => pure a
      | none => tryAddresses d n) := by
  rw [tryAddresses, tryOnce, bind_assoc]
  congr 1
  funext r
  cases r with
  | ok a => rfl
  | error e =>
    cases htransport : e.isTransport with
    | false =>
      simp only [htransport, Bool.false_eq_true, if_false]
      rfl
    | true =>
      simp only [htransport, if_true, bind_assoc]
      congr 1
      funext s
      congr 1
      funext _
      congr 1
      funext back
      cases back <;> rfl

theorem tryOnce_ends (hd : KeepsEndpoint d) (w : GameServer × Network) :
    Ends (tryOnce d) w fun r v =>
      match r with
      | .ok (some _) => True
      | .ok none => v.1.endpoint = w.1.endpoint.next ∧ w.1.endpoint.next.active ≠ 0
      | .error e => e.isTransport = true → w.1.endpoint.next.active = 0 ∨ ∃ f,
          e = .ofFailure f ∧
            v.2.history.head? = some (.connected .udp w.1.endpoint.next.address (some f)) := by
  refine (hd w).outcome_bind ?_
  rintro (e | a) u hu
  · cases htransport : e.isTransport with
    | false =>
      simp only [htransport, Bool.false_eq_true, if_false]
      refine ends_throw fun h => ?_
      rw [htransport] at h
      cases h
    | true =>
      simp only [htransport, if_true]
      refine ends_state_bind (ends_bind_of_ok rfl ?_)
      refine (rotate_ends _).bind ?_ ?_
      · rintro back v ⟨hendpoint, rfl⟩
        rw [hu] at hendpoint ⊢
        by_cases hfirst : w.1.endpoint.next.active = 0
        · rw [Endpoint.atFirst, decide_eq_true hfirst]
          exact ends_throw fun _ => .inl hfirst
        · rw [Endpoint.atFirst, decide_eq_false hfirst]
          exact ends_pure ⟨hendpoint, hfirst⟩
      · rintro e' v ⟨-, f, rfl, hlatest⟩ -
        rw [hu] at hlatest
        exact .inr ⟨f, rfl, hlatest⟩
  · exact ends_pure trivial

/-- What is there at each try, for at most `n` tries after the first. -/
def triesFrom (d : Dialog GameServer α) : Nat → GameServer × Network → List (GameServer × Network)
  | 0, w => [w]
  | n + 1, w =>
    w :: match tryOnce d w with
      | .ok none v => triesFrom d n v
      | _ => []

/-- What is there at each try of failover. -/
def triesOf (d : Dialog GameServer α) (w : GameServer × Network) : List (GameServer × Network) :=
  triesFrom d w.1.endpoint.addresses.length w

/-- The addresses at which failover has tried are the first ones from the active address on. If it
ends with an error that may pass, they are all of them, or the socket to the next one could not be
opened. -/
structure Tried (e : Endpoint) (tried : List SocketAddress) (r : Except ClientError α)
    (v : GameServer × Network) : Prop where
  inOrder : tried <+: e.addresses.drop e.active
  stops : ∀ error, r = .error error → error.isTransport = true →
    tried = e.addresses.drop e.active ∨ ∃ peer f,
      tried ++ [peer] <+: e.addresses.drop e.active ∧ error = .ofFailure f ∧
        v.2.history.head? = some (.connected .udp peer (some f))

theorem tryAddresses_ends (hd : KeepsEndpoint d) (n : Nat) {w : GameServer × Network}
    (hn : w.1.endpoint.addresses.length ≤ w.1.endpoint.active + n) :
    Ends (tryAddresses d n) w
      (Tried w.1.endpoint ((triesFrom d n w).map fun u => u.1.address)) := by
  -- There are no more addresses left than tries, so the last address is the last try.
  induction n generalizing w with
  | zero => exact absurd w.1.endpoint.active_lt (Nat.not_lt.2 hn)
  | succ n ih =>
    have hends := tryOnce_ends hd w
    have hfirst : [w.1.address] <+: w.1.endpoint.addresses.drop w.1.endpoint.active := by
      rw [Endpoint.drop_active]
      exact ⟨_, rfl⟩
    rw [tryAddresses_succ, triesFrom]
    cases hrun : tryOnce d w with
    | error e v =>
      refine ends_of_error (bind_of_error hrun _) ⟨hfirst, ?_⟩
      rintro e' he htransport
      cases he
      by_cases hlast : w.1.endpoint.next.active = 0
      · exact .inl (Endpoint.drop_active_of_last hlast).symm
      · rcases hends.of_eq_error hrun htransport with hlast' | ⟨f, hf, hlatest⟩
        · exact absurd hlast' hlast
        · refine .inr ⟨w.1.endpoint.next.address, f, ?_, hf, hlatest⟩
          rw [Endpoint.drop_active_of_next hlast, Endpoint.drop_active]
          exact ⟨_, rfl⟩
    | ok r v =>
      refine ends_bind_of_ok hrun ?_
      cases r with
      | some a => exact ends_pure ⟨hfirst, nofun⟩
      | none =>
        obtain ⟨hendpoint, hnext⟩ := hends.of_eq_ok hrun
        have hactive := Endpoint.active_next_of_ne_zero hnext
        have hleft : v.1.endpoint.addresses.length ≤ v.1.endpoint.active + n := by
          rw [hendpoint, hactive, Endpoint.addresses_next]
          omega
        refine (ih hleft).imp fun r u htried => ?_
        rw [hendpoint] at htried
        have hdrop := Endpoint.drop_active_of_next hnext
        constructor
        · rw [hdrop]
          exact List.cons_prefix_cons.2 ⟨rfl, htried.inOrder⟩
        · intro e he htransport
          rw [hdrop]
          rcases htried.stops e he htransport with hall | ⟨peer, f, hnot, hf, hlatest⟩
          · exact .inl (congrArg (w.1.address :: ·) hall)
          · exact .inr ⟨peer, f, List.cons_prefix_cons.2 ⟨rfl, hnot⟩, hf, hlatest⟩

theorem withFailover_ends (hd : KeepsEndpoint d) (w : GameServer × Network) :
    Ends (withFailover d) w (Tried w.1.endpoint ((triesOf d w).map fun u => u.1.address)) :=
  ends_state_bind (tryAddresses_ends hd _ (Nat.le_add_left _ _))

end GameServer

/-! ## Both kinds of failover -/

open MasterServer GameServer

/-- A forced discovery goes on from the same cursor at the next address, and is exhausted when the
first address comes again; failover tries one address after another. Both are ended by an address
only if the socket to it cannot be opened when they go on to it, and then with that failure. -/
theorem failover_stops_at_unopened {α : Type} {limit : Nat} {region : Region} {filter : String}
    {w v : MasterServer × Network} {result : Except ClientError (List SocketAddressV4)}
    {d : Dialog GameServer α} {u u' : GameServer × Network} {answer : Except ClientError α}
    (hw : Reached w) (hsettings : w.2.settings.Attained)
    (h : Dialog.outcome (getServers limit region filter true) w = .ok result v)
    (hd : KeepsEndpoint d) (h' : Dialog.outcome (withFailover d) u = .ok answer u') :
    let r := w.1.attempts w.2.settings
    let as := attemptsOf limit region filter true w
    (∀ before a b after, as = before ++ a :: b :: after → a.GivesUp r before →
        b.endpoint = a.endpoint.next ∧ b.cursor = a.cursor) ∧
      (∀ before a, as = before ++ [a] → a.GivesUp r before →
        Rotated a.endpoint v (EndsRotated as a.endpoint result)) ∧
      ((∃ e, result = .error e ∧ e.isTransport = true) ↔
        ∃ before a f, as = before ++ [a] ∧ a.GivesUp r before ∧
          (ClientError.ofFailure f).isTransport = true ∧
          v.2.history.head? = some (.connected .udp a.endpoint.next.address (some f))) ∧
      Tried u.1.endpoint ((triesOf d u).map fun t => t.1.address) answer u' := by
  have hend := (getServers_forcedEnd hw.isBound (hw.attempts_pos hsettings) limit).of_outcome h
  refine ⟨?_, hend.rotated, ⟨?_, ?_⟩, (withFailover_ends hd u).of_outcome h'⟩
  · intro before a b after hsplit hgivesUp
    refine ⟨(hend.onward.next before a b after hsplit).trans (if_pos hgivesUp), ?_⟩
    have hb : attemptsOf limit region filter true w = (before ++ [a]) ++ b :: after := by
      rw [hsplit, List.append_assoc]
      rfl
    rw [hend.onward.cursor _ _ _ hb, lastCollected_snoc, Attempt.harvest_of_failed hgivesUp.1,
      hend.onward.cursor _ _ _ hsplit]
    rfl
  · rintro ⟨e, rfl, htransport⟩
    obtain ⟨before, a, has, hgivesUp⟩ := hend.givesUp e rfl htransport
    obtain ⟨-, failure, hlatest, hresult⟩ := hend.rotated before a has hgivesUp
    cases failure with
    | some f =>
      cases hresult
      exact ⟨before, a, f, has, hgivesUp, htransport, hlatest⟩
    | none =>
      -- A rotation that succeeds does not end in such an error.
      simp only [EndsRotated] at hresult
      split at hresult
      · cases hresult
        cases htransport
      · cases hresult
        cases htransport
  · rintro ⟨before, a, f, has, hgivesUp, htransport, hlatest⟩
    obtain ⟨-, failure, hlatest', hresult⟩ := hend.rotated before a has hgivesUp
    rw [hlatest] at hlatest'
    cases hlatest'
    exact ⟨_, hresult, htransport⟩

section Refusing

/-- The first master server has one page, and the third one the rest of the list. -/
def refusingPages (peer : SocketAddress) : List (Option (List SocketAddressV4)) :=
  if peer = masterAddress 1 then [some [⟨⟨10, 0, 0, 1⟩, gamePort⟩]]
  else if peer = masterAddress 3 then [some [⟨⟨10, 0, 0, 2⟩, gamePort⟩, sentinel]]
  else []

/-- The socket to the second one cannot be opened. -/
def refusingWorld : World := .ofPages refusingPages [masterAddress 2]

def refusingStart : MasterServer × Network :=
  clientOf 1 (masterAddress 1) [masterAddress 2, masterAddress 3] refusingWorld

attribute [local irreducible] Dialog.Ends

/-- A discovery returns the error of the second master server and does not ask the third one. -/
theorem refused_not_passed_over : ∃ v,
    Reached refusingStart ∧
      Dialog.outcome (getServers 9 .world "" true) refusingStart =
        .ok (.error (.ofFailure .refused)) v ∧
      (ClientError.ofFailure .refused).isTransport = true ∧
      masterAddress 3 ∈ refusingStart.1.endpoint.addresses ∧
      refusingWorld.connect v.2.history .udp (masterAddress 3) = none ∧
      (asked v.2.history).count (masterAddress 3) = 0 := by
  have hends : Ends (getServers 9 .world "" true) refusingStart fun result v =>
      result = .error (.ofFailure .refused) ∧
        (asked v.2.history).count (masterAddress 3) = 0 := by decide +kernel
  obtain ⟨result, v, hrun, rfl, hasked⟩ := hends.exists_outcome
  exact ⟨v, clientOf_reached 1 _ rfl, hrun, rfl, by decide, rfl, hasked⟩

/-- A client of a game server with the same addresses. -/
def refusingServer : GameServer × Network :=
  ({ connection := ⟨mastersAt (masterAddress 1) [masterAddress 2, masterAddress 3],
      .goldSrc { query := some (.fresh (masterAddress 1) .goldSrc) }⟩ }, { world := refusingWorld })

theorem failover_stops_at_unopened_refusing : ∃ v answer u',
    Reached refusingStart ∧ refusingStart.2.settings.Attained ∧
      Dialog.outcome (getServers 9 .world "" true) refusingStart =
        .ok (.error (.ofFailure .refused)) v ∧
      KeepsEndpoint rules ∧ Dialog.outcome (withFailover rules) refusingServer = .ok answer u' ∧
      (∃ before a f, attemptsOf 9 .world "" true refusingStart = before ++ [a] ∧
        a.GivesUp 1 before ∧ (ClientError.ofFailure f).isTransport = true ∧
        v.2.history.head? = some (.connected .udp a.endpoint.next.address (some f))) ∧
      Tried refusingServer.1.endpoint ((triesOf rules refusingServer).map fun t => t.1.address)
        answer u' := by
  have hends : Ends (getServers 9 .world "" true) refusingStart fun result _ =>
      result = .error (.ofFailure .refused) := by decide +kernel
  obtain ⟨result, v, hrun, rfl⟩ := hends.exists_outcome
  obtain ⟨answer, u', htried, -⟩ :=
    (withFailover_ends keepsEndpoint_rules refusingServer).exists_outcome
  have hreached : Reached refusingStart := clientOf_reached 1 _ rfl
  obtain ⟨-, -, hstops, hall⟩ :=
    failover_stops_at_unopened hreached .initial hrun keepsEndpoint_rules htried
  exact ⟨v, answer, u', hreached, .initial, hrun, keepsEndpoint_rules, htried,
    hstops.1 ⟨_, rfl, rfl⟩, hall⟩

end Refusing

end GameQuery
