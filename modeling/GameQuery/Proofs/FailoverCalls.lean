import GameQuery.Proofs.ServerCoherence
import GameQuery.Proofs.ServerFailover

namespace GameQuery

/-!
# The calls of failover

Failover has no counter: it goes on to the next address, and ends when that is the first one again.
As long as a call leaves the active address alone and the sockets to the next one can be opened, the
calls go through the addresses in their order, each with new sockets and nothing kept. The last call
decides how failover ends.
-/

open Dialog

/-- The endpoint with its first address active. -/
def Endpoint.first (e : Endpoint) : Endpoint :=
  ⟨e.host, e.addresses, 0, Nat.zero_lt_of_lt e.active_lt⟩

theorem Endpoint.next_eq_first {e : Endpoint} (h : e.next.active = 0) : e.next = e.first := by
  simp only [first, next, mk.injEq, true_and]
  exact h

/-! ## New sockets -/

namespace SourceSession

def renewed (peer : SocketAddress) (s : SourceSession) : SourceSession :=
  { s.disconnected with
    query := some ((QueryChannel.fresh peer .source).setTimeout s.timeout)
    console := some { peer, timeout := s.timeout } }

theorem openSockets_renews (peer : SocketAddress) (s : SourceSession) (n : Network) :
    Ends (openSockets peer) (s, n) fun r v =>
      v.1 = if r.isOk then s.renewed peer else s.disconnected := by
  obtain ⟨closed, -, -, hdisconnect⟩ := disconnect_closes s n
  have hconnect := QueryChannel.connect_eq peer .source
    (s.disconnected, { n with history := closed ++ n.history })
  apply ends_bind_of_ok hdisconnect
  cases hworld : n.world.connect (closed ++ n.history) .udp peer with
  | none =>
    simp only [hworld] at hconnect
    exact ends_bind_of_ok hconnect rfl
  | some f =>
    simp only [hworld] at hconnect
    exact ends_of_error (bind_of_error hconnect _) rfl

end SourceSession

namespace GoldSrcSession

/-- A session that has given its socket up. -/
def disconnected (s : GoldSrcSession) : GoldSrcSession :=
  { s with query := none, password := none, challenge := none }

def renewed (peer : SocketAddress) (s : GoldSrcSession) : GoldSrcSession :=
  { s.disconnected with query := some ((QueryChannel.fresh peer .goldSrc).setTimeout s.timeout) }

theorem openSockets_renews (peer : SocketAddress) (s : GoldSrcSession) (n : Network) :
    Ends (openSockets peer) (s, n) fun r v =>
      v.1 = if r.isOk then s.renewed peer else s.disconnected := by
  have hconnect := QueryChannel.connect_eq peer .goldSrc (s.disconnected, n)
  apply ends_modifyState_bind
  cases hworld : n.world.connect n.history .udp peer with
  | none =>
    simp only [hworld] at hconnect
    exact ends_bind_of_ok hconnect rfl
  | some f =>
    simp only [hworld] at hconnect
    exact ends_of_error (bind_of_error hconnect _) rfl

end GoldSrcSession

namespace EngineSession

/-- A session that has given its sockets up. -/
def disconnected : EngineSession → EngineSession
  | source s => source s.disconnected
  | goldSrc s => goldSrc s.disconnected

/-- A session with new sockets to a peer, without a password, a challenge number or a stream to the
console. -/
def renewed (peer : SocketAddress) : EngineSession → EngineSession
  | source s => source (s.renewed peer)
  | goldSrc s => goldSrc (s.renewed peer)

theorem openSockets_renews (peer : SocketAddress) (e : EngineSession) (n : Network) :
    Ends (SocketOwner.openSockets peer) (e, n) fun r v =>
      v.1 = if r.isOk then e.renewed peer else e.disconnected := by
  change Ends (byEngine (SourceSession.openSockets peer) (GoldSrcSession.openSockets peer)) _ _
  apply ends_state_bind
  cases e with
  | source s =>
    apply Ends.on (p := sourcePart) rfl
    exact (s.openSockets_renews peer n).imp fun r v h => (congrArg source h).trans (apply_ite ..)
  | goldSrc s =>
    apply Ends.on (p := goldSrcPart) rfl
    exact (s.openSockets_renews peer n).imp fun r v h => (congrArg goldSrc h).trans (apply_ite ..)

theorem isOpen_renewed (peer : SocketAddress) (e : EngineSession) :
    (e.renewed peer).isOpen = true := by
  cases e <;> rfl

end EngineSession

namespace GameServer

/-- A client that has gone on to the next address. -/
def movedOn (s : GameServer) : GameServer where
  connection := ⟨s.endpoint.next, s.engine.renewed s.endpoint.next.address⟩
  cache := {}

theorem rotate_movesOn (w : GameServer × Network) :
    Ends rotate w fun r v => ∀ back, r = .ok back →
      back = w.1.endpoint.next.atFirst ∧ v.1 = w.1.movedOn := by
  obtain ⟨⟨⟨e, owner⟩, cache⟩, n⟩ := w
  apply ends_modifyState_bind
  apply Ends.on (p := connectionPart) rfl
  apply ends_state_bind
  apply ends_modifyState_bind
  refine ends_bind_of_ok rfl ?_
  refine Ends.bind (Q := fun r v => r.isOk = true →
    v.1 = (⟨e.next, owner.renewed e.next.address⟩ : Connection EngineSession)) ?_ ?_ ?_
  · apply ends_state_bind
    apply Ends.on (p := Connection.ownerPart) rfl
    refine (EngineSession.openSockets_renews e.next.address owner _).imp fun r v h hok => ?_
    rw [hok, if_pos rfl] at h
    exact congrArg (Connection.mk e.next) h
  · intro _ v hv
    apply ends_pure
    intro back hback
    cases hback
    rw [hv rfl]
    exact ⟨rfl, rfl⟩
  · exact fun e v _ => nofun

/-! ## One call -/

variable {α : Type} {d : Dialog GameServer α} {w v : GameServer × Network} {e : ClientError}

def mayPass : Except ClientError α → Bool
  | .ok _ => false
  | .error e => e.isTransport

/-- What failover does after an error that may pass. -/
def moveOn (e : ClientError) : Dialog GameServer Bool := do
  let s ← Dialog.state
  Dialog.note .debug (toString s.address ++ ": " ++ e.message)
  rotate

/-- After an error that may pass, the sockets to the next address can be opened. -/
def NextOpens (r : Except ClientError α) (v : GameServer × Network) : Prop :=
  match r with
  | .ok _ => True
  | .error e => e.isTransport = true → Ends (moveOn e) v fun back _ => back.isOk = true

theorem moveOn_movesOn (h : Ends (moveOn e) v fun back _ => back.isOk = true) :
    ∃ u, moveOn e v = .ok v.1.endpoint.next.atFirst u ∧ u.1 = v.1.movedOn := by
  have hends : Ends (moveOn e) v fun r u => ∀ back, r = .ok back →
      back = v.1.endpoint.next.atFirst ∧ u.1 = v.1.movedOn := by
    apply ends_state_bind
    refine ends_bind_of_ok rfl ?_
    exact rotate_movesOn _
  cases hmove : moveOn e v with
  | ok back u =>
    obtain ⟨rfl, hu⟩ := hends.of_eq_ok hmove back rfl
    exact ⟨u, rfl, hu⟩
  | error e' u => exact nomatch h.of_eq_error hmove

/-- How one call ends, and what becomes of it. -/
def Called (d : Dialog GameServer α) (w : GameServer × Network)
    (r : Except ClientError (Option α)) (v : GameServer × Network) : Prop :=
  match r with
  | .ok (some a) => d w = .ok a v ∧ v.1.endpoint = w.1.endpoint
  | .ok none => w.1.endpoint.next.active ≠ 0 ∧ v.1.endpoint = w.1.endpoint.next ∧
      ∃ e t, d w = .error e t ∧ e.isTransport = true ∧ v.1 = t.1.movedOn
  | .error e =>
    if e.isTransport then w.1.endpoint.next.active = 0 ∧ v.1.endpoint = w.1.endpoint.next ∧
      ∃ t, d w = .error e t ∧ v.1 = t.1.movedOn
    else d w = .error e v ∧ v.1.endpoint = w.1.endpoint

theorem tryOnce_called (hstays : Ends d w fun _ v => v.1.endpoint = w.1.endpoint)
    (hopens : Ends d w NextOpens) : Ends (tryOnce d) w (Called d w) := by
  cases hd : d w with
  | ok a t =>
    apply ends_bind_of_ok (outcome_of_ok hd)
    exact ends_pure ⟨hd, hstays.of_eq_ok hd⟩
  | error e t =>
    have hendpoint := hstays.of_eq_error hd
    apply ends_bind_of_ok (outcome_of_error hd)
    cases htransport : e.isTransport with
    | false =>
      simp only [htransport, Bool.false_eq_true, if_false]
      apply ends_throw
      simp only [Called, htransport, Bool.false_eq_true, if_false]
      exact ⟨hd, hendpoint⟩
    | true =>
      simp only [htransport, if_true]
      obtain ⟨u, hmove, hu⟩ := moveOn_movesOn (hopens.of_eq_error hd htransport)
      have hmoved : u.1.endpoint = w.1.endpoint.next := by
        rw [hu, ← hendpoint]
        rfl
      have hrest : Ends (moveOn e >>= fun back => if back then throw e else pure none) t
          (Called d w) := by
        apply ends_bind_of_ok hmove
        rw [hendpoint, Endpoint.atFirst]
        by_cases hlast : w.1.endpoint.next.active = 0
        · rw [decide_eq_true hlast]
          apply ends_throw
          rw [Called, if_pos htransport]
          exact ⟨hlast, hmoved, t, hd, hu⟩
        · rw [decide_eq_false hlast]
          exact ends_pure ⟨hlast, hmoved, e, t, hd, htransport, hu⟩
      exact hrest

/-! ## All calls -/

/-- The calls of failover, given what is there at each of them, the addresses that are left, and how
it ends. -/
structure Calls (d : Dialog GameServer α) (addresses : List SocketAddress)
    (calls : List (GameServer × Network)) (w : GameServer × Network) (r : Except ClientError α)
    (v : GameServer × Network) : Prop where
  first : ∃ rest, calls = w :: rest
  inOrder : calls.map (fun u => u.1.address) <+: addresses
  /-- One call follows another after an error that may pass only. -/
  goesOn : ∀ before u u' after, calls = before ++ u :: u' :: after →
    ∃ e t, d u = .error e t ∧ e.isTransport = true ∧ u'.1 = t.1.movedOn
  /-- The result is that of the last call. -/
  last : ∃ before u, calls = before ++ [u] ∧ Ends d u fun result t => r = result ∧
    if mayPass result then calls.map (fun u => u.1.address) = addresses ∧
      v.1 = t.1.movedOn ∧ v.1.endpoint = w.1.endpoint.first ∧ v.1.engine.isOpen = true
    else v = t ∧ v.1.endpoint = u.1.endpoint

theorem Calls.of_last {r : Except ClientError α}
    (hlast : Ends d w fun result t => r = result ∧
      if mayPass result then [w.1.address] = w.1.endpoint.addresses.drop w.1.endpoint.active ∧
        v.1 = t.1.movedOn ∧ v.1.endpoint = w.1.endpoint.first ∧ v.1.engine.isOpen = true
      else v = t ∧ v.1.endpoint = w.1.endpoint) :
    Calls d (w.1.endpoint.addresses.drop w.1.endpoint.active) [w] w r v where
  first := ⟨[], rfl⟩
  inOrder := by
    rw [Endpoint.drop_active]
    exact ⟨_, rfl⟩
  goesOn before u u' after h := by
    have hlength := congrArg List.length h
    simp at hlength
    omega
  last := ⟨[], w, rfl, hlast⟩

theorem Calls.of_error (h : Called d w (.error e) v) :
    Calls d (w.1.endpoint.addresses.drop w.1.endpoint.active) [w] w (.error e) v := by
  apply Calls.of_last
  cases htransport : e.isTransport with
  | false =>
    rw [Called, htransport] at h
    obtain ⟨hd, hendpoint⟩ := h
    refine ends_of_error hd ⟨rfl, ?_⟩
    rw [mayPass, htransport]
    exact ⟨rfl, hendpoint⟩
  | true =>
    rw [Called, htransport] at h
    obtain ⟨hnext, hmoved, t, hd, hv⟩ := h
    refine ends_of_error hd ⟨rfl, ?_⟩
    rw [mayPass, htransport, if_pos rfl]
    refine ⟨(Endpoint.drop_active_of_last hnext).symm, hv, ?_, ?_⟩
    · rw [hmoved, Endpoint.next_eq_first hnext]
    · rw [hv]
      exact EngineSession.isOpen_renewed _ _

theorem Calls.of_ok {a : α} (h : Called d w (.ok (some a)) v) :
    Calls d (w.1.endpoint.addresses.drop w.1.endpoint.active) [w] w (.ok a) v :=
  Calls.of_last (ends_of_ok h.1 ⟨rfl, rfl, h.2⟩)

/-- One more call in front of those that go on from it. -/
theorem Calls.cons {calls : List (GameServer × Network)} {r : Except ClientError α}
    {u : GameServer × Network} (hw : Called d w (.ok none) u)
    (h : Calls d (u.1.endpoint.addresses.drop u.1.endpoint.active) calls u r v) :
    Calls d (w.1.endpoint.addresses.drop w.1.endpoint.active) (w :: calls) w r v := by
  obtain ⟨hnext, hmoved, e, t, hd, htransport, hu⟩ := hw
  have haddresses : w.1.endpoint.addresses.drop w.1.endpoint.active =
      w.1.address :: u.1.endpoint.addresses.drop u.1.endpoint.active := by
    rw [Endpoint.drop_active_of_next hnext, hmoved]
    rfl
  have hback : u.1.endpoint.first = w.1.endpoint.first := by
    rw [hmoved]
    rfl
  rw [haddresses]
  constructor
  · exact ⟨calls, rfl⟩
  · exact List.cons_prefix_cons.2 ⟨rfl, h.inOrder⟩
  · intro before x x' after hsplit
    cases before with
    | nil =>
      obtain ⟨rest, hrest⟩ := h.first
      rw [hrest] at hsplit
      cases hsplit
      exact ⟨e, t, hd, htransport, hu⟩
    | cons y before =>
      rw [List.cons_append] at hsplit
      exact h.goesOn before x x' after (List.cons.inj hsplit).2
  · obtain ⟨before, x, hcalls, hlast⟩ := h.last
    refine ⟨w :: before, x, congrArg (w :: ·) hcalls, hlast.imp fun result y hy => ?_⟩
    obtain ⟨hr, hy⟩ := hy
    refine ⟨hr, ?_⟩
    split
    · next hpass =>
      rw [if_pos hpass] at hy
      obtain ⟨hall, hv, hfirst, hopen⟩ := hy
      exact ⟨congrArg (w.1.address :: ·) hall, hv, hfirst.trans hback, hopen⟩
    · next hpass => rwa [if_neg hpass] at hy

theorem tryAddresses_calls (n : Nat)
    (hn : w.1.endpoint.addresses.length ≤ w.1.endpoint.active + n)
    (hstays : ∀ u ∈ triesFrom d n w, Ends d u fun _ v => v.1.endpoint = u.1.endpoint)
    (hopens : ∀ u ∈ triesFrom d n w, Ends d u NextOpens) :
    Ends (tryAddresses d n) w
      (Calls d (w.1.endpoint.addresses.drop w.1.endpoint.active) (triesFrom d n w) w) := by
  -- There are no more addresses left than calls, so the last address is the last call.
  induction n generalizing w with
  | zero => exact absurd w.1.endpoint.active_lt (Nat.not_lt.2 hn)
  | succ n ih =>
    have hcalled := tryOnce_called (hstays w List.mem_cons_self) (hopens w List.mem_cons_self)
    rw [tryAddresses_succ]
    rw [triesFrom] at hstays hopens ⊢
    cases htry : tryOnce d w with
    | error e v =>
      apply ends_of_error (bind_of_error htry _)
      exact .of_error (hcalled.of_eq_error htry)
    | ok r v =>
      rw [htry] at hstays hopens
      apply ends_bind_of_ok htry
      cases r with
      | some a => exact ends_pure (.of_ok (hcalled.of_eq_ok htry))
      | none =>
        have hnone := hcalled.of_eq_ok htry
        have hleft : v.1.endpoint.addresses.length ≤ v.1.endpoint.active + n := by
          rw [hnone.2.1, Endpoint.active_next_of_ne_zero hnone.1, Endpoint.addresses_next]
          omega
        have hrest := ih hleft (fun u hu => hstays u (List.mem_cons_of_mem w hu))
          (fun u hu => hopens u (List.mem_cons_of_mem w hu))
        exact hrest.imp fun r u hcalls => .cons hnone hcalls

/-- The calls of the query tool leave the active address alone, so all that is said of the calls of
failover holds of them. -/
theorem withFailover_tried (h : IsTried d) (hopens : ∀ u ∈ triesOf d w, Ends d u NextOpens) :
    Ends (withFailover d) w (Calls d (w.1.endpoint.addresses.drop w.1.endpoint.active)
      (triesOf d w) w) :=
  ends_state_bind
    (tryAddresses_calls _ (Nat.le_add_left _ _) (fun u _ => h.keepsEndpoint u) hopens)

/-- If the first address is active, no call leaves its address, and new sockets can be opened
whenever failover goes on: the calls go through the addresses in their order, each but the first
with new sockets and nothing kept, up to the first one that succeeds or fails with an error that is
there to stay. What that call returns and leaves behind is what failover does. If there is none, the
last error is returned, and there are sockets to the first address again. -/
theorem withFailover_calls (hfirst : w.1.endpoint.active = 0)
    (hstays : ∀ u ∈ triesOf d w, Ends d u fun _ v => v.1.endpoint = u.1.endpoint)
    (hopens : ∀ u ∈ triesOf d w, Ends d u NextOpens) :
    Ends (withFailover d) w (Calls d w.1.endpoint.addresses (triesOf d w) w) := by
  have hcalls := tryAddresses_calls _ (Nat.le_add_left _ _) hstays hopens
  rw [hfirst, List.drop_zero] at hcalls
  exact ends_state_bind hcalls

section Mirrors

/-- The addresses of a server that answers at the second of them only. -/
def mirror (number : UInt8) : SocketAddress := .v4 ⟨⟨192, 0, 2, number⟩, gamePort⟩

def mirrorWorld : World where
  connect _ _ _ := none
  react _ _ peer _ :=
    if peer = mirror 2 then .ok [.data [0xff, 0xff, 0xff, 0xff, 0x45, 0, 0]] else .ok []
  resolve _ := none
  sessionId _ := 0

def mirrorStart : GameServer × Network :=
  ({ connection := ⟨⟨"game.test", [mirror 1, mirror 2, mirror 3], 0, by decide⟩,
      .goldSrc { query := some (.fresh (mirror 1) .goldSrc) }⟩ }, { world := mirrorWorld })

instance (r : Except ClientError α) (v : GameServer × Network) : Decidable (NextOpens r v) :=
  match r with
  | .ok _ => inferInstanceAs (Decidable True)
  | .error _ => inferInstanceAs (Decidable (_ → _))

attribute [local irreducible] Dialog.Ends

theorem withFailover_calls_mirrors :
    mirrorStart.1.endpoint.active = 0 ∧
      (∀ u ∈ triesOf rules mirrorStart, Ends rules u fun _ v => v.1.endpoint = u.1.endpoint) ∧
      (∀ u ∈ triesOf rules mirrorStart, Ends rules u NextOpens) ∧
      (triesOf rules mirrorStart).map (fun u => u.1.address) = [mirror 1, mirror 2] ∧
      Ends (withFailover rules) mirrorStart fun r v => r.isOk = true ∧
        Calls rules [mirror 1, mirror 2, mirror 3] (triesOf rules mirrorStart) mirrorStart r v := by
  have hstays : ∀ u ∈ triesOf rules mirrorStart,
      Ends rules u fun _ v => v.1.endpoint = u.1.endpoint := fun u _ => keepsEndpoint_rules u
  have hopens : ∀ u ∈ triesOf rules mirrorStart, Ends rules u NextOpens := by decide +kernel
  refine ⟨rfl, hstays, hopens, by decide +kernel, ?_⟩
  have hanswer : Ends (withFailover rules) mirrorStart fun r _ => r.isOk = true := by decide +kernel
  exact hanswer.and (withFailover_calls rfl hstays hopens)

end Mirrors

end GameServer

end GameQuery
