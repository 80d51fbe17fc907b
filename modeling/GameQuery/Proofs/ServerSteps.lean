import GameQuery.Proofs.BoundSessions
import GameQuery.Proofs.ServerMoves

namespace GameQuery

/-!
# Steps of a client

What can come of a step of a client of a game server: of making sure that there are sockets, of a
request whose reply is kept, and of a request whose reply is measured. As long as sockets can be
opened, each sends one request and waits for its reply.
-/

open Dialog

/-- A request and its reply go over the same channel. -/
theorem EngineSession.converse_eq (r : Request) : converse r = on queryPart (do
    QueryChannel.send r
    QueryChannel.reply none) :=
  (on_bind (fun e _ c _ => queryPart_get?_put c e) (fun e _ c c' _ => queryPart_put_put c c' e)
    (QueryChannel.send r) fun _ => QueryChannel.reply none).symm

namespace GameServer

/-! ## What a request comes to -/

/-- The sockets of a client go to the active address of an endpoint, and there are some if they are
needed. -/
structure IsAttached (needed : Prop) (endpoint : Endpoint) (framing : Framing) (own : Option Nat)
    (s : GameServer) : Prop where
  engine : s.engine.IsAttached needed framing endpoint.address own
  endpoint : s.endpoint = endpoint

variable {needed : Prop} {endpoint : Endpoint} {framing : Framing} {own : Option Nat}
  {s : GameServer} {n : Network} {α : Type}

theorem IsAttached.address (h : s.IsAttached needed endpoint framing own) :
    s.address = endpoint.address := congrArg Endpoint.address h.endpoint

theorem IsAttached.imp {needed' : Prop} (h : s.IsAttached needed endpoint framing own)
    (hneeded : needed' → needed) : s.IsAttached needed' endpoint framing own :=
  ⟨⟨h.engine.bound, h.engine.isOpen ∘ hneeded⟩, h.endpoint⟩

/-- What has happened when a client has made sure that there are sockets. -/
def opening (peer : SocketAddress) (wasOpen : Bool) : List Event :=
  if wasOpen then [] else [.connected .udp peer none]

/-- Sockets are opened if there are none, and that is tried once. -/
theorem ensureOpen_ends (h : s.IsAttached needed endpoint framing own) (n : Network) :
    Ends ensureOpen (s, n) fun r v => v.1.cache = s.cache ∧ v.2.world = n.world ∧
      if s.engine.isOpen = true then r = .ok () ∧ v = (s, n)
      else v.1.IsAttached needed endpoint framing own ∧ ∃ failure,
        failure = n.world.connect n.history .udp endpoint.address ∧
        v.2.history = .connected .udp endpoint.address failure :: n.history ∧
        r = Failure.outcome failure ∧ EngineSession.queryPart.get? v.1.engine =
          if failure.isNone then
            some ((QueryChannel.fresh endpoint.address framing).setTimeout own) else none := by
  refine ends_state_bind ?_
  cases hopen : s.engine.isOpen with
  | true => exact ends_pure ⟨rfl, rfl, rfl, rfl⟩
  | false =>
    have hopens := EngineSession.openSockets_opens s.address s.engine n
    rw [h.engine.bound.framing_eq, h.engine.bound.timeout_eq, h.address] at hopens
    simp only [Bool.false_eq_true, if_false]
    refine Ends.on (p := connectionPart) rfl (ends_state_bind (Ends.on rfl ?_))
    have haddress : s.connection.endpoint.address = endpoint.address := h.address
    rw [haddress]
    refine hopens.imp ?_
    rintro r v ⟨hbound, hworld, failure, ⟨closed, -, hclosed, hfailure, hhistory⟩, hr, hquery⟩
    cases hclosed (h.engine.bound.holdsSocket_eq.trans hopen)
    refine ⟨rfl, hworld, ⟨⟨hbound, fun hneeded => ?_⟩, h.endpoint⟩, failure, hfailure, hhistory, hr,
      hquery⟩
    exact absurd (h.engine.isOpen hneeded) (Bool.eq_false_iff.1 hopen)

theorem ends_ensureOpen_bind {f : Unit → Dialog GameServer α}
    {R : Except ClientError α → GameServer × Network → Prop}
    (h : s.IsAttached needed endpoint framing own)
    (hok : ∀ v, v.1.IsAttached True endpoint framing own → v.1.cache = s.cache →
      v.2.history = opening endpoint.address s.engine.isOpen ++ n.history → Ends (f ()) v R)
    (herror : s.engine.isOpen = false → ∀ failure v, v.1.IsAttached needed endpoint framing own →
      v.1.cache = s.cache →
      v.2.history = .connected .udp endpoint.address (some failure) :: n.history →
      R (.error (.ofFailure failure)) v) : Ends (ensureOpen >>= f) (s, n) R := by
  refine (ensureOpen_ends h n).bind ?_ ?_
  · rintro _ v ⟨hcache, -, hv⟩
    split at hv
    · next hopen =>
      obtain ⟨-, rfl⟩ := hv
      refine hok (s, n) ⟨⟨h.engine.bound, fun _ => hopen⟩, h.endpoint⟩ rfl ?_
      rw [hopen]
      rfl
    · next hopen =>
      obtain ⟨hattached, failure, -, hhistory, hr, hquery⟩ := hv
      cases failure with
      | some f => cases hr
      | none =>
        refine hok v ⟨⟨hattached.engine.bound, fun _ => ?_⟩, hattached.endpoint⟩ hcache ?_
        · rw [EngineSession.isOpen, hquery]
          rfl
        · rw [hhistory, opening, if_neg hopen]
          rfl
  · rintro e v ⟨hcache, -, hv⟩
    split at hv
    · exact nomatch hv.1
    · next hopen =>
      obtain ⟨hattached, failure, -, hhistory, hr, -⟩ := hv
      cases failure with
      | none => cases hr
      | some f =>
        cases hr
        exact herror (Bool.eq_false_iff.2 hopen) f v hattached hcache hhistory

/-- Over open sockets a request goes out, and its reply is waited for. -/
theorem converse_ends {r : Request} (hr : ∀ line, r ≠ .console line)
    (h : s.IsAttached True endpoint framing own) (n : Network) :
    Ends (on enginePart (EngineSession.converse r)) (s, n) fun o v =>
      v.1.IsAttached True endpoint framing own ∧ v.1.cache = s.cache ∧ ∃ datagrams,
        QueryChannel.Waited framing endpoint.address
          (.sent .udp endpoint.address r.bytes :: n.history) datagrams o v.2.history := by
  obtain ⟨c, hc⟩ := Option.isSome_iff_exists.1 (h.engine.isOpen trivial)
  rw [EngineSession.converse_eq]
  refine Ends.on (p := enginePart) rfl (Ends.on hc ?_)
  refine (QueryChannel.converse_ends hr (h.engine.bound.query hc) n).imp ?_
  rintro o v ⟨hv, hwaited⟩
  refine ⟨⟨⟨h.engine.bound.withQuery hc hv, fun _ => ?_⟩, h.endpoint⟩, rfl, hwaited⟩
  exact Option.isSome_iff_exists.2 ⟨v.1, EngineSession.queryPart_get?_put v.1 s.engine⟩

/-- What comes of a request: there are no sockets to send it with, or its reply is waited for. -/
inductive Asked (framing : Framing) (peer : SocketAddress) (r : Request) (wasOpen : Bool)
    (old : List Event) : Except ClientError Reply → List Event → Prop
  | unopened (hwas : wasOpen = false) (f : Failure) : Asked framing peer r wasOpen old
      (.error (.ofFailure f)) (.connected .udp peer (some f) :: old)
  | waited {outcome : Except ClientError Reply} {history : List Event}
    (datagrams : List (List UInt8))
    (h : QueryChannel.Waited framing peer (.sent .udp peer r.bytes :: (opening peer wasOpen ++ old))
      datagrams outcome history) : Asked framing peer r wasOpen old outcome history

/-- A request goes out over sockets that have just been made sure of. -/
theorem converse_asked {r : Request} {u : GameServer × Network} (hr : ∀ line, r ≠ .console line)
    (hu : u.1.IsAttached True endpoint framing own) (hcache : u.1.cache = s.cache)
    (hhistory : u.2.history = opening endpoint.address s.engine.isOpen ++ n.history) :
    Ends (on enginePart (EngineSession.converse r)) u fun o v =>
      v.1.IsAttached True endpoint framing own ∧ v.1.cache = s.cache ∧
        Asked framing endpoint.address r s.engine.isOpen n.history o v.2.history := by
  refine (converse_ends hr hu u.2).imp ?_
  rintro o v ⟨hv, hsame, datagrams, hwaited⟩
  rw [hhistory] at hwaited
  exact ⟨hv, hsame.trans hcache, .waited datagrams hwaited⟩

theorem asked_of_unopened {r : Request} {v : GameServer × Network} {f : Failure}
    (hwas : s.engine.isOpen = false)
    (hhistory : v.2.history = .connected .udp endpoint.address (some f) :: n.history) :
    Asked framing endpoint.address r s.engine.isOpen n.history (.error (.ofFailure f))
      v.2.history := by
  rw [hhistory]
  exact .unopened hwas f

theorem requestFor_ne_console (category : Category) (challenge : Int32)
    (infoChallenge : Option Int32) (line : ConsoleLine) :
    requestFor category challenge infoChallenge ≠ .console line := by
  cases category <;> nofun

/-- A reply is kept in its category, and without a reply the cache is as it was. -/
theorem exchange_ends (category : Category) (infoChallenge : Option Int32)
    (h : s.IsAttached needed endpoint framing own) (n : Network) :
    Ends (exchange category infoChallenge) (s, n) fun r v =>
      v.1.IsAttached needed endpoint framing own ∧ ∃ o,
        Asked framing endpoint.address
          (requestFor category (s.cache.challenge.getD noChallenge) infoChallenge) s.engine.isOpen
          n.history o v.2.history ∧
        match o with
        | .ok reply => r = .ok (Category.ofReply reply) ∧ v.1.cache = s.cache.store reply ∧
            v.1.engine.isOpen = true
        | .error e => r = .error e ∧ v.1.cache = s.cache := by
  refine ends_state_bind (ends_ensureOpen_bind h ?_ ?_)
  · intro u hu hcache hhistory
    have hne := requestFor_ne_console category (s.cache.challenge.getD noChallenge) infoChallenge
    rw [converse_bind]
    refine (converse_asked hne hu hcache hhistory).bind ?_ ?_
    · rintro reply v ⟨hv, hsame, hasked⟩
      have hneeded : v.1.IsAttached needed endpoint framing own := hv.imp fun _ => trivial
      refine ends_modifyState_bind (ends_pure ⟨⟨hneeded.engine, hneeded.endpoint⟩, .ok reply,
        hasked, rfl, ?_, hv.engine.isOpen trivial⟩)
      rw [store, hsame]
    · rintro e v ⟨hv, hsame, hasked⟩
      exact ⟨hv.imp fun _ => trivial, .error e, hasked, rfl, hsame⟩
  · intro hwas f v hv hcache hhistory
    exact ⟨hv, .error (.ofFailure f), asked_of_unopened hwas hhistory, rfl, hcache⟩

/-- A reply is kept in its category, with the time that it has taken. -/
theorem updatePing_ends (h : s.IsAttached needed endpoint framing own) (n : Network) :
    Ends updatePing (s, n) fun r v =>
      v.1.IsAttached needed endpoint framing own ∧ ∃ o,
        Asked framing endpoint.address (.info {}) s.engine.isOpen n.history o v.2.history ∧
        match o with
        | .ok reply => ∃ ping, r = .ok ping ∧
            v.1.cache = { s.cache.store reply with ping := some ping } ∧ v.1.engine.isOpen = true
        | .error e => r = .error e ∧ v.1.cache = s.cache := by
  refine ends_ensureOpen_bind h ?_ ?_
  · intro u hu hcache hhistory
    have hne := requestFor_ne_console .ping noChallenge none
    refine ends_network_bind ?_
    rw [converse_bind]
    refine (converse_asked hne hu hcache hhistory).bind ?_ ?_
    · rintro reply v ⟨hv, hsame, hasked⟩
      have hneeded : v.1.IsAttached needed endpoint framing own := hv.imp fun _ => trivial
      refine ends_network_bind (ends_modifyState_bind (ends_pure ⟨⟨hneeded.engine,
        hneeded.endpoint⟩, .ok reply, hasked, _, rfl, ?_, hv.engine.isOpen trivial⟩))
      rw [hsame]
    · rintro e v ⟨hv, hsame, hasked⟩
      exact ⟨hv.imp fun _ => trivial, .error e, hasked, rfl, hsame⟩
  · intro hwas f v hv hcache hhistory
    exact ⟨hv, .error (.ofFailure f), asked_of_unopened hwas hhistory, rfl, hcache⟩

end GameServer

end GameQuery
