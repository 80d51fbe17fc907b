import GameQuery.Proofs.ServerSteps

namespace GameQuery

/-!
# Clients that stay with the active address

Whatever becomes of what a client of a game server does, all its sockets go to the active address of
its endpoint and wait as the client was told last. A rotation makes the next address active and
tries to open sockets to it once. What asks a server without sockets first tries to open new ones.
-/

open Dialog

namespace GameServer

variable {α β : Type} {needed : Prop} {endpoint : Endpoint} {framing : Framing} {own : Option Nat}

/-! ## What stays as it is -/

/-- The sockets stay with the active address, and nothing that has happened is forgotten. -/
def StaysAttached (needed : Prop) (endpoint : Endpoint) (framing : Framing) (own : Option Nat)
    (w v : GameServer × Network) : Prop :=
  w.1.IsAttached needed endpoint framing own →
    v.1.IsAttached needed endpoint framing own ∧ w.2.history <:+ v.2.history

instance : Std.Refl (StaysAttached needed endpoint framing own) :=
  ⟨fun _ h => ⟨h, List.suffix_refl _⟩⟩

instance : Trans (StaysAttached needed endpoint framing own)
    (StaysAttached needed endpoint framing own) (StaysAttached needed endpoint framing own) where
  trans h h' hw := by
    obtain ⟨hv, hsuffix⟩ := h hw
    obtain ⟨hu, hsuffix'⟩ := h' hv
    exact ⟨hu, hsuffix.trans hsuffix'⟩

theorem staysAttached_of_ends {d : Dialog GameServer α}
    (h : ∀ w, w.1.IsAttached needed endpoint framing own → Ends d w fun _ v =>
      v.1.IsAttached needed endpoint framing own ∧ w.2.history <:+ v.2.history) :
    Moves (StaysAttached needed endpoint framing own) d := by
  intro w
  by_cases hw : w.1.IsAttached needed endpoint framing own
  · exact (h w hw).imp fun _ _ hv _ => hv
  · exact ends_of_forall fun _ _ hw' => absurd hw' hw

theorem staysAttached_onEngine {d : Dialog EngineSession α}
    (hd : Moves (Steady (EngineSession.IsAttached needed framing endpoint.address own)) d) :
    Moves (StaysAttached needed endpoint framing own) (on enginePart d) := by
  refine Moves.on hd fun s n e v hs hv hw => ?_
  cases hs
  obtain ⟨hengine, new, hnew, -⟩ := hv hw.engine
  exact ⟨⟨hengine, hw.endpoint⟩, new, hnew.symm⟩

theorem staysAttached_ensureOpen :
    Moves (StaysAttached needed endpoint framing own) ensureOpen := by
  refine staysAttached_of_ends fun w hw => (ensureOpen_ends hw w.2).imp ?_
  rintro r v ⟨-, -, hv⟩
  split at hv
  · obtain ⟨-, rfl⟩ := hv
    exact ⟨hw, List.suffix_refl _⟩
  · obtain ⟨hattached, failure, -, hhistory, -⟩ := hv
    rw [hhistory]
    exact ⟨hattached, List.suffix_cons _ _⟩

theorem suffix_of_abandoned {peer : SocketAddress} {datagrams : List (List UInt8)}
    {old history : List Event} (h : QueryChannel.Abandoned peer datagrams old history) :
    old <:+ history := by
  obtain ⟨new, rfl, -⟩ := h.exists_new
  exact List.suffix_append _ _

theorem suffix_of_waited {peer : SocketAddress} {datagrams : List (List UInt8)}
    {old history : List Event} {o : Except ClientError Reply}
    (h : QueryChannel.Waited framing peer old datagrams o history) : old <:+ history := by
  cases o with
  | ok reply =>
    rw [h.2]
    exact List.suffix_append _ _
  | error e => exact suffix_of_abandoned h.2.2

theorem Asked.suffix {peer : SocketAddress} {r : Request} {wasOpen : Bool}
    {old history : List Event} {o : Except ClientError Reply}
    (h : Asked framing peer r wasOpen old o history) :
    old <:+ history := by
  cases h with
  | unopened _ f => exact List.suffix_cons _ _
  | waited datagrams h =>
    refine List.IsSuffix.trans ?_ (suffix_of_waited h)
    exact (List.suffix_append _ old).trans (List.suffix_cons _ _)

theorem staysAttached_converse {r : Request} (hr : ∀ line, r ≠ .console line) :
    Moves (StaysAttached True endpoint framing own) (on enginePart (EngineSession.converse r)) := by
  refine staysAttached_of_ends fun w hw => (converse_ends hr hw w.2).imp ?_
  rintro o v ⟨hv, -, datagrams, hwaited⟩
  exact ⟨hv, (List.suffix_cons _ _).trans (suffix_of_waited hwaited)⟩

theorem staysAttached_exchange (category : Category) (infoChallenge : Option Int32) :
    Moves (StaysAttached needed endpoint framing own) (exchange category infoChallenge) := by
  refine staysAttached_of_ends fun w hw => (exchange_ends category infoChallenge hw w.2).imp ?_
  rintro r v ⟨hv, o, hasked, -⟩
  exact ⟨hv, hasked.suffix⟩

theorem staysAttached_modifyState {f : GameServer → GameServer}
    (hengine : ∀ s, (f s).engine = s.engine) (hendpoint : ∀ s, (f s).endpoint = s.endpoint) :
    Moves (StaysAttached needed endpoint framing own) (modifyState f) := by
  refine moves_modifyState fun s n hs => ⟨⟨?_, (hendpoint s).trans hs.endpoint⟩, List.suffix_refl _⟩
  rw [hengine]
  exact hs.engine

theorem staysAttached_mergeStatus (output : String) :
    Moves (StaysAttached needed endpoint framing own) (mergeStatus output) := by
  intro w
  obtain h | ⟨rows, log, -, h⟩ := mergeStatus_cases output w
  · exact ends_of_error h (Std.Refl.refl w)
  · refine ends_of_ok h fun hw => ⟨?_, List.suffix_refl _⟩
    exact ⟨hw.engine, hw.endpoint⟩

theorem staysAttached_execute (command : String) :
    Moves (StaysAttached needed endpoint framing own) (execute command) :=
  staysAttached_onEngine (EngineSession.learns_execute command).steady

theorem carries_staysAttached : Carries (StaysAttached needed endpoint framing own) where
  quiet s n m _ hhistory hs := ⟨hs, hhistory ▸ List.suffix_refl _⟩
  asks category := staysAttached_exchange category none
  asksAgain category := moves_state.bind fun s => staysAttached_exchange category _
  measures := by
    refine staysAttached_of_ends fun w hw => (updatePing_ends hw w.2).imp ?_
    rintro r v ⟨hv, o, hasked, -⟩
    exact ⟨hv, hasked.suffix⟩
  logsIn password := staysAttached_ensureOpen.bind fun _ =>
    staysAttached_onEngine (EngineSession.steady_authenticate password)
  commands := staysAttached_execute
  asksStatus := (staysAttached_execute "status").bind staysAttached_mergeStatus

/-! ## Operations that change the endpoint or the sockets -/

theorem IsAttached.setTimeout {s : GameServer} (h : s.IsAttached False endpoint framing own)
    (timeout : Option Nat) : (s.setTimeout timeout).IsAttached False endpoint framing timeout :=
  ⟨⟨h.engine.bound.setTimeout timeout, False.elim⟩, h.endpoint⟩

/-- A rotation makes the next address active and tries once to open sockets to it. -/
theorem rotate_opens (w : GameServer × Network) :
    Ends rotate w fun r v => v.1.endpoint = w.1.endpoint.next ∧ v.1.cache = {} ∧
      v.1.engine.IsBoundTo w.1.engine.framing w.1.endpoint.next.address w.1.engine.timeout ∧
      ∃ failure, OpensOnce w.2.world w.1.endpoint.next.address w.1.engine.holdsSocket w.2.history
          failure v.2.history ∧ v.1.engine.isOpen = failure.isNone ∧
        r = (Failure.outcome failure).map fun _ => w.1.endpoint.next.atFirst := by
  obtain ⟨⟨⟨e, owner⟩, cache⟩, n⟩ := w
  refine ends_modifyState_bind (Ends.on (p := connectionPart) rfl ?_)
  refine ends_state_bind (ends_modifyState_bind (ends_bind_of_ok rfl ?_))
  have hopen : ∀ r v failure, r = Failure.outcome failure →
      EngineSession.queryPart.get? v = (if failure.isNone then some
        ((QueryChannel.fresh e.next.address owner.framing).setTimeout owner.timeout) else none) →
      EngineSession.isOpen v = failure.isNone := by
    rintro r v (_ | f) - hquery
    · rw [EngineSession.isOpen, hquery]
      rfl
    · rw [EngineSession.isOpen, hquery]
      rfl
  refine Ends.bind (Q := fun r v => v.1.endpoint = e.next ∧
      v.1.owner.IsBoundTo owner.framing e.next.address owner.timeout ∧ ∃ failure,
        OpensOnce n.world e.next.address owner.holdsSocket n.history failure v.2.history ∧
        v.1.owner.isOpen = failure.isNone ∧ r = Failure.outcome failure) ?_ ?_ ?_
  · refine ends_state_bind (Ends.on (p := Connection.ownerPart) rfl ?_)
    refine (EngineSession.openSockets_opens e.next.address owner _).imp ?_
    rintro r v ⟨hbound, -, failure, hopens, hr, hquery⟩
    exact ⟨rfl, hbound, failure, hopens, hopen r v.1 failure hr hquery, hr⟩
  · rintro _ v ⟨hendpoint, hbound, _ | f, hopens, hisOpen, hr⟩
    · exact ends_pure ⟨hendpoint, rfl, hbound, none, hopens, hisOpen, rfl⟩
    · cases hr
  · rintro error v ⟨hendpoint, hbound, _ | f, hopens, hisOpen, hr⟩
    · cases hr
    · cases hr
      exact ⟨hendpoint, rfl, hbound, some f, hopens, hisOpen, rfl⟩

theorem disconnect_ends (w : GameServer × Network)
    (h : w.1.IsAttached False endpoint framing own) :
    Ends disconnect w fun _ v => v.1.IsAttached False endpoint framing own ∧
      v.1.engine.isOpen = false ∧ v.1.cache = w.1.cache ∧ ∃ closed,
        (∀ e ∈ closed, e = Event.closed endpoint.address) ∧
          v.2.history = closed ++ w.2.history := by
  obtain ⟨e, closed, hbound, hopen, hclosed, hdisconnect⟩ :=
    EngineSession.disconnect_closes h.engine.bound w.2
  refine Ends.on (p := enginePart) rfl (ends_of_ok hdisconnect ?_)
  exact ⟨⟨⟨hbound, False.elim⟩, h.endpoint⟩, hopen, rfl, closed, hclosed, rfl⟩

/-! ## Runs -/

/-- How long the sockets are to wait once some operations have been carried out. -/
def lastTimeout (own : Option Nat) : List Operation → Option Nat
  | [] => own
  | .setTimeout timeout :: ops => lastTimeout timeout ops
  | _ :: ops => lastTimeout own ops

theorem attached_after (op : Operation) {w : GameServer × Network}
    (h : w.1.IsAttached False endpoint framing own) :
    ∃ next, next.addresses = endpoint.addresses ∧
      (op.after w).1.IsAttached False next framing (lastTimeout own [op]) := by
  by_cases hop : op.Manages
  · cases op with
    | setTimeout timeout => exact ⟨endpoint, rfl, h.setTimeout timeout⟩
    | clearCache => exact ⟨endpoint, rfl, h.engine, h.endpoint⟩
    | disconnect =>
      have hends : Ends (Operation.perform .disconnect) w fun _ v =>
          v.1.IsAttached False endpoint framing own :=
        (disconnect_ends w h).imp fun _ _ hv => hv.1
      exact ⟨endpoint, rfl, Operation.after_of_ends hends⟩
    | rotate =>
      have hends : Ends (Operation.perform .rotate) w fun _ v =>
          v.1.IsAttached False endpoint.next framing own := by
        refine Ends.discard ((rotate_opens w).imp ?_)
        rintro r v ⟨hendpoint, -, hbound, -⟩
        rw [h.engine.bound.framing_eq, h.engine.bound.timeout_eq, h.endpoint] at hbound
        exact ⟨⟨hbound, False.elim⟩, hendpoint.trans (congrArg Endpoint.next h.endpoint)⟩
      exact ⟨endpoint.next, rfl, Operation.after_of_ends hends⟩
    | _ => exact hop.elim
  · have hown : lastTimeout own [op] = own := by
      cases op with
      | setTimeout timeout => exact absurd trivial hop
      | _ => rfl
    rw [hown]
    have hends : Ends op.perform w fun _ v => v.1.IsAttached False endpoint framing own :=
      (carries_staysAttached.moves_perform hop w).imp fun _ _ hv => (hv h).1
    exact ⟨endpoint, rfl, Operation.after_of_ends hends⟩

theorem lastTimeout_cons (own : Option Nat) (op : Operation) (ops : List Operation) :
    lastTimeout own (op :: ops) = lastTimeout (lastTimeout own [op]) ops := by
  cases op <;> rfl

theorem attached_run (ops : List Operation) {w : GameServer × Network}
    (h : w.1.IsAttached False endpoint framing own) :
    ∃ last, last.addresses = endpoint.addresses ∧
      (run ops w).1.IsAttached False last framing (lastTimeout own ops) := by
  induction ops generalizing endpoint own w with
  | nil => exact ⟨endpoint, rfl, h⟩
  | cons op ops ih =>
    obtain ⟨next, hnext, hop⟩ := attached_after op h
    obtain ⟨last, hlast, hrun⟩ := ih hop
    rw [lastTimeout_cons]
    exact ⟨last, hlast.trans hnext, hrun⟩

theorem attached_of_connect {σ : Type} {engine : EngineSession} {w v : σ × Network}
    {server : GameServer} (h : connect endpoint engine w = .ok server v) :
    server.IsAttached False endpoint engine.framing engine.timeout ∧ server.cache = {} := by
  obtain ⟨c, u, hbuild, h⟩ := bind_eq_ok h
  cases h
  obtain ⟨hreconnect, -⟩ := build_eq_ok hbuild
  have hends : Ends Connection.reconnect ((⟨endpoint, engine⟩ : Connection EngineSession), w.2)
      fun _ v => v.1.endpoint = endpoint ∧
        v.1.owner.IsBoundTo engine.framing endpoint.address engine.timeout := by
    refine ends_state_bind (Ends.on (p := Connection.ownerPart) rfl ?_)
    exact (EngineSession.openSockets_opens _ engine w.2).imp fun _ _ hv => ⟨rfl, hv.1⟩
  obtain ⟨hendpoint, hbound⟩ := hends.of_eq_ok hreconnect
  exact ⟨⟨⟨hbound, False.elim⟩, hendpoint⟩, rfl⟩

/-! ## Sockets that are opened again -/

/-- An operation that has something to ask a server. -/
def Operation.Asks (cache : ServerCache) : Operation → Prop
  | .updatePing | .update _ | .updatePlayers _ | .updateBasics | .authenticate _ => True
  | .ping => cache.contains .ping = false
  | .info => cache.contains .info = false
  | .rules => cache.contains .rules = false
  | .players => cache.contains .players = false
  | _ => False

/-- New sockets to the active address are tried first. Without them it goes no further. -/
def Reopens (endpoint : Endpoint) (framing : Framing) (own : Option Nat)
    (w : GameServer × Network) (r : Except ClientError α) (v : GameServer × Network) : Prop :=
  ∃ new failure, failure = w.2.world.connect w.2.history .udp endpoint.address ∧
    v.2.history = new ++ .connected .udp endpoint.address failure :: w.2.history ∧
    match failure with
    | none => v.1.IsAttached True endpoint framing own
    | some f => new = [] ∧ r = .error (.ofFailure f) ∧ v.1.engine.isOpen = false

section Reopens

variable {w : GameServer × Network} (h : w.1.IsAttached False endpoint framing own)
  (hclosed : w.1.engine.isOpen = false)

theorem Reopens.bind {d : Dialog GameServer α} {f : α → Dialog GameServer β}
    (hd : Ends d w (Reopens endpoint framing own w))
    (hf : ∀ a, Moves (StaysAttached True endpoint framing own) (f a)) :
    Ends (d >>= f) w (Reopens endpoint framing own w) := by
  refine Ends.bind hd ?_ ?_
  · rintro a v ⟨new, _ | failure, hfailure, hhistory, hv⟩
    · refine (hf a v).imp fun r u hu => ?_
      obtain ⟨hattached, later, hlater⟩ := hu hv
      refine ⟨later ++ new, none, hfailure, ?_, hattached⟩
      rw [← hlater, hhistory, List.append_assoc]
    · exact nomatch hv.2.1
  · rintro e v ⟨new, failure, hfailure, hhistory, hv⟩
    refine ⟨new, failure, hfailure, hhistory, ?_⟩
    cases failure with
    | none => exact hv
    | some f =>
      obtain ⟨hnew, hr, hopen⟩ := hv
      cases hr
      exact ⟨hnew, rfl, hopen⟩

theorem Reopens.discard {d : Dialog GameServer α} (hd : Ends d w (Reopens endpoint framing own w)) :
    Ends (discard d) w (Reopens endpoint framing own w) := by
  refine Ends.discard (hd.imp ?_)
  rintro r v ⟨new, failure, hfailure, hhistory, hv⟩
  refine ⟨new, failure, hfailure, hhistory, ?_⟩
  cases failure with
  | none => exact hv
  | some f => exact ⟨hv.1, congrArg (Except.map _) hv.2.1, hv.2.2⟩

include h hclosed

theorem reopens_ensureOpen : Ends ensureOpen w (Reopens endpoint framing own w) := by
  refine (ensureOpen_ends h w.2).imp ?_
  rintro r v ⟨-, -, hv⟩
  rw [if_neg (Bool.eq_false_iff.1 hclosed)] at hv
  obtain ⟨hattached, failure, hfailure, hhistory, hr, hquery⟩ := hv
  refine ⟨[], failure, hfailure, hhistory, ?_⟩
  cases failure with
  | none =>
    refine ⟨⟨hattached.engine.bound, fun _ => ?_⟩, hattached.endpoint⟩
    rw [EngineSession.isOpen, hquery]
    rfl
  | some f =>
    refine ⟨rfl, hr, ?_⟩
    rw [EngineSession.isOpen, hquery]
    rfl

theorem reopens_exchange (category : Category) (infoChallenge : Option Int32) :
    Ends (exchange category infoChallenge) w (Reopens endpoint framing own w) := by
  refine ends_state_bind (Reopens.bind (reopens_ensureOpen h hclosed) fun _ => ?_)
  rw [converse_bind]
  refine (staysAttached_converse (requestFor_ne_console category _ _)).bind fun reply => ?_
  refine Moves.bind (staysAttached_modifyState ?_ ?_) fun _ => moves_pure _
  · exact fun _ => rfl
  · exact fun _ => rfl

theorem reopens_updatePing : Ends updatePing w (Reopens endpoint framing own w) := by
  refine Reopens.bind (reopens_ensureOpen h hclosed) fun _ => moves_network.bind fun start => ?_
  rw [converse_bind]
  have hne := requestFor_ne_console .ping noChallenge none
  refine (staysAttached_converse hne).bind fun reply => ?_
  refine moves_network.bind fun now => ?_
  refine Moves.bind (staysAttached_modifyState ?_ ?_) fun _ => moves_pure _
  · exact fun _ => rfl
  · exact fun _ => rfl

theorem reopens_update (category : Category) :
    Ends (update category) w (Reopens endpoint framing own w) :=
  Reopens.bind (reopens_exchange h hclosed category none) fun r =>
    carries_staysAttached.moves_again category r

theorem reopens_updatePlayers (password : Option String) :
    Ends (updatePlayers password) w (Reopens endpoint framing own w) :=
  Reopens.bind (reopens_update h hclosed .players) fun _ =>
    carries_staysAttached.moves_askStatus password

omit h hclosed in
theorem reopens_fetch {d : Dialog GameServer Unit} {category : Category}
    (hd : Ends d w (Reopens endpoint framing own w)) (hnot : w.1.cache.contains category = false)
    (get : ServerCache → Option α) : Ends (do
      let s ← state
      unless s.cache.contains category do d
      kept get) w (Reopens endpoint framing own w) := by
  refine ends_state_bind ?_
  rw [hnot]
  exact Reopens.bind hd fun _ => moves_kept get

theorem reopens_perform {op : Operation} (hop : op.Asks w.1.cache) :
    Ends op.perform w (Reopens endpoint framing own w) := by
  cases op with
  | updatePing => exact Reopens.discard (reopens_updatePing h hclosed)
  | update category => exact reopens_update h hclosed category
  | updatePlayers password => exact reopens_updatePlayers h hclosed password
  | updateBasics =>
    refine Reopens.bind (reopens_updatePing h hclosed) fun _ => ?_
    exact (carries_staysAttached.moves_update .info).bind fun _ =>
      carries_staysAttached.moves_update .challenge
  | ping =>
    refine Reopens.discard (ends_state_bind ?_)
    have hnone : w.1.cache.ping = none := Option.isNone_iff_eq_none.1 (by
      rw [← Option.not_isSome, show w.1.cache.ping.isSome = false from hop]
      rfl)
    rw [hnone]
    exact reopens_updatePing h hclosed
  | info => exact Reopens.discard (reopens_fetch (reopens_update h hclosed .info) hop _)
  | rules => exact Reopens.discard (reopens_fetch (reopens_update h hclosed .rules) hop _)
  | players => exact Reopens.discard (reopens_fetch (reopens_updatePlayers h hclosed none) hop _)
  | authenticate password =>
    refine Reopens.discard (Reopens.bind (reopens_ensureOpen h hclosed) fun _ => ?_)
    exact staysAttached_onEngine (EngineSession.steady_authenticate password)
  | setTimeout | configure | execute | rotate | disconnect | clearCache => exact hop.elim

end Reopens

end GameServer

end GameQuery
