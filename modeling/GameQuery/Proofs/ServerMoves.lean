import GameQuery.Proofs.ServerRun
import GameQuery.Proofs.SocketLaws

namespace GameQuery

/-!
# What the operations of a client do to its session

Operations reach the session in a few ways only: they open new sockets or give them up, send a
request and receive the reply, set the timeout, set a password or send commands. A relation that
all of these go along is kept by every operation, and by every run. `Carries` names the ways that
have nothing to do with the console.
-/

open Dialog

namespace EngineSession

/-- Sends a request and receives the reply. -/
def converse (r : Request) : Dialog EngineSession Reply := do
  .on queryPart (QueryChannel.send r)
  .on queryPart (QueryChannel.reply none)

/-- A relation between before and after that a session goes along as long as it neither sets a
password nor sends a command. -/
structure Carries (E : EngineSession × Network → EngineSession × Network → Prop) : Prop where
  quiet : ∀ s n m, m.world = n.world → m.history = n.history → E (s, n) (s, m)
  converse : ∀ r, (∀ line, r ≠ .console line) → Moves E (converse r)
  setTimeout : ∀ s n timeout, E (s, n) (s.setTimeout timeout, n)
  openSockets : ∀ peer, Moves E (SocketOwner.openSockets peer)

end EngineSession

/-- The session of something goes along a relation. -/
def OnEngine {σ : Type} (E : EngineSession × Network → EngineSession × Network → Prop)
    (engine : σ → EngineSession) (w v : σ × Network) : Prop :=
  E (engine w.1, w.2) (engine v.1, v.2)

section OnEngine

variable {σ τ α : Type} {E : EngineSession × Network → EngineSession × Network → Prop}
  {engine : σ → EngineSession}

instance [Std.Refl E] : Std.Refl (OnEngine E engine) := ⟨fun w => Std.Refl.refl (engine w.1, w.2)⟩

instance [Trans E E E] : Trans (OnEngine E engine) (OnEngine E engine) (OnEngine E engine) where
  trans h h' := Trans.trans (r := E) (s := E) h h'

theorem onEngine_on {d : Dialog σ α} {outer : τ → EngineSession} {p : Part τ σ}
    (hd : Moves (OnEngine E engine) d)
    (hget : ∀ t, ∃ s, p.get? t = some s ∧ engine s = outer t ∧
      ∀ s', outer (p.put s' t) = engine s') : Moves (OnEngine E outer) (on p d) := by
  rintro ⟨t, n⟩
  obtain ⟨s, hs, houter, hput⟩ := hget t
  refine Ends.on hs ((hd (s, n)).imp fun r v hv => ?_)
  rw [OnEngine, hput, ← houter]
  exact hv

theorem onEngine_modifyState [Std.Refl E] {f : σ → σ} (hf : ∀ s, engine (f s) = engine s) :
    Moves (OnEngine E engine) (modifyState f) := by
  refine moves_modifyState fun s n => ?_
  rw [OnEngine, hf]
  exact Std.Refl.refl _

theorem onEngine_modifyNetwork (hE : EngineSession.Carries E) {f : Network → Network}
    (hworld : ∀ n, (f n).world = n.world) (hhistory : ∀ n, (f n).history = n.history) :
    Moves (OnEngine E engine) (modifyNetwork f) :=
  moves_modifyNetwork fun s n => hE.quiet (engine s) n (f n) (hworld n) (hhistory n)

theorem onEngine_reconnect [Std.Refl E] [Trans E E E] (hE : EngineSession.Carries E) :
    Moves (OnEngine E Connection.owner) Connection.reconnect := by
  refine moves_state.bind fun c => ?_
  have hopen : Moves (OnEngine E id) (SocketOwner.openSockets c.endpoint.address) :=
    hE.openSockets _
  exact onEngine_on hopen fun t => ⟨t.owner, rfl, rfl, fun _ => rfl⟩

end OnEngine

namespace GameServer

variable {α β : Type} {E : EngineSession × Network → EngineSession × Network → Prop}

theorem onEngine_onEngine {d : Dialog EngineSession α} (hd : Moves E d) :
    Moves (OnEngine E engine) (on enginePart d) := by
  have hid : Moves (OnEngine E id) d := hd
  exact onEngine_on hid fun t => ⟨t.engine, rfl, rfl, fun _ => rfl⟩

theorem onEngine_onConnection {d : Dialog (Connection EngineSession) α}
    (hd : Moves (OnEngine E Connection.owner) d) :
    Moves (OnEngine E engine) (on connectionPart d) :=
  onEngine_on hd fun t => ⟨t.connection, rfl, rfl, fun _ => rfl⟩

/-- A request and its reply, whatever becomes of the reply. -/
theorem converse_bind (r : Request) (f : Reply → Dialog GameServer β) :
    (do
      on queryPart (QueryChannel.send r)
      let reply ← on queryPart (QueryChannel.reply none)
      f reply) = on enginePart (EngineSession.converse r) >>= f := by
  have hquery {γ : Type} (d : Dialog QueryChannel γ) :
      on queryPart d = on enginePart (on EngineSession.queryPart d) :=
    on_comp (fun _ _ h => by cases h; rfl) d
  have hconverse := on_bind (p := enginePart) (fun _ _ _ _ => rfl) (fun _ _ _ _ _ => rfl)
    (on EngineSession.queryPart (QueryChannel.send r)) fun _ =>
    on EngineSession.queryPart (QueryChannel.reply none)
  rw [EngineSession.converse, hconverse, bind_assoc, hquery, hquery]

theorem onEngine_setTimeout (hE : EngineSession.Carries E) (timeout : Option Nat) :
    Moves (OnEngine E engine) (modifyState (setTimeout timeout)) :=
  moves_modifyState fun s n => hE.setTimeout s.engine n timeout

section Operations

variable [Std.Refl E] [Trans E E E] (hE : EngineSession.Carries E)
include hE

omit [Std.Refl E] in
theorem onEngine_converse_bind (category : Category) (challenge : Int32)
    (infoChallenge : Option Int32) {f : Reply → Dialog GameServer α}
    (hf : ∀ reply, Moves (OnEngine E engine) (f reply)) :
    Moves (OnEngine E engine) (do
      on queryPart (QueryChannel.send (requestFor category challenge infoChallenge))
      let reply ← on queryPart (QueryChannel.reply none)
      f reply) := by
  rw [converse_bind]
  refine (onEngine_onEngine (hE.converse _ fun line => ?_)).bind hf
  cases category <;> nofun

theorem onEngine_rotate : Moves (OnEngine E engine) rotate := by
  refine Moves.bind (onEngine_modifyState fun _ => rfl) fun _ => onEngine_onConnection ?_
  refine moves_state.bind fun c => Moves.bind (onEngine_modifyState fun _ => rfl) fun _ => ?_
  refine Moves.bind (onEngine_modifyNetwork hE (fun _ => rfl) fun _ => rfl) fun _ => ?_
  exact (onEngine_reconnect hE).bind fun _ => moves_pure _

theorem onEngine_ensureOpen : Moves (OnEngine E engine) ensureOpen := by
  refine moves_state.bind fun s => ?_
  split
  · exact moves_pure _
  · exact onEngine_onConnection (onEngine_reconnect hE)

theorem onEngine_exchange (category : Category) (infoChallenge : Option Int32) :
    Moves (OnEngine E engine) (exchange category infoChallenge) := by
  refine moves_state.bind fun s => (onEngine_ensureOpen hE).bind fun _ => ?_
  refine onEngine_converse_bind hE _ _ _ fun reply => ?_
  refine Moves.bind (onEngine_modifyState ?_) fun _ => moves_pure _
  exact fun _ => rfl

theorem onEngine_updatePing : Moves (OnEngine E engine) updatePing := by
  refine (onEngine_ensureOpen hE).bind fun _ => moves_network.bind fun start => ?_
  refine onEngine_converse_bind hE .ping noChallenge none fun reply => ?_
  refine moves_network.bind fun now => ?_
  refine Moves.bind (onEngine_modifyState ?_) fun _ => moves_pure _
  exact fun _ => rfl

/-- Requests and their replies have nothing to do with the console. -/
theorem onEngine_carriesRequests : CarriesRequests (OnEngine E engine) where
  quiet s n m hworld hhistory := hE.quiet s.engine n m hworld hhistory
  asks category := onEngine_exchange hE category none
  asksAgain category := moves_state.bind fun s => onEngine_exchange hE category s.cache.challenge

theorem onEngine_update (category : Category) : Moves (OnEngine E engine) (update category) :=
  (onEngine_carriesRequests hE).moves_update category

/-- A relation holds from before to after every operation that leaves the console alone. -/
theorem onEngine_perform {op : Operation} (hop : ¬ op.TouchesConsole) :
    Moves (OnEngine E engine) op.perform := by
  by_cases hmanages : op.Manages
  · cases op with
    | setTimeout timeout => exact onEngine_setTimeout hE timeout
    | rotate => exact (onEngine_rotate hE).discard
    | clearCache => exact onEngine_modifyState fun _ => rfl
    | disconnect => exact absurd trivial hop
    | _ => exact hmanages.elim
  · exact (onEngine_carriesRequests hE).moves_perform (onEngine_updatePing hE) hmanages hop

omit [Trans E E E] in
theorem onEngine_mergeStatus (output : String) :
    Moves (OnEngine E engine) (mergeStatus output) := by
  intro w
  obtain h | ⟨rows, log, -, h⟩ := mergeStatus_cases output w
  · exact ends_of_error h (Std.Refl.refl w)
  · exact ends_of_ok h (hE.quiet _ _ _ rfl rfl)

end Operations

end GameServer

/-! ## Sessions with Source servers -/

/-- A relation between before and after that a session goes along as long as it sends no command. -/
structure SourceSession.Carries
    (R : SourceSession × Network → SourceSession × Network → Prop) : Prop where
  quiet : ∀ s n m, m.world = n.world → m.history = n.history → R (s, n) (s, m)
  query : ∀ s n m before query, s.query = some before →
    Socket.Later (before.socket, n) (query.socket, m) →
    R (s, n) ({ s with query := some query }, m)
  setTimeout : ∀ s n timeout, R (s, n) (s.setTimeout timeout, n)
  openSockets : ∀ peer, Moves R (SourceSession.openSockets peer)
  disconnect : Moves R SourceSession.disconnect
  authenticate : ∀ password, Moves R (SourceSession.authenticate password)

/-- Something with a session with a Source server still has one, which has gone along a relation. -/
def OnSource {σ : Type} (R : SourceSession × Network → SourceSession × Network → Prop)
    (engine : σ → EngineSession) (w v : σ × Network) : Prop :=
  ∀ s, engine w.1 = .source s → ∃ s', engine v.1 = .source s' ∧ R (s, w.2) (s', v.2)

section OnSource

variable {σ α : Type} {R : SourceSession × Network → SourceSession × Network → Prop}
  {engine : σ → EngineSession}

instance [Std.Refl R] : Std.Refl (OnSource R engine) := ⟨fun _ s hs => ⟨s, hs, Std.Refl.refl _⟩⟩

instance [Trans R R R] : Trans (OnSource R engine) (OnSource R engine) (OnSource R engine) where
  trans h h' s hs := by
    obtain ⟨t, ht, hst⟩ := h s hs
    obtain ⟨u, hu, htu⟩ := h' t ht
    exact ⟨u, hu, Trans.trans hst htu⟩

theorem onSource_byEngine {d : Dialog SourceSession α} (d' : Dialog GoldSrcSession α)
    (hd : Moves R d) : Moves (OnSource R id) (EngineSession.byEngine d d') := by
  rintro ⟨e, n⟩
  cases e with
  | source s =>
    refine ends_state_bind (Ends.on rfl ((hd (s, n)).imp fun r v hv => ?_))
    rintro s' ⟨⟩
    exact ⟨v.1, rfl, hv⟩
  | goldSrc s =>
    refine ends_of_forall fun r v => ?_
    rintro s' ⟨⟩

theorem onSource_onQuery [Std.Refl R] (hR : SourceSession.Carries R) {d : Dialog QueryChannel α}
    (hd : Moves (Socket.LaterOf QueryChannel.socket) d) :
    Moves (OnSource R id) (on EngineSession.queryPart d) := by
  rintro ⟨owner, n⟩
  cases owner with
  | goldSrc t =>
    refine ends_of_forall fun r v => ?_
    rintro s ⟨⟩
  | source s =>
    obtain ⟨query, console, id, authenticated, timeout⟩ := s
    cases query with
    | none => exact ends_on_none rfl (Std.Refl.refl _)
    | some query =>
      refine Ends.on rfl ((hd (query, n)).imp fun r v hv => ?_)
      rintro s' ⟨⟩
      exact ⟨_, rfl, hR.query _ n v.2 query v.1 rfl hv⟩

theorem SourceSession.Carries.onEngine [Std.Refl R] [Trans R R R] (hR : SourceSession.Carries R) :
    EngineSession.Carries (OnSource R id) where
  quiet e n m hworld hhistory s hs := ⟨s, hs, hR.quiet s n m hworld hhistory⟩
  converse r _ := (onSource_onQuery hR (QueryChannel.laterOf_send r)).bind fun _ =>
    onSource_onQuery hR (QueryChannel.laterOf_reply none)
  setTimeout e n timeout s hs := by
    cases hs
    exact ⟨_, rfl, hR.setTimeout s n timeout⟩
  openSockets peer := onSource_byEngine _ (hR.openSockets peer)

end OnSource

namespace GameServer

section OnSource

variable {R : SourceSession × Network → SourceSession × Network → Prop} [Std.Refl R] [Trans R R R]
  (hR : SourceSession.Carries R)
include hR

theorem onSource_update (category : Category) : Moves (OnSource R engine) (update category) :=
  onEngine_update hR.onEngine category

theorem onSource_authenticate (password : String) :
    Moves (OnSource R engine) (authenticate password) :=
  Moves.bind (onEngine_ensureOpen hR.onEngine : Moves (OnSource R engine) ensureOpen) fun _ =>
    onEngine_onEngine (onSource_byEngine _ (hR.authenticate password))

/-- A relation that holds from before to after every operation but a command. -/
theorem onSource_perform {op : Operation} (hexecute : ∀ command, op ≠ .execute command)
    (hplayers : ∀ password, op ≠ .updatePlayers (some password)) :
    Moves (OnSource R engine) op.perform := by
  by_cases hop : op.TouchesConsole
  · cases op with
    | authenticate password => exact (onSource_authenticate hR password).discard
    | execute command => exact absurd rfl (hexecute command)
    | disconnect => exact onEngine_onEngine (onSource_byEngine _ hR.disconnect)
    | updatePlayers password =>
      cases password with
      | none => exact hop.elim
      | some password => exact absurd rfl (hplayers password)
    | _ => exact hop.elim
  · exact onEngine_perform hR.onEngine hop

/-! ## Operations with a command -/

omit hR [Std.Refl R] [Trans R R R] in
theorem onSource_execute (hexecute : ∀ command, Moves R (SourceSession.execute command))
    (command : String) : Moves (OnSource R engine) (execute command) :=
  onEngine_onEngine (onSource_byEngine _ (hexecute command))

/-- A session that goes along commands too goes along whatever a client asks a server. -/
theorem onSource_carries (hexecute : ∀ command, Moves R (SourceSession.execute command)) :
    Carries (OnSource R engine) where
  toCarriesRequests := onEngine_carriesRequests hR.onEngine
  logsIn := onSource_authenticate hR
  commands := onSource_execute hexecute
  asksStatus := (onSource_execute hexecute "status").bind (onEngine_mergeStatus hR.onEngine)
  measures := onEngine_updatePing hR.onEngine

/-- A relation that holds from before to after every operation, commands included. -/
theorem onSource_perform_all (hexecute : ∀ command, Moves R (SourceSession.execute command))
    (op : Operation) : Moves (OnSource R engine) op.perform := by
  by_cases hmanages : op.Manages
  · cases op with
    | execute | updatePlayers => exact hmanages.elim
    | _ => exact onSource_perform hR nofun nofun
  · exact (onSource_carries hR hexecute).moves_perform hmanages

theorem onSource_run (hexecute : ∀ command, Moves R (SourceSession.execute command))
    (ops : List Operation) (w : GameServer × Network) : OnSource R engine w (run ops w) := by
  induction ops generalizing w with
  | nil => exact Std.Refl.refl w
  | cons op ops ih =>
    have hop : OnSource R engine w (op.after w) :=
      Operation.after_of_ends (onSource_perform_all hR hexecute op w)
    exact Trans.trans hop (ih (op.after w))

end OnSource

end GameServer

end GameQuery
