import GameQuery.Proofs.CredentialRun
import GameQuery.Proofs.FailoverCalls
import GameQuery.Proofs.RequestCodec

namespace GameQuery

/-!
# The password that a status is asked for with

An update of the players may bring a password to ask the console for its status with. A client of a
GoldSrc server that holds a password goes on with that one, whether or not it is the same, and only
a client that holds none takes the one that is brought. This rests on the socket: as long as a
password is held there is one, so the request for the players does not open another one, with which
the password would be lost.
-/

open Dialog

namespace EngineSession

/-- The password that a session with a GoldSrc server holds. -/
def password : EngineSession → Option String
  | source _ => none
  | goldSrc s => s.password

/-- As long as a password is held, there is a socket. -/
def IsBacked (e : EngineSession) : Prop := ∀ password, e.password = some password → e.isOpen = true

def StaysBacked (w v : EngineSession × Network) : Prop := w.1.IsBacked → v.1.IsBacked

/-- A session with a socket keeps both the socket and the password. -/
def KeepsPassword (w v : EngineSession × Network) : Prop :=
  w.1.isOpen = true → v.1.isOpen = true ∧ v.1.password = w.1.password

instance : Std.Refl StaysBacked := ⟨fun _ => id⟩

instance : Trans StaysBacked StaysBacked StaysBacked where
  trans h h' := h' ∘ h

instance : Std.Refl KeepsPassword := ⟨fun _ h => ⟨h, rfl⟩⟩

instance : Trans KeepsPassword KeepsPassword KeepsPassword where
  trans h h' hw := by
    obtain ⟨hopen, hsame⟩ := h hw
    obtain ⟨hopen', hsame'⟩ := h' hopen
    exact ⟨hopen', hsame'.trans hsame⟩

variable {α : Type} {e : EngineSession}

theorem authenticated_of_password {p : String} (h : e.password = some p) :
    e.authenticated = true := by
  cases e with
  | source s => cases h
  | goldSrc s => exact Option.isSome_iff_exists.2 ⟨p, h⟩

theorem password_putQuery (c : QueryChannel) (e : EngineSession) :
    (queryPart.put c e).password = e.password := by
  cases e <;> rfl

theorem isOpen_putQuery (c : QueryChannel) (e : EngineSession) :
    (queryPart.put c e).isOpen = true := by
  rw [isOpen, queryPart_get?_put]
  rfl

theorem moves_onQuery {R : EngineSession × Network → EngineSession × Network → Prop} [Std.Refl R]
    (hput : ∀ e n c c' m, queryPart.get? e = some c → R (e, n) (queryPart.put c' e, m))
    (d : Dialog QueryChannel α) : Moves R (on queryPart d) := by
  have hany : Moves (fun _ _ => True) d := fun w => ends_of_forall fun _ _ => trivial
  exact hany.on fun e n c v hc _ => hput e n c v.1 v.2 hc

theorem keepsPassword_onQuery (d : Dialog QueryChannel α) : Moves KeepsPassword (on queryPart d) :=
  moves_onQuery (fun e _ _ c _ _ _ => ⟨isOpen_putQuery c e, password_putQuery c e⟩) d

theorem staysBacked_onQuery (d : Dialog QueryChannel α) : Moves StaysBacked (on queryPart d) :=
  moves_onQuery (fun e _ _ c _ _ _ _ _ => isOpen_putQuery c e) d

theorem password_renewed (peer : SocketAddress) (e : EngineSession) :
    (e.renewed peer).password = none := by
  cases e <;> rfl

theorem password_disconnected (e : EngineSession) : e.disconnected.password = none := by
  cases e <;> rfl

/-- New sockets come without a password. -/
theorem staysBacked_openSockets (peer : SocketAddress) :
    Moves StaysBacked (SocketOwner.openSockets peer) := by
  rintro ⟨e, n⟩
  refine (openSockets_renews peer e n).imp fun r v hv _ password hpassword => ?_
  have hnone : v.1.password = none := by
    rw [hv]
    split
    · exact password_renewed peer e
    · exact password_disconnected e
  rw [hnone] at hpassword
  cases hpassword

theorem carries_staysBacked : Carries StaysBacked where
  quiet _ _ _ _ _ := id
  converse _ _ := (staysBacked_onQuery _).bind fun _ => staysBacked_onQuery _
  setTimeout e _ timeout h password hpassword := by
    cases e with
    | source s => cases hpassword
    | goldSrc s =>
      have hopen := h password hpassword
      change (s.query.map (·.setTimeout timeout)).isSome = true
      rw [Option.isSome_map]
      exact hopen
  openSockets := staysBacked_openSockets

end EngineSession

open EngineSession

namespace GameServer

variable {α : Type} {endpoint : Endpoint} {own : Option Nat} {w u : GameServer × Network}

/-! ## Passwords have a socket -/

theorem reconnect_opens (w : Connection EngineSession × Network) :
    Ends Connection.reconnect w fun r v => r.isOk = true → v.1.owner.isOpen = true := by
  apply ends_state_bind
  apply Ends.on (p := Connection.ownerPart) rfl
  refine (openSockets_renews w.1.endpoint.address w.1.owner w.2).imp fun r v hv hok => ?_
  rw [hok, if_pos rfl] at hv
  change v.1.isOpen = true
  rw [hv]
  exact isOpen_renewed _ _

theorem ensureOpen_opens (w : GameServer × Network) :
    Ends ensureOpen w fun r v => r.isOk = true → v.1.engine.isOpen = true := by
  apply ends_state_bind
  split
  · next hopen => exact ends_pure fun _ => hopen
  · exact Ends.on (p := connectionPart) rfl (reconnect_opens _)

/-- The socket of a client of a GoldSrc server goes to the active address, and there is one as long
as a password is held. -/
structure IsBacked (endpoint : Endpoint) (own : Option Nat) (s : GameServer) : Prop where
  attached : s.IsAttached False endpoint .goldSrc own
  backed : s.engine.IsBacked

def StaysBacked (endpoint : Endpoint) (own : Option Nat) (w v : GameServer × Network) : Prop :=
  w.1.IsBacked endpoint own → v.1.IsBacked endpoint own

instance : Std.Refl (StaysBacked endpoint own) := ⟨fun _ => id⟩

instance : Trans (StaysBacked endpoint own) (StaysBacked endpoint own) (StaysBacked endpoint own) where
  trans h h' := h' ∘ h

theorem IsAttached.isBacked {s : GameServer} (h : s.IsAttached True endpoint .goldSrc own) :
    s.IsBacked endpoint own :=
  ⟨h.imp fun _ => trivial, fun _ _ => h.engine.isOpen trivial⟩

theorem IsBacked.isAttached {s : GameServer} (h : s.IsBacked endpoint own)
    (hopen : s.engine.isOpen = true) : s.IsAttached True endpoint .goldSrc own :=
  ⟨⟨h.attached.engine.bound, fun _ => hopen⟩, h.attached.endpoint⟩

theorem staysBacked_of_moves {d : Dialog GameServer α}
    (hbacked : Moves (OnEngine EngineSession.StaysBacked engine) d)
    (hattached : Moves (StaysAttached False endpoint .goldSrc own) d) :
    Moves (StaysBacked endpoint own) d := by
  intro w
  refine ((hbacked w).and (hattached w)).imp fun _ v hv hw => ?_
  exact ⟨(hv.2 hw.attached).1, hv.1 hw.backed⟩

theorem staysBacked_ensureOpen : Moves (StaysBacked endpoint own) ensureOpen :=
  staysBacked_of_moves (onEngine_ensureOpen EngineSession.carries_staysBacked)
    staysAttached_ensureOpen

/-- A password is set over open sockets only. -/
theorem staysBacked_authenticate (password : String) :
    Moves (StaysBacked endpoint own) (authenticate password) := by
  intro w
  apply ((staysBacked_ensureOpen w).and (ensureOpen_opens w)).bind
  · rintro _ v ⟨hbacked, hopen⟩
    have hsteady : Moves (StaysAttached True endpoint .goldSrc own)
        (on enginePart (EngineSession.authenticate password)) :=
      staysAttached_onEngine (EngineSession.steady_authenticate password)
    refine (hsteady v).imp fun _ t ht hw => ?_
    exact (ht ((hbacked hw).isAttached (hopen rfl))).1.isBacked
  · exact fun _ _ hv => hv.1

theorem IsBacked.exists_goldSrc {s : GameServer} (h : s.IsBacked endpoint own) :
    ∃ session, s.engine = .goldSrc session := by
  have hframing := h.attached.engine.bound.framing_eq
  cases hengine : s.engine with
  | source session =>
    rw [hengine] at hframing
    cases hframing
  | goldSrc session => exact ⟨session, rfl⟩

/-- A command needs a password, and so it finds a socket, which it leaves open. -/
theorem staysBacked_execute (command : String) :
    Moves (StaysBacked endpoint own) (execute command) := by
  intro w
  by_cases hw : w.1.IsBacked endpoint own
  · obtain ⟨s, hs⟩ := hw.exists_goldSrc
    cases hpassword : s.password with
    | none => exact ends_of_error (execute_of_no_password hs hpassword command) id
    | some password =>
      have hheld : w.1.engine.password = some password := by rw [hs, EngineSession.password, hpassword]
      have hopen := hw.isAttached (hw.backed password hheld)
      exact (staysAttached_execute command w).imp fun _ v hv _ => (hv hopen).1.isBacked
  · exact ends_of_forall fun _ _ hw' => absurd hw' hw

theorem carries_staysBacked : Carries (StaysBacked endpoint own) where
  quiet _ _ _ _ _ hs := ⟨hs.attached, hs.backed⟩
  asks category := staysBacked_of_moves
    (onEngine_exchange EngineSession.carries_staysBacked category none)
    (staysAttached_exchange category none)
  asksAgain category := moves_state.bind fun s => staysBacked_of_moves
    (onEngine_exchange EngineSession.carries_staysBacked category s.cache.challenge)
    (staysAttached_exchange category s.cache.challenge)
  measures := staysBacked_of_moves (onEngine_updatePing EngineSession.carries_staysBacked)
    carries_staysAttached.measures
  logsIn := staysBacked_authenticate
  commands := staysBacked_execute
  asksStatus := (staysBacked_execute "status").bind fun output => staysBacked_of_moves
    (onEngine_mergeStatus EngineSession.carries_staysBacked output)
    (staysAttached_mergeStatus output)

theorem disconnect_forgets (w : GameServer × Network) :
    Ends disconnect w fun _ v => v.1.engine.password = none := by
  obtain ⟨⟨⟨e, owner⟩, cache⟩, n⟩ := w
  apply Ends.on (p := enginePart) rfl
  apply ends_state_bind
  cases owner with
  | source s => exact Ends.on (p := sourcePart) rfl (ends_of_forall fun _ _ => rfl)
  | goldSrc s => exact Ends.on (p := goldSrcPart) rfl rfl

theorem backed_after (op : Operation) (h : w.1.IsBacked endpoint own) :
    (op.after w).1.engine.IsBacked := by
  by_cases hop : op.Manages
  · by_cases hconsole : op.TouchesConsole
    · cases op with
      | disconnect =>
        have hends : Ends (Operation.perform .disconnect) w fun _ v =>
            v.1.engine.password = none := disconnect_forgets w
        have hnone := Operation.after_of_ends hends
        intro password hpassword
        rw [hnone] at hpassword
        cases hpassword
      | setTimeout | rotate | clearCache => exact hconsole.elim
      | _ => exact hop.elim
    · exact Operation.after_of_ends
        (onEngine_perform EngineSession.carries_staysBacked hconsole w) h.backed
  · have hafter : StaysBacked endpoint own w (op.after w) :=
      Operation.after_of_ends (carries_staysBacked.moves_perform hop w)
    exact (hafter h).backed

theorem backed_run (ops : List Operation) (h : w.1.IsBacked endpoint own) :
    (run ops w).1.engine.IsBacked := by
  induction ops generalizing endpoint own w with
  | nil => exact h.backed
  | cons op ops ih =>
    obtain ⟨next, -, hattached⟩ := attached_after op h.attached
    exact ih ⟨hattached, backed_after op h⟩

theorem isBacked_of_connect {σ : Type} {session : GoldSrcSession} {start v : σ × Network}
    {server : GameServer} (h : connect endpoint (.goldSrc session) start = .ok server v) :
    server.IsBacked endpoint session.timeout := by
  have hattached := (attached_of_connect h).1
  refine ⟨hattached, fun password hpassword => ?_⟩
  obtain ⟨connection, u, hestablish, h⟩ := Dialog.bind_eq_ok h
  cases h
  exact (reconnect_opens _).of_eq_ok (build_eq_ok hestablish).1 rfl

/-! ## Requests over open sockets keep the password -/

theorem keepsPassword_ensureOpen : Moves (OnEngine KeepsPassword engine) ensureOpen := by
  intro w
  by_cases hopen : w.1.engine.isOpen = true
  · apply ends_state_bind
    rw [if_pos hopen]
    exact ends_pure (Std.Refl.refl _)
  · exact ends_of_forall fun _ _ hw => absurd hw hopen

theorem keepsPassword_exchange (category : Category) (infoChallenge : Option Int32) :
    Moves (OnEngine KeepsPassword engine) (exchange category infoChallenge) := by
  have hconverse : ∀ r, Moves KeepsPassword (converse r) :=
    fun r => (keepsPassword_onQuery _).bind fun _ => keepsPassword_onQuery _
  refine moves_state.bind fun s => keepsPassword_ensureOpen.bind fun _ => ?_
  rw [converse_bind]
  refine (onEngine_onEngine (hconverse _)).bind fun reply => ?_
  refine Moves.bind (onEngine_modifyState ?_) fun _ => moves_pure _
  exact fun _ => rfl

theorem carriesRequests_keepsPassword : CarriesRequests (OnEngine KeepsPassword engine) where
  quiet _ _ _ _ _ := fun hopen => ⟨hopen, rfl⟩
  asks category := keepsPassword_exchange category none
  asksAgain _ := moves_state.bind fun _ => keepsPassword_exchange _ _

/-! ## Deeds of an update of the players -/

/-- A client of a GoldSrc server that holds a password takes no other one for its status. -/
theorem login?_updatePlayers {password taken : String} {history : List Event}
    (hw : w.1.engine.IsBacked)
    (h : (Operation.updatePlayers (some password)).login? w = some (taken, history)) :
    taken = password ∧ w.1.engine.password = none := by
  simp only [Operation.login?] at h
  split at h
  · next v hplayers =>
    split at h
    · cases h
    · next hlogs =>
      obtain ⟨_, -, heq⟩ := Option.map_eq_some_iff.1 h
      cases heq
      refine ⟨rfl, Option.eq_none_iff_forall_ne_some.2 fun held hheld => hlogs ?_⟩
      have hkeeps : OnEngine KeepsPassword engine w v :=
        (carriesRequests_keepsPassword.moves_update .players w).of_eq_ok hplayers
      have hsame := (hkeeps (hw held hheld)).2
      rw [authenticated_of_password (hsame.trans hheld), Bool.or_true]
  · cases h

theorem deed_cases {op : Operation} {d : Deed} (hop : op ≠ .disconnect) (h : d ∈ op.deeds w) :
    (∃ e, d = .event e) ∨
      ∃ password history, d = .login password ∧ op.login? w = some (password, history) := by
  have hevent : ∀ events : List Event, d ∈ events.map Deed.event → ∃ e, d = .event e := by
    intro events hd
    obtain ⟨e, -, he⟩ := List.mem_map.1 hd
    exact ⟨e, he.symm⟩
  unfold Operation.deeds at h
  split at h
  · exact absurd rfl hop
  · split at h
    · exact .inl (hevent _ h)
    · next password history hlogin =>
      rcases List.mem_append.1 h with h | h
      · exact .inl (hevent _ h)
      · rcases List.mem_cons.1 h with rfl | h
        · exact .inr ⟨password, history, rfl, hlogin⟩
        · exact .inl (hevent _ h)

end GameServer

/-! ## What an onlooker takes for the password -/

section Watch

variable {refuses : String → Bool} {t deeds : List Deed} {password : String}

/-- No other password can be sent. -/
def Watch.HoldsOnly (password : String) (m : Watch) : Prop :=
  ∀ held, m.password = some held → held = password

theorem Watch.password_receive (m : Watch) (datagram : List UInt8) :
    (m.receive refuses datagram).password = m.password ∨
      (m.receive refuses datagram).password = none := by
  have hlearn : ∀ (m : Watch) question reply, (m.learn refuses question reply).password = m.password ∨
      (m.learn refuses question reply).password = none := by
    intro m question reply
    unfold learn
    split
    · split
      · exact .inl rfl
      · exact .inl rfl
    · split
      · exact .inr rfl
      · exact .inl rfl
    · exact .inl rfl
  unfold receive
  split
  · exact .inl rfl
  · split
    · exact .inl rfl
    · exact .inl rfl
    · split
      · exact .inl rfl
      · exact hlearn _ _ _

/-- What happens in the network brings no password. -/
theorem Watch.HoldsOnly.see_event {m : Watch} (h : m.HoldsOnly password) (e : Event) :
    (m.see refuses (.event e)).HoldsOnly password := by
  have hsee : (m.see refuses (.event e)).password = m.password ∨
      (m.see refuses (.event e)).password = none := by
    unfold see
    split
    · exact .inr rfl
    · exact .inr rfl
    · exact .inl rfl
    · exact m.password_receive _
    · exact .inl rfl
    · next hlogin => cases hlogin
    · exact .inr rfl
  intro held hheld
  rcases hsee with hsame | hnone
  · exact h held (hsame.symm.trans hheld)
  · rw [hnone] at hheld
    cases hheld

theorem holdsOnly_watch (ht : (watch refuses t).HoldsOnly password)
    (hdeeds : ∀ d ∈ deeds, (∃ e, d = .event e) ∨ d = .login password) :
    (watch refuses (deeds ++ t)).HoldsOnly password := by
  induction deeds with
  | nil => exact ht
  | cons d deeds ih =>
    obtain ⟨hd, hrest⟩ := List.forall_mem_cons.1 hdeeds
    rcases hd with ⟨e, rfl⟩ | rfl
    · exact (ih hrest).see_event e
    · rintro held ⟨⟩
      rfl

end Watch

namespace GameServer

/-- A datagram with a command, or for the rest of an answer, that carries a password. -/
def CarriesPassword (password : String) (bytes : List UInt8) : Prop :=
  ∃ number, bytes = (ConsoleLine.more number password).bytes ∨
    ∃ command, bytes = (ConsoleLine.exec number password command).bytes

/-- A password without a space can be told from a datagram that carries it. -/
theorem CarriesPassword.unique {p q : String} {bytes : List UInt8} (h : CarriesPassword p bytes)
    (h' : CarriesPassword q bytes) (hp : ' ' ∉ p.toList) (hq : ' ' ∉ q.toList) : p = q := by
  have hread : ∀ held : String, ' ' ∉ held.toList → CarriesPassword held bytes →
      ∃ number, ConsoleLine.decode bytes = .ok (.more number held) ∨
        ∃ command, ConsoleLine.decode bytes = .ok (.exec number held command) := by
    rintro held hheld ⟨number, rfl | ⟨command, rfl⟩⟩
    · exact ⟨number, .inl (ConsoleLine.decode_bytes_iff.2 hheld)⟩
    · exact ⟨number, .inr ⟨command, ConsoleLine.decode_bytes_iff.2 hheld⟩⟩
  obtain ⟨_, hmore | ⟨_, hexec⟩⟩ := hread p hp h
  · obtain ⟨_, hmore' | ⟨_, hexec'⟩⟩ := hread q hq h'
    · cases hmore.symm.trans hmore'
      rfl
    · cases hmore.symm.trans hexec'
  · obtain ⟨_, hmore' | ⟨_, hexec'⟩⟩ := hread q hq h'
    · cases hexec.symm.trans hmore'
    · cases hexec.symm.trans hexec'
      rfl

variable {w : GameServer × Network} {t : List Deed}

theorem updatePlayers_carries (ht : w.1.engine.Faithful t) (hw : w.1.engine.IsBacked)
    (password : String) :
    ∃ new, ((Operation.updatePlayers (some password)).after w).2.history = new ++ w.2.history ∧
      ∀ peer bytes, .sent .udp peer bytes ∈ new → IsCommandDatagram bytes →
        CarriesPassword (w.1.engine.password.getD password) bytes := by
  obtain ⟨⟨v, -, hv⟩, hevents⟩ := told (.updatePlayers (some password)) ht
  refine ⟨_, hevents.symm, fun peer bytes hsent hcommand => ?_⟩
  obtain ⟨d, hd, hevent⟩ := List.mem_filterMap.1 hsent
  have hdeed : d = .event (.sent .udp peer bytes) := by
    cases d with
    | event e => exact congrArg Deed.event (Option.some.inj hevent)
    | login _ => cases hevent
    | logout => cases hevent
  obtain ⟨later, earlier, hsplit⟩ := List.append_of_mem hd
  rw [hdeed] at hsplit
  have hsuffix : .event (.sent .udp peer bytes) :: (earlier ++ t) <:+
      (Operation.updatePlayers (some password)).deeds w ++ t := by
    rw [hsplit, List.append_assoc]
    exact List.suffix_append _ _
  obtain ⟨held, number, hheld, -, hline⟩ := (hv.keeps _ peer bytes hsuffix hcommand).line
  have htrace : (watch GoldSrcSession.refusesPassword t).HoldsOnly
      (w.1.engine.password.getD password) := by
    obtain ⟨s, hs, hfaithful⟩ := ht
    intro stored hstored
    rw [hs, EngineSession.password, hfaithful.password, hstored]
    rfl
  have hdeeds : ∀ d ∈ earlier, (∃ e, d = .event e) ∨
      d = .login (w.1.engine.password.getD password) := by
    intro d hd
    have hmem : d ∈ (Operation.updatePlayers (some password)).deeds w := by
      rw [hsplit]
      exact List.mem_append_right _ (List.mem_cons_of_mem _ hd)
    have hne : Operation.updatePlayers (some password) ≠ .disconnect := nofun
    rcases deed_cases hne hmem with he | ⟨taken, history, rfl, hlogin⟩
    · exact .inl he
    · obtain ⟨rfl, hnone⟩ := login?_updatePlayers hw hlogin
      rw [hnone]
      exact .inr rfl
  have hsame := holdsOnly_watch htrace hdeeds held hheld
  rw [hsame] at hline
  exact ⟨number, hline⟩

/-- Every password that a client of a GoldSrc server sends while it updates its players is the one
that it holds when the update begins: the one that was set last over its socket and has not been
refused since. Only a client that holds none sends the password that comes with the update. -/
theorem updatePlayers_sends_held_password {σ : Type} {endpoint : Endpoint} {session : GoldSrcSession}
    {start v : σ × Network} {server : GameServer}
    (h : connect endpoint (.goldSrc session) start = .ok server v) (ops : List Operation)
    (password : String) :
    let w := run ops (server, v.2)
    let deeds := trace ops (server, v.2) ((since start.2.history v.2.history).map .event)
    let held := (watch GoldSrcSession.refusesPassword deeds).password
    (∃ s, w.1.engine = .goldSrc s ∧ s.password = held) ∧
    ∃ new, ((Operation.updatePlayers (some password)).after w).2.history = new ++ w.2.history ∧
      ∀ peer bytes, .sent .udp peer bytes ∈ new → IsCommandDatagram bytes →
        CarriesPassword (held.getD password) bytes := by
  obtain ⟨hfaithful, hevents⟩ := connect_faithful h
  intro w deeds held
  have hstart : ((since start.2.history v.2.history).map Deed.event).filterMap Deed.event? ++
      start.2.history = v.2.history := by rw [filterMap_event?_map, hevents]
  have hrun := (told_run (w := (server, v.2)) ops hfaithful hstart).1
  have hbacked : w.1.engine.IsBacked := backed_run (w := (server, v.2)) ops (isBacked_of_connect h)
  have hcarries := updatePlayers_carries hrun hbacked password
  obtain ⟨s, hs, hknown⟩ := hrun
  have hheld : w.1.engine.password = held := by
    rw [hs, EngineSession.password, hknown.password]
  rw [hheld] at hcarries
  exact ⟨⟨s, hs, hknown.password⟩, hcarries⟩

section Overruled

/-- The answer to a request for the players. -/
def onePlayer : List UInt8 :=
  requestStart ++ 0x44 :: 1 :: 0 :: Text.Utf8.encode "ann" ++ [0, 5, 0, 0, 0, 0, 0, 0x20, 0x41]

/-- A world with one player in which every command has an empty answer. -/
def quietWorld : World where
  connect _ _ _ := none
  react _ _ _ bytes :=
    if bytes = ConsoleLine.challenge.bytes then
      .ok [.data (textDatagram "challenge rcon 7".toList)]
    else if (requestStart ++ [0x72]).isPrefixOf bytes then .ok [.data (textDatagram [])]
    else .ok [.data onePlayer]
  resolve _ := none
  sessionId _ := 0

theorem updatePlayers_sends_held_password_quiet : ∃ server v,
    connect consoleEndpoint (.goldSrc {}) ((), { world := quietWorld }) = .ok server v ∧
    let w := run [.authenticate "secret"] (server, v.2)
    ∃ new, ((Operation.updatePlayers (some "other")).after w).2.history = new ++ w.2.history ∧
      ∀ peer bytes, .sent .udp peer bytes ∈ new → IsCommandDatagram bytes →
        CarriesPassword "secret" bytes := by
  have hconnect : ∃ server v, connect consoleEndpoint (.goldSrc {})
      ((), { world := quietWorld }) = .ok server v := ⟨_, _, rfl⟩
  obtain ⟨server, v, h⟩ := hconnect
  have hheld : (watch GoldSrcSession.refusesPassword (trace [.authenticate "secret"] (server, v.2)
      ((since [] v.2.history).map .event))).password = some "secret" := by
    cases h
    decide +kernel
  obtain ⟨-, hcarries⟩ := updatePlayers_sends_held_password h [.authenticate "secret"] "other"
  simp only [hheld] at hcarries
  exact ⟨server, v, h, hcarries⟩

/-- A client that holds a password does not send the other one that its players are updated
with. -/
theorem updatePlayers_leaves_password_unsent : ∃ server v,
    connect consoleEndpoint (.goldSrc {}) ((), { world := quietWorld }) = .ok server v ∧
    let w := run [.authenticate "secret"] (server, v.2)
    ¬ ∀ new, ((Operation.updatePlayers (some "other")).after w).2.history = new ++ w.2.history →
      ∀ peer bytes, .sent .udp peer bytes ∈ new → IsCommandDatagram bytes →
        CarriesPassword "other" bytes := by
  refine ⟨_, _, rfl, ?_⟩
  intro w hall
  let bytes := (ConsoleLine.exec 7 "secret" "status").bytes
  let history := ((Operation.updatePlayers (some "other")).after w).2.history
  have hhistory : history = since w.2.history history ++ w.2.history := by decide +kernel
  have hsent : .sent .udp consoleEndpoint.address bytes ∈ since w.2.history history := by
    decide +kernel
  have hother := hall _ hhistory _ bytes hsent (isCommandDatagram_exec 7 "secret" "status")
  have hsecret : CarriesPassword "secret" bytes := ⟨7, .inr ⟨"status", rfl⟩⟩
  have hsame := hsecret.unique hother (by decide) (by decide)
  exact absurd hsame (by decide)

end Overruled

end GameServer

end GameQuery
