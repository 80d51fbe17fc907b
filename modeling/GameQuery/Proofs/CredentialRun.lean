import GameQuery.Proofs.Credentials
import GameQuery.Proofs.ServerMoves

namespace GameQuery

/-!
# Passwords in a run

Whatever a program does with a client of a GoldSrc server, and whatever the servers do, a password
goes to no other peer than the one of the socket it was set for, with a number from that socket, and
not after it has been refused.
-/

open Dialog

namespace EngineSession

/-- A session with a GoldSrc server that knows what an onlooker knows. -/
def Faithful (trace : List Deed) (e : EngineSession) : Prop :=
  ∃ s, e = .goldSrc s ∧ s.Faithful trace

/-- After some more events a session is still faithful. -/
def StaysFaithful (w v : EngineSession × Network) : Prop :=
  ∀ trace, w.1.Faithful trace →
    ∃ new, v.2.history = new ++ w.2.history ∧ v.1.Faithful (new.map .event ++ trace)

instance : Std.Refl StaysFaithful := ⟨fun _ _ h => ⟨[], rfl, h⟩⟩

instance : Trans StaysFaithful StaysFaithful StaysFaithful where
  trans h h' trace htrace := by
    obtain ⟨new, hnew, htrace⟩ := h trace htrace
    obtain ⟨new', hnew', htrace⟩ := h' _ htrace
    refine ⟨new' ++ new, ?_, ?_⟩
    · rw [hnew', hnew, List.append_assoc]
    · rwa [List.map_append, List.append_assoc]

variable {α : Type} {s : GoldSrcSession} {n : Network} {trace : List Deed}

theorem staysFaithful_of_records {d : Dialog EngineSession α}
    (h : ∀ s n trace, s.Faithful trace →
      Records d trace (.goldSrc s, n) fun _ t e => e.Faithful t) : Moves StaysFaithful d := by
  rintro ⟨e, n⟩
  apply ends_forall
  intro trace
  by_cases htrace : e.Faithful trace
  · obtain ⟨s, rfl, hs⟩ := htrace
    exact Ends.imp (h s n trace hs) fun r v hv _ => hv
  · exact ends_of_forall fun r v h => absurd h htrace

theorem records_onGoldSrc {d : Dialog GoldSrcSession α}
    {Q : Except ClientError α → List Deed → GoldSrcSession → Prop}
    (h : Records d trace (s, n) Q) :
    Records (on goldSrcPart d) trace (.goldSrc s, n) fun r t e =>
      ∃ v, e = .goldSrc v ∧ Q r t v := by
  refine Ends.on rfl (Ends.imp h ?_)
  rintro r v ⟨new, hnew, hv⟩
  exact ⟨new, hnew, v.1, rfl, hv⟩

theorem records_onQuery {d : Dialog QueryChannel α}
    {Q : Except ClientError α → List Deed → GoldSrcSession → Prop}
    (h : Records (on GoldSrcSession.queryPart d) trace (s, n) Q) :
    Records (on queryPart d) trace (.goldSrc s, n) fun r t e => ∃ v, e = .goldSrc v ∧ Q r t v := by
  refine (records_onGoldSrc h).congr ?_
  obtain ⟨query, password, challenge, isHltv, timeout⟩ := s
  cases query with
  | none => rfl
  | some c =>
    simp only [on, goldSrcPart, queryPart, GoldSrcSession.queryPart]
    cases d (c, n) <;> rfl

theorem records_byEngine (d : Dialog SourceSession α) {d' : Dialog GoldSrcSession α}
    (h : Records d' trace (s, n) fun _ t v => v.Faithful t) :
    Records (byEngine d d') trace (.goldSrc s, n) fun _ t e => e.Faithful t :=
  records_state_bind (records_onGoldSrc h)

theorem staysFaithful_byEngine (d : Dialog SourceSession α) {d' : Dialog GoldSrcSession α}
    (h : ∀ s n trace, s.Faithful trace → Records d' trace (s, n) fun _ t v => v.Faithful t) :
    Moves StaysFaithful (byEngine d d') :=
  staysFaithful_of_records fun s n trace hs => records_byEngine d (h s n trace hs)

theorem carries_staysFaithful : Carries StaysFaithful where
  quiet e n m _ hhistory trace h := ⟨[], hhistory, h⟩
  converse r hr := by
    apply staysFaithful_of_records
    intro s n trace hs
    refine (records_onQuery (GoldSrcSession.records_request hr hs)).bind ?_ ?_
    · rintro ⟨⟩ t ⟨e, m⟩ ⟨v, rfl, hv, hawaited⟩
      have hreply := GoldSrcSession.records_reply_of_not_awaited (n := m) hv (hawaited rfl)
      refine (records_onQuery hreply).imp ?_
      rintro r t e ⟨v, rfl, -, hv, -⟩
      exact ⟨v, rfl, hv⟩
    · rintro e t _ ⟨v, rfl, hv, -⟩
      exact ⟨v, rfl, hv⟩
  setTimeout e n timeout trace h := by
    obtain ⟨s, rfl, hs⟩ := h
    exact ⟨[], rfl, _, rfl, hs.setTimeout timeout⟩
  openSockets peer :=
    staysFaithful_byEngine _ fun s n trace hs => GoldSrcSession.records_openSockets hs.keeps peer

end EngineSession

namespace GameServer

/-! ## Deeds -/

/-- The events of a history that an earlier one does not have. -/
def since (earlier later : List Event) : List Event := later.take (later.length - earlier.length)

theorem since_append (new history : List Event) : since history (new ++ history) = new := by
  simp [since]

/-- What has happened when a password is set, if the sockets for it can be opened. -/
def historyAtLogin? (w : GameServer × Network) : Option (List Event) :=
  match ensureOpen w with
  | .ok _ v => some v.2.history
  | .error _ _ => none

namespace Operation

/-- The password that an operation sets, if it sets one, and what has happened until then. -/
def login? : Operation → GameServer × Network → Option (String × List Event)
  | authenticate password, w => (historyAtLogin? w).map (password, ·)
  | updatePlayers (some password), w =>
    match GameServer.update .players w with
    | .ok _ v =>
      if (v.1.cache.players.getD []).isEmpty || v.1.engine.authenticated then none
      else (historyAtLogin? v).map (password, ·)
    | .error _ _ => none
  | _, _ => none

/-- What an operation does and what happens meanwhile, the latest deed first. -/
def deeds (op : Operation) (w : GameServer × Network) : List Deed :=
  match op with
  | disconnect => [.logout]
  | _ =>
    match op.login? w with
    | none => (since w.2.history (op.after w).2.history).map .event
    | some (password, history) => (since history (op.after w).2.history).map .event ++
        .login password :: (since w.2.history history).map .event

end Operation

/-- What is done in a run, the latest deed first, given what was done before it. -/
def trace : List Operation → GameServer × Network → List Deed → List Deed
  | [], _, earlier => earlier
  | op :: ops, w, earlier => trace ops (op.after w) (op.deeds w ++ earlier)

variable {α : Type} {w u : GameServer × Network} {t : List Deed} {op : Operation}

/-- The deeds of an operation, and what they leave. -/
structure Operation.Told (op : Operation) (w : GameServer × Network) (t : List Deed) : Prop where
  faithful : (op.after w).1.engine.Faithful (op.deeds w ++ t)
  events : (op.deeds w).filterMap Deed.event? ++ w.2.history = (op.after w).2.history

theorem filterMap_event?_map (new : List Event) :
    (new.map Deed.event).filterMap Deed.event? = new := by
  rw [List.filterMap_map]
  exact List.filterMap_some

open EngineSession

/-- An operation that neither sets a password nor gives the sockets up. -/
theorem told_of_staysFaithful (hne : op ≠ .disconnect) (hlogin : op.login? w = none)
    (h : Ends op.perform w fun _ v => OnEngine StaysFaithful engine w v)
    (ht : w.1.engine.Faithful t) : op.Told w t := by
  obtain ⟨new, hnew, hfaithful⟩ := Operation.after_of_ends h t ht
  have hdeeds : op.deeds w = new.map .event := by
    unfold Operation.deeds
    split
    · exact absurd rfl hne
    · simp only at hnew
      simp only [hlogin, hnew, since_append]
  constructor
  · rw [hdeeds]
    exact hfaithful
  · rw [hdeeds, filterMap_event?_map]
    exact hnew.symm

/-- A client whose session has been given a password. -/
def withPassword (password : String) (s : GoldSrcSession) (w : GameServer × Network) :
    GameServer × Network :=
  (enginePart.put (.goldSrc { s with password := some password }) w.1, w.2)

theorem authenticate_eq {s : GoldSrcSession} (hopen : ensureOpen w = .ok () u)
    (hs : u.1.engine = .goldSrc s) (password : String) :
    authenticate password w = .ok true (withPassword password s u) := by
  have hauthenticate : EngineSession.authenticate password (u.1.engine, u.2) =
      .ok true (.goldSrc { s with password := some password }, u.2) := by
    rw [hs]
    rfl
  rw [authenticate, bind_of_ok hopen]
  exact on_of_ok (p := enginePart) rfl hauthenticate

/-- An operation that sets a password once the sockets are open. -/
theorem told_of_login {password : String} (hlogin : op.login? w = some (password, u.2.history))
    (hbefore : OnEngine StaysFaithful engine w u)
    (hafter : ∀ s, u.1.engine = .goldSrc s →
      Ends op.perform w fun _ v => OnEngine StaysFaithful engine (withPassword password s u) v)
    (ht : w.1.engine.Faithful t) : op.Told w t := by
  obtain ⟨before, hbefore, s, hs, hu⟩ := hbefore t ht
  obtain ⟨new, hnew, hfaithful⟩ := Operation.after_of_ends (hafter s hs) _
    ⟨_, rfl, GoldSrcSession.faithful_login hu password⟩
  -- The events are those before the password is set and those after it.
  simp only [withPassword] at hbefore hnew
  have hdeeds : op.deeds w = new.map .event ++ .login password :: before.map .event := by
    unfold Operation.deeds
    split
    · cases hlogin
    · simp only [hlogin, hnew, hbefore, since_append]
  constructor
  · rw [hdeeds, List.append_assoc]
    exact hfaithful
  · rw [hdeeds, hnew, hbefore, List.filterMap_append, List.filterMap_cons,
      filterMap_event?_map, filterMap_event?_map]
    simp [Deed.event?]

theorem staysFaithful_execute (command : String) :
    Moves (OnEngine StaysFaithful engine) (execute command) :=
  onEngine_onEngine (staysFaithful_byEngine _ fun _ _ _ hs =>
    GoldSrcSession.records_execute hs command)

theorem staysFaithful_askStatus :
    Moves (OnEngine StaysFaithful engine) (do mergeStatus (← execute "status")) :=
  (staysFaithful_execute "status").bind fun output =>
    onEngine_mergeStatus carries_staysFaithful output

theorem staysFaithful_ensureOpen : Moves (OnEngine StaysFaithful engine) ensureOpen :=
  onEngine_ensureOpen carries_staysFaithful

theorem historyAtLogin?_eq_some (h : ensureOpen w = .ok () u) :
    historyAtLogin? w = some u.2.history := by rw [historyAtLogin?, h]

theorem historyAtLogin?_eq_none {e : ClientError} (h : ensureOpen w = .error e u) :
    historyAtLogin? w = none := by rw [historyAtLogin?, h]

theorem told_authenticate (password : String) (ht : w.1.engine.Faithful t) :
    (Operation.authenticate password).Told w t := by
  cases hopen : ensureOpen w with
  | error e u =>
    have hu : OnEngine StaysFaithful engine w u := (staysFaithful_ensureOpen w).of_eq_error hopen
    refine told_of_staysFaithful nofun ?_ (Ends.discard ?_) ht
    · rw [Operation.login?, historyAtLogin?_eq_none hopen]
      rfl
    · exact ends_of_error (bind_of_error hopen _) hu
  | ok _ u =>
    have hu : OnEngine StaysFaithful engine w u := (staysFaithful_ensureOpen w).of_eq_ok hopen
    have hlogin : (Operation.authenticate password).login? w = some (password, u.2.history) := by
      rw [Operation.login?, historyAtLogin?_eq_some hopen]
      rfl
    refine told_of_login hlogin hu (fun s hs => Ends.discard ?_) ht
    exact ends_of_ok (authenticate_eq hopen hs password) (Std.Refl.refl _)

theorem perform_updatePlayers_ends {v : GameServer × Network} {password : String}
    {P : Except ClientError Unit → GameServer × Network → Prop}
    (hplayers : update .players w = .ok () v)
    (hempty : (v.1.cache.players.getD []).isEmpty = false)
    (h : Ends (extendPlayers password) v P) :
    Ends (Operation.updatePlayers (some password)).perform w P := by
  refine ends_bind_of_ok hplayers (ends_state_bind ?_)
  rwa [if_neg (Bool.eq_false_iff.1 hempty)]

theorem told_extendPlayers {v : GameServer × Network} (password : String)
    (ht : w.1.engine.Faithful t) (hplayers : update .players w = .ok () v)
    (hempty : (v.1.cache.players.getD []).isEmpty = false)
    (hauthenticated : v.1.engine.authenticated = false) :
    (Operation.updatePlayers (some password)).Told w t := by
  have hv : OnEngine StaysFaithful engine w v :=
    (onEngine_update carries_staysFaithful .players w).of_eq_ok hplayers
  have hopened := staysFaithful_ensureOpen v
  have hlogin : (Operation.updatePlayers (some password)).login? w =
      (historyAtLogin? v).map (password, ·) := by
    simp only [Operation.login?, hplayers, hempty, hauthenticated, Bool.or_false,
      Bool.false_eq_true, if_false]
  cases hopen : ensureOpen v with
  | error e u =>
    rw [historyAtLogin?_eq_none hopen] at hlogin
    refine told_of_staysFaithful nofun hlogin ?_ ht
    refine perform_updatePlayers_ends hplayers hempty (ends_state_bind ?_)
    rw [if_neg (Bool.eq_false_iff.1 hauthenticated)]
    have hfails : authenticate password v = .error e u := bind_of_error hopen _
    exact ends_of_error (bind_of_error hfails _) (Trans.trans hv (hopened.of_eq_error hopen))
  | ok _ u =>
    rw [historyAtLogin?_eq_some hopen] at hlogin
    have hu : OnEngine StaysFaithful engine w u := Trans.trans hv (hopened.of_eq_ok hopen)
    refine told_of_login hlogin hu (fun s hs => ?_) ht
    refine perform_updatePlayers_ends hplayers hempty (ends_state_bind ?_)
    rw [if_neg (Bool.eq_false_iff.1 hauthenticated)]
    refine ends_bind_of_ok (authenticate_eq hopen hs password) ?_
    exact staysFaithful_askStatus (withPassword password s u)

theorem told_updatePlayers (password : String) (ht : w.1.engine.Faithful t) :
    (Operation.updatePlayers (some password)).Told w t := by
  have hupdate := onEngine_update carries_staysFaithful .players w
  cases hplayers : update .players w with
  | error e v =>
    refine told_of_staysFaithful nofun ?_ ?_ ht
    · simp only [Operation.login?, hplayers]
    · exact ends_of_error (bind_of_error hplayers _) (hupdate.of_eq_error hplayers)
  | ok _ v =>
    have hv : OnEngine StaysFaithful engine w v := hupdate.of_eq_ok hplayers
    cases hempty : (v.1.cache.players.getD []).isEmpty with
    | true =>
      refine told_of_staysFaithful nofun ?_ (ends_bind_of_ok hplayers (ends_state_bind ?_)) ht
      · simp only [Operation.login?, hplayers, hempty, Bool.true_or, if_true]
      · rw [if_pos hempty]
        exact ends_pure hv
    | false =>
      cases hauthenticated : v.1.engine.authenticated with
      | true =>
        refine told_of_staysFaithful nofun ?_ ?_ ht
        · simp only [Operation.login?, hplayers, hauthenticated, Bool.or_true, if_true]
        · refine perform_updatePlayers_ends hplayers hempty (ends_state_bind ?_)
          rw [if_pos hauthenticated]
          exact (staysFaithful_askStatus v).imp fun _ _ hu => Trans.trans hv hu
      | false => exact told_extendPlayers password ht hplayers hempty hauthenticated

theorem told_disconnect (ht : w.1.engine.Faithful t) : Operation.disconnect.Told w t := by
  obtain ⟨s, hs, hfaithful⟩ := ht
  have hclosed : EngineSession.disconnect (w.1.engine, w.2) = .ok ()
      (.goldSrc { s with query := none, password := none, challenge := none }, w.2) := by
    rw [hs]
    rfl
  have hafter : Operation.disconnect.after w = _ :=
    Operation.after_of_ends (P := (· = _))
      (ends_of_ok (on_of_ok (p := enginePart) rfl hclosed) rfl)
  constructor
  · rw [hafter]
    exact ⟨_, rfl, GoldSrcSession.faithful_logout hfaithful.keeps⟩
  · rw [hafter]
    rfl

/-- An operation leaves a faithful session faithful, and its deeds tell all that has happened. -/
theorem told (op : Operation) (ht : w.1.engine.Faithful t) : op.Told w t := by
  cases op with
  | authenticate password => exact told_authenticate password ht
  | disconnect => exact told_disconnect ht
  | execute command =>
    exact told_of_staysFaithful nofun rfl (staysFaithful_execute command w).discard ht
  | updatePlayers password =>
    cases password with
    | none =>
      have hquiet : ¬ (Operation.updatePlayers none).TouchesConsole := id
      exact told_of_staysFaithful nofun rfl (onEngine_perform carries_staysFaithful hquiet w) ht
    | some password => exact told_updatePlayers password ht
  | _ => exact told_of_staysFaithful nofun rfl (onEngine_perform carries_staysFaithful id w) ht

theorem told_run {history : List Event} (ops : List Operation) (ht : w.1.engine.Faithful t)
    (hevents : t.filterMap Deed.event? ++ history = w.2.history) :
    (run ops w).1.engine.Faithful (trace ops w t) ∧
      (trace ops w t).filterMap Deed.event? ++ history = (run ops w).2.history := by
  induction ops generalizing w t with
  | nil => exact ⟨ht, hevents⟩
  | cons op ops ih =>
    obtain ⟨hfaithful, hdeeds⟩ := told op ht
    apply ih hfaithful
    rw [List.filterMap_append, List.append_assoc, hevents, hdeeds]

theorem connect_faithful {σ : Type} {endpoint : Endpoint} {session : GoldSrcSession}
    {start v : σ × Network} {server : GameServer}
    (h : connect endpoint (.goldSrc session) start = .ok server v) :
    server.engine.Faithful ((since start.2.history v.2.history).map .event) ∧
      since start.2.history v.2.history ++ start.2.history = v.2.history := by
  obtain ⟨connection, u, hestablish, h⟩ := Dialog.bind_eq_ok h
  cases h
  have hopen : Ends Connection.reconnect
      ((⟨endpoint, .goldSrc session⟩, start.2) : Connection EngineSession × Network) fun _ v =>
      ∃ new, v.2.history = new ++ start.2.history ∧ v.1.owner.Faithful (new.map .event) := by
    have hsockets : Records (SocketOwner.openSockets endpoint.address) []
        (EngineSession.goldSrc session, start.2) fun _ t e => e.Faithful t :=
      records_byEngine _ (GoldSrcSession.records_openSockets keepsCredentials_nil endpoint.address)
    refine ends_state_bind (Ends.on rfl (Ends.imp hsockets ?_))
    rintro r v ⟨new, hnew, hfaithful⟩
    rw [List.append_nil] at hfaithful
    exact ⟨new, hnew, hfaithful⟩
  obtain ⟨new, hnew, hfaithful⟩ := hopen.of_eq_ok (build_eq_ok hestablish).1
  simp only at hnew
  rw [hnew, since_append]
  exact ⟨hfaithful, rfl⟩

theorem execute_of_no_password {s : GoldSrcSession} (hs : w.1.engine = .goldSrc s)
    (hpassword : s.password = none) (command : String) :
    execute command w = .error .notAuthenticated w := by
  have hexecute : EngineSession.execute command (w.1.engine, w.2) =
      .error .notAuthenticated (w.1.engine, w.2) := by
    have hfails : GoldSrcSession.execute command (s, w.2) = .error .notAuthenticated (s, w.2) := by
      rw [GoldSrcSession.execute, state_bind]
      simp only [hpassword]
      rfl
    rw [hs]
    exact on_of_error (p := goldSrcPart) (s := .goldSrc s) rfl hfails
  exact on_of_error (p := enginePart) rfl hexecute

/-- Without a password no command is sent. -/
theorem execute_of_faithful (ht : w.1.engine.Faithful t)
    (hnone : (watch GoldSrcSession.refusesPassword t).password = none) (command : String) :
    execute command w = .error .notAuthenticated w := by
  obtain ⟨s, hs, hfaithful⟩ := ht
  exact execute_of_no_password hs (hfaithful.password.trans hnone) command

/-- In a run of a client of a GoldSrc server every password that is sent goes to the peer of the
socket it was set for, as long as it has not been refused, with the latest number that has come
over that socket. Without such a password a command fails and nothing is sent. -/
theorem keepsCredentials_run {σ : Type} {endpoint : Endpoint} {session : GoldSrcSession}
    {start v : σ × Network} {server : GameServer}
    (h : connect endpoint (.goldSrc session) start = .ok server v) (ops : List Operation) :
    let w := run ops (server, v.2)
    let deeds := trace ops (server, v.2) ((since start.2.history v.2.history).map .event)
    deeds.filterMap Deed.event? ++ start.2.history = w.2.history ∧
      KeepsCredentials GoldSrcSession.refusesPassword deeds ∧
      ((watch GoldSrcSession.refusesPassword deeds).password = none →
        ∀ command, execute command w = .error .notAuthenticated w) := by
  obtain ⟨hfaithful, hevents⟩ := connect_faithful h
  intro w deeds
  have hstart : ((since start.2.history v.2.history).map Deed.event).filterMap Deed.event? ++
      start.2.history = v.2.history := by rw [filterMap_event?_map, hevents]
  obtain ⟨hrun, hdeeds⟩ := told_run (w := (server, v.2)) ops hfaithful hstart
  refine ⟨hdeeds, ?_, execute_of_faithful hrun⟩
  obtain ⟨s, hs, hkeeps⟩ := hrun
  exact hkeeps.keeps

section Refused

def consoleEndpoint : Endpoint where
  host := "192.0.2.1"
  addresses := [.v4 ⟨⟨192, 0, 2, 1⟩, gamePort⟩]
  active := 0
  active_lt := Nat.one_pos

/-- A world in which every command has the same answer. -/
def sternWorld (answer : String) : World where
  connect _ _ _ := none
  react _ _ _ bytes :=
    let text := if bytes = ConsoleLine.challenge.bytes then "challenge rcon 7" else answer
    .ok [.data (textDatagram text.toList)]
  resolve _ := none
  sessionId _ := 0

theorem keepsCredentials_run_refused : ∃ server v,
    connect consoleEndpoint (.goldSrc {}) ((), { world := sternWorld "Bad rcon_password." }) =
      .ok server v ∧
    let w := run [.authenticate "secret", .execute "status"] (server, v.2)
    let deeds := trace [.authenticate "secret", .execute "status"] (server, v.2)
      ((since [] v.2.history).map .event)
    deeds.filterMap Deed.event? ++ [] = w.2.history ∧
      KeepsCredentials GoldSrcSession.refusesPassword deeds ∧
      ∀ command, execute command w = .error .notAuthenticated w := by
  have hconnect : ∃ server v, connect consoleEndpoint (.goldSrc {})
      ((), { world := sternWorld "Bad rcon_password." }) = .ok server v := ⟨_, _, rfl⟩
  obtain ⟨server, v, h⟩ := hconnect
  obtain ⟨hevents, hkeeps, hnone⟩ :=
    keepsCredentials_run h [.authenticate "secret", .execute "status"]
  refine ⟨server, v, h, hevents, hkeeps, hnone ?_⟩
  cases h
  decide +kernel

/-- A text that starts as a refusal does, whatever else it tells. -/
def startsAsRefusal (text : String) : Bool := GoldSrcSession.badPassword.isPrefixOf text.toList

/-- A refusal that tells of a ban leaves the password where it is, and the next command sends it
once more. -/
theorem banned_password_is_sent_again : ∃ server v,
    connect consoleEndpoint (.goldSrc {})
      ((), { world := sternWorld "Bad rcon_password. You are banned." }) = .ok server v ∧
    ¬ KeepsCredentials startsAsRefusal
      (trace [.authenticate "secret", .execute "status", .execute "status"] (server, v.2)
        ((since [] v.2.history).map .event)) := by
  refine ⟨_, _, rfl, fun hkeeps => ?_⟩
  generalize hdeeds : trace _ _ _ = deeds at hkeeps
  let peer := consoleEndpoint.address
  let bytes := (ConsoleLine.exec 7 "secret" "status").bytes
  let answer := textDatagram "Bad rcon_password. You are banned.".toList
  have hlast : deeds.take 2 =
      [.event (.received .udp peer answer), .event (.sent .udp peer bytes)] := by
    rw [← hdeeds]
    decide +kernel
  have hpassword : (watch startsAsRefusal (deeds.drop 2)).password = none := by
    rw [← hdeeds]
    decide +kernel
  have hsplit := List.take_append_drop 2 deeds
  rw [hlast] at hsplit
  obtain ⟨password, number, hsome, -⟩ := (hkeeps (deeds.drop 2) peer bytes ⟨[_], hsplit⟩
    (isCommandDatagram_exec 7 "secret" "status")).line
  rw [hpassword] at hsome
  cases hsome

end Refused

end GameServer

end GameQuery
