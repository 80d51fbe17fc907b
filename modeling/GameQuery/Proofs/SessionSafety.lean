import GameQuery.Proofs.ConsoleSession
import GameQuery.Proofs.ServerMoves

namespace GameQuery

/-!
# Console sessions along runs

A client that is connected to a Source server starts with a coherent session. Every operation that
sends no command keeps it coherent, and a command keeps it so exactly when it does not lose the
session. So in a run the client is truthful about its session, and sends commands to those only who
have accepted a password, exactly as long as no command loses the session.
-/

open Dialog

theorem SourceSession.coherent_query {s : SourceSession} {n m : Network}
    {before query : QueryChannel} (h : SourceSession.Coherent (s, n)) (hs : s.query = some before)
    (hlater : Socket.Later (before.socket, n) (query.socket, m)) :
    SourceSession.Coherent ({ s with query := some query }, m) ∧
      AddsNoCommand n.history m.history := by
  obtain ⟨hwired, hsound⟩ := h
  have hudp := hwired.query before hs
  obtain ⟨new, hnew, hon⟩ := hlater.history
  rw [hudp] at hon
  refine ⟨⟨⟨?_, hwired.console⟩, fun hauth => ?_⟩, new, hnew, fun e he => (hon e he).not_isCommand⟩
  · rintro query' ⟨⟩
    exact hlater.transport.trans hudp
  · obtain ⟨console, stream, hconsole, hstream, haccepted⟩ := hsound hauth
    refine ⟨console, stream, hconsole, hstream, ?_⟩
    change AcceptedOn stream.peer s.requestId m.history
    rw [hnew]
    exact haccepted.append fun e he => (hon e he).not_breaks

theorem SourceSession.carries_harmless :
    SourceSession.Carries (Harmless SourceSession.Coherent) where
  quiet s n m _ hhistory := by
    rintro ⟨hwired, hsound⟩
    refine ⟨⟨hwired, ?_⟩, [], hhistory, fun _ he => nomatch he⟩
    change s.IsSound m.history
    rwa [hhistory]
  query s n m before query hs hlater h := SourceSession.coherent_query h hs hlater
  setTimeout := by
    rintro ⟨query, console, id, authenticated, old⟩ n timeout ⟨hwired, hsound⟩
    refine ⟨⟨⟨?_, ?_⟩, fun hauth => ?_⟩, .refl _⟩
    · rintro query' hquery'
      obtain ⟨before, hbefore, rfl⟩ := Option.map_eq_some_iff.1 hquery'
      exact hwired.query before hbefore
    · rintro console' hconsole'
      obtain ⟨before, hbefore, rfl⟩ := Option.map_eq_some_iff.1 hconsole'
      exact hwired.console before hbefore
    · obtain ⟨before, stream, hbefore, hstream, haccepted⟩ := hsound hauth
      exact ⟨_, stream, Option.map_eq_some_iff.2 ⟨before, hbefore, rfl⟩, hstream, haccepted⟩
  openSockets := SourceSession.harmless_openSockets
  disconnect := SourceSession.harmless_disconnect
  authenticate := SourceSession.harmless_authenticate

/-- A session with a Source server that is as it should be. -/
def EngineSession.Coherent (w : EngineSession × Network) : Prop :=
  ∃ s, w.1 = .source s ∧ SourceSession.Coherent (s, w.2)

namespace EngineSession

theorem openSockets_ends (peer : SocketAddress) (s : SourceSession) (n : Network) :
    Ends (byEngine (SourceSession.openSockets peer) (GoldSrcSession.openSockets peer))
      (source s, n) fun _ v => Coherent v ∧ AddsNoCommand n.history v.2.history := by
  refine ends_state_bind (Ends.on rfl ((SourceSession.openSockets_ends peer _).imp ?_))
  exact fun r v hv => ⟨⟨v.1, rfl, hv.1⟩, hv.2⟩

end EngineSession

namespace GameServer

/-- A client of a Source server whose session is as it should be. -/
def Coherent (w : GameServer × Network) : Prop := EngineSession.Coherent (w.1.engine, w.2)

def ConnectionCoherent (w : Connection EngineSession × Network) : Prop :=
  EngineSession.Coherent (w.1.owner, w.2)

theorem harmless_of_onSource {α : Type} {d : Dialog GameServer α}
    (hd : Moves (OnSource (Harmless SourceSession.Coherent) engine) d) :
    Moves (Harmless Coherent) d := by
  refine fun w => (hd w).imp ?_
  rintro r v hv ⟨s, hs, hcoherent⟩
  obtain ⟨s', hs', hharmless⟩ := hv s hs
  obtain ⟨hcoherent', hnew⟩ := hharmless hcoherent
  exact ⟨⟨s', hs', hcoherent'⟩, hnew⟩

/-! ## Operations with a command -/

/-- What an operation leaves behind: all its commands have been authorized, and the session is
sound unless a stream has been shut down under one of them and the outcome does not say so. -/
def AfterStep (old : List Event) (v : GameServer × Network) (reported : Prop) : Prop :=
  ∃ s, v.1.engine = .source s ∧ SourceSession.AfterCommand old (s, v.2) reported

theorem afterStep_of_coherent {old : List Event} {v : GameServer × Network} {reported : Prop}
    (hv : Coherent v) (hnew : AddsNoCommand old v.2.history) : AfterStep old v reported := by
  obtain ⟨s, hs, hwired, hsound⟩ := hv
  refine ⟨s, hs, hwired, hnew.suffix, hnew.commandsAuthorized, ?_⟩
  exact iff_of_true hsound fun hlost => hnew.not_closedUnderCommand hlost.2

theorem AfterStep.of_addsNoCommand {old mid : List Event} {v : GameServer × Network}
    {reported : Prop} (h : AfterStep mid v reported) (hmid : AddsNoCommand old mid) :
    AfterStep old v reported := by
  obtain ⟨s, hs, hwired, hsuffix, hauthorized, hsound⟩ := h
  refine ⟨s, hs, hwired, hmid.suffix.trans hsuffix,
    hmid.commandsAuthorized.trans hauthorized hsuffix, ?_⟩
  rw [hmid.closedUnderCommand_iff hsuffix]
  exact hsound

theorem execute_ends (command : String) {w : GameServer × Network} (hw : Coherent w) :
    Ends (execute command) w fun r v =>
      AfterStep w.2.history v (r = .error .notAuthenticated) := by
  obtain ⟨⟨⟨endpoint, owner⟩, cache⟩, n⟩ := w
  obtain ⟨s, howner, hs⟩ := hw
  obtain rfl : owner = .source s := howner
  have hsession := SourceSession.execute_ends command hs
  refine Ends.on rfl (ends_state_bind (Ends.on rfl (hsession.imp fun r v hv => ?_)))
  exact ⟨v.1, rfl, hv⟩

theorem mergeStatus_ends (output : String) (w : GameServer × Network) :
    Ends (mergeStatus output) w fun r v => v.1.engine = w.1.engine ∧
      v.2.history = w.2.history ∧ r ≠ .error .notAuthenticated := by
  obtain h | ⟨rows, log, -, h⟩ := mergeStatus_cases output w
  · exact ends_of_error h ⟨rfl, rfl, nofun⟩
  · exact ends_of_ok h ⟨rfl, rfl, nofun⟩

theorem askStatus_ends {w : GameServer × Network} (hw : Coherent w) :
    Ends (do mergeStatus (← execute "status")) w fun r v =>
      AfterStep w.2.history v (r = .error .notAuthenticated) := by
  refine (execute_ends "status" hw).bind ?_ ?_
  · rintro output v ⟨s, hs, hv⟩
    refine (mergeStatus_ends output v).imp ?_
    rintro r u ⟨hengine, hhistory, hr⟩
    refine ⟨s, hengine.trans hs, hv.isWired, ?_, ?_, ?_⟩
    · exact hhistory ▸ hv.suffix
    · exact hhistory ▸ hv.authorized
    · have hsound := hv.isSound_iff
      simp only [reduceCtorEq, hr, not_false_eq_true, true_and] at hsound ⊢
      rw [hhistory]
      exact hsound
  · rintro e v ⟨s, hs, hv⟩
    refine ⟨s, hs, hv.isWired, hv.suffix, hv.authorized, ?_⟩
    simpa only [Except.error.injEq] using hv.isSound_iff

theorem afterStep_bind {α β : Type} {d : Dialog GameServer α} {f : α → Dialog GameServer β}
    (hd : Moves (Harmless Coherent) d)
    (hf : ∀ a v, Coherent v → Ends (f a) v fun r u =>
      AfterStep v.2.history u (r = .error .notAuthenticated))
    {w : GameServer × Network} (hw : Coherent w) :
    Ends (d >>= f) w fun r v => AfterStep w.2.history v (r = .error .notAuthenticated) := by
  refine (hd w).bind (fun a v hv => ?_) fun e v hv => ?_
  · exact (hf a v (hv hw).1).imp fun r u hu => hu.of_addsNoCommand (hv hw).2
  · exact afterStep_of_coherent (hv hw).1 (hv hw).2

theorem extendPlayers_ends (password : String) {w : GameServer × Network} (hw : Coherent w) :
    Ends (extendPlayers password) w fun r v =>
      AfterStep w.2.history v (r = .error .notAuthenticated) := by
  refine afterStep_bind moves_state (fun s v hv => ?_) hw
  split
  · exact askStatus_ends hv
  · refine afterStep_bind (harmless_of_onSource (onSource_authenticate
      SourceSession.carries_harmless password)) (fun accepted u hu => ?_) hv
    split
    · exact askStatus_ends hu
    · exact afterStep_of_coherent hu (.refl _)

theorem updatePlayers_ends (password : String) {w : GameServer × Network} (hw : Coherent w) :
    Ends (updatePlayers (some password)) w fun r v =>
      AfterStep w.2.history v (r = .error .notAuthenticated) := by
  refine afterStep_bind (harmless_of_onSource (onSource_update
    SourceSession.carries_harmless .players)) (fun _ v hv => ?_) hw
  refine afterStep_bind moves_state (fun s u hu => ?_) hv
  split
  · exact afterStep_of_coherent hu (.refl _)
  · exact extendPlayers_ends password hu

/-! ## Runs -/

/-- A stream is shut down under a command of an operation, and the outcome does not say that the
session is lost. -/
def Operation.LosesSession (op : Operation) (w : GameServer × Network) : Prop :=
  Ends op.perform w fun r v =>
    r ≠ .error .notAuthenticated ∧ ClosedUnderCommand w.2.history v.2.history

/-- If commands are said to be possible, then the stream to the console is open, and on this very
stream a password has been accepted that was sent with the id of the session. -/
def IsSound (w : GameServer × Network) : Prop :=
  w.1.engine.authenticated = true → ∃ s console stream, w.1.engine = .source s ∧
    s.console = some console ∧ console.stream = some stream ∧
    AcceptedOn stream.peer s.requestId w.2.history

theorem isSound_iff {w : GameServer × Network} {s : SourceSession} (hs : w.1.engine = .source s) :
    IsSound w ↔ s.IsSound w.2.history := by
  simp only [IsSound, SourceSession.IsSound, hs, EngineSession.authenticated,
    EngineSession.source.injEq, exists_and_left, exists_eq_left']

def isConsoleOpen (w : GameServer × Network) : Bool :=
  match w.1.engine with
  | .source s => s.console.any (·.isConnected)
  | .goldSrc _ => false

theorem IsSound.isConsoleOpen {w : GameServer × Network} (h : IsSound w)
    (hauth : w.1.engine.authenticated = true) : isConsoleOpen w = true := by
  obtain ⟨s, console, stream, hs, hconsole, hstream, -⟩ := h hauth
  simp [GameServer.isConsoleOpen, hs, hconsole, ConsoleChannel.isConnected, hstream]

theorem Coherent.isSound {w : GameServer × Network} (h : Coherent w) : IsSound w := by
  obtain ⟨s, hs, -, hsound⟩ := h
  exact (isSound_iff hs).2 hsound

theorem perform_ends (op : Operation) {w : GameServer × Network} (hw : Coherent w) :
    Ends op.perform w fun r v => AfterStep w.2.history v (r = .error .notAuthenticated) := by
  have quiet (hexecute : ∀ command, op ≠ .execute command)
      (hplayers : ∀ password, op ≠ .updatePlayers (some password)) :
      Ends op.perform w fun r v => AfterStep w.2.history v (r = .error .notAuthenticated) := by
    have hharmless := harmless_of_onSource
      (onSource_perform SourceSession.carries_harmless hexecute hplayers)
    exact (hharmless w).imp fun _ _ hv => afterStep_of_coherent (hv hw).1 (hv hw).2
  cases op with
  | execute command =>
    refine Ends.discard ((execute_ends command hw).imp fun r v hv => ?_)
    cases r with
    | ok text => simpa only [Except.map, reduceCtorEq] using hv
    | error e => simpa only [Except.map, Except.error.injEq] using hv
  | updatePlayers password =>
    cases password with
    | none => exact quiet nofun nofun
    | some password => exact updatePlayers_ends password hw
  | _ => exact quiet nofun nofun

theorem after_cases (op : Operation) {w : GameServer × Network} (hw : Coherent w) :
    w.2.history <:+ (op.after w).2.history ∧
    CommandsAuthorized w.2.history (op.after w).2.history ∧
    (IsSound (op.after w) → Coherent (op.after w)) ∧
    (IsSound (op.after w) ↔ ¬ op.LosesSession w) := by
  have h := perform_ends op hw
  rw [Operation.LosesSession, Operation.after]
  simp only [Ends] at h ⊢
  split at h
  all_goals
    next hv =>
    simp only [hv]
    obtain ⟨s, hs, hwired, hsuffix, hauthorized, hsound⟩ := h
    rw [isSound_iff hs]
    exact ⟨hsuffix, hauthorized, fun h' => ⟨s, hs, hwired, h'⟩, hsound⟩

/-- As long as no session is lost, a run keeps the session coherent and its commands are
authorized. -/
theorem run_coherent (ops : List Operation) {w : GameServer × Network} (hw : Coherent w)
    (hkeep : ∀ before op rest, ops = before ++ op :: rest → ¬ op.LosesSession (run before w)) :
    Coherent (run ops w) ∧ w.2.history <:+ (run ops w).2.history ∧
      CommandsAuthorized w.2.history (run ops w).2.history := by
  induction ops generalizing w with
  | nil => exact ⟨hw, List.suffix_rfl, .refl _⟩
  | cons op ops ih =>
    obtain ⟨hsuffix, hauthorized, hcoherent, hsound⟩ := after_cases op hw
    have hop : Coherent (op.after w) := hcoherent (hsound.2 (hkeep [] op ops rfl))
    obtain ⟨hlast, hsuffix', hauthorized'⟩ := ih hop fun before op' rest heq =>
      hkeep (op :: before) op' rest (by rw [heq, List.cons_append])
    exact ⟨hlast, hsuffix.trans hsuffix', hauthorized.trans hauthorized' hsuffix'⟩

theorem no_loss_of_sound (ops : List Operation) {w : GameServer × Network} (hw : Coherent w)
    (hsound : ∀ before, before <+: ops → IsSound (run before w)) :
    ∀ before op rest, ops = before ++ op :: rest → ¬ op.LosesSession (run before w) := by
  induction ops generalizing w with
  | nil => exact fun before op rest heq => absurd heq (by simp)
  | cons op ops ih =>
    obtain ⟨-, -, hcoherent, hiff⟩ := after_cases op hw
    have hop : IsSound (op.after w) := hsound [op] ⟨ops, rfl⟩
    intro before op' rest heq
    cases before with
    | nil =>
      obtain ⟨rfl, rfl⟩ := List.cons.inj heq
      exact hiff.1 hop
    | cons first before =>
      obtain ⟨rfl, rfl⟩ := List.cons.inj heq
      exact ih (hcoherent hop) (fun before' hstart => hsound (op :: before') (by simpa using hstart))
        before op' rest rfl

theorem connect_coherent {σ : Type} {endpoint : Endpoint} {session : SourceSession}
    {w v : σ × Network} {server : GameServer}
    (h : connect endpoint (.source session) w = .ok server v) :
    Coherent (server, v.2) ∧ AddsNoCommand w.2.history v.2.history := by
  obtain ⟨connection, u, hestablish, h⟩ := bind_eq_ok h
  cases h
  have hopen : Ends Connection.reconnect ((⟨endpoint, .source session⟩, w.2) :
      Connection EngineSession × Network) fun _ v =>
      ConnectionCoherent v ∧ AddsNoCommand w.2.history v.2.history := by
    refine ends_state_bind (Ends.on rfl ?_)
    exact EngineSession.openSockets_ends endpoint.address session w.2
  exact hopen.of_eq_ok (build_eq_ok hestablish).1

/-- In a run of a client of a Source server the session is sound wherever an operation ends, and
every command is authorized, exactly if no operation loses the session. -/
theorem sound_and_authorized_iff {σ : Type} {endpoint : Endpoint} {session : SourceSession}
    {start v : σ × Network} {server : GameServer}
    (h : connect endpoint (.source session) start = .ok server v) (ops : List Operation) :
    ((∀ before, before <+: ops → IsSound (run before (server, v.2))) ∧
      CommandsAuthorized start.2.history (run ops (server, v.2)).2.history) ↔
    ∀ before op rest, ops = before ++ op :: rest →
      ¬ op.LosesSession (run before (server, v.2)) := by
  obtain ⟨hcoherent, hnew⟩ := connect_coherent h
  refine ⟨fun hsound => no_loss_of_sound ops hcoherent hsound.1, fun hkeep => ⟨?_, ?_⟩⟩
  · rintro before ⟨rest, rfl⟩
    refine (run_coherent before hcoherent fun before' op rest' heq => ?_).1.isSound
    exact hkeep before' op (rest' ++ rest) (by rw [heq, List.append_assoc, List.cons_append])
  · obtain ⟨-, hsuffix, hauthorized⟩ := run_coherent ops hcoherent hkeep
    exact hnew.commandsAuthorized.trans hauthorized hsuffix

section Reset

/-- A console that accepts every password and resets the stream at the first command. -/
def resettingWorld : World where
  connect _ _ _ := none
  react _ transport _ bytes :=
    if transport = .tcp ∧ Rcon.frameKind bytes = Rcon.Request.authKind.toUInt32.toNat then
      .ok [.data (Rcon.frameBytes 1 Rcon.ReplyKind.auth.number [])]
    else .error .reset
  resolve _ := none
  sessionId _ := 1

def localEndpoint : Endpoint where
  host := "127.0.0.1"
  addresses := [.v4 ⟨⟨127, 0, 0, 1⟩, gamePort⟩]
  active := 0
  active_lt := Nat.one_pos

theorem sound_and_authorized_iff_reset : ∃ server v,
    connect localEndpoint (.source {}) ((), { world := resettingWorld }) = .ok server v ∧
    (((∀ before, before <+: [.authenticate "secret"] → IsSound (run before (server, v.2))) ∧
      CommandsAuthorized [] (run [.authenticate "secret"] (server, v.2)).2.history) ↔
    ∀ before op rest, [Operation.authenticate "secret"] = before ++ op :: rest →
      ¬ op.LosesSession (run before (server, v.2))) := by
  have hconnect : ∃ server v, connect localEndpoint (.source {})
      ((), { world := resettingWorld }) = .ok server v := ⟨_, _, rfl⟩
  obtain ⟨server, v, h⟩ := hconnect
  exact ⟨server, v, h, sound_and_authorized_iff h _⟩

/-- The first command that is reset leaves a session that still claims to be authenticated, and
the second is sent over a new stream without a password. -/
theorem reset_leaves_session_unsound : ∃ server v,
    connect localEndpoint (.source {}) ((), { world := resettingWorld }) = .ok server v ∧
    ¬ IsSound (run [.authenticate "secret", .execute "status"] (server, v.2)) ∧
    ¬ CommandsAuthorized [] (run [.authenticate "secret", .execute "status", .execute "status"]
      (server, v.2)).2.history := by
  refine ⟨_, _, rfl, fun hsound => ?_, fun hauthorized => ?_⟩
  · have hopen := hsound.isConsoleOpen (by decide +kernel)
    exact absurd hopen (by decide +kernel)
  · generalize hrun : run _ _ = u at hauthorized
    let peer := localEndpoint.address
    have htake : u.2.history.take 3 = [.closed peer,
        .sent .tcp peer (Rcon.Request.exec 1 "status").bytes, .connected .tcp peer none] := by
      rw [← hrun]
      decide +kernel
    have hhistory := List.take_append_drop 3 u.2.history
    rw [htake] at hhistory
    exact hauthorized.not_breaks ⟨[.closed peer], hhistory⟩ List.nil_suffix
      (Event.isCommand_exec peer 1 "status") trivial

end Reset

end GameServer

end GameQuery
