import GameQuery.Proofs.CommandOutput
import GameQuery.Proofs.SessionSafety

namespace GameQuery

/-!
# Late answers

Whatever a client does, the console stream of its session stays in step. So in every run a command
prints what the server owes from earlier, and then what the command asks for. What is owed is late,
since the command that has asked for it has failed.
-/

open Dialog

namespace SourceSession

/-! ## Sessions stay in step -/

theorem IsClean.later {s s' : SourceSession} {n m : Network} (h : IsClean (s, n))
    (hquery : s'.query = s.query ∨ s'.query = none)
    (hconsole : s'.console = s.console ∨ s'.console = none)
    (hlater : ∀ c, ConsoleChannel.IsClean (c, n) → ConsoleChannel.IsClean (c, m)) :
    IsClean (s', m) where
  query query hs := by
    change s'.query = some query at hs
    rcases hquery with hsame | hnone
    · exact h.query query (hsame ▸ hs)
    · rw [hnone] at hs
      cases hs
  console console hs := by
    change s'.console = some console at hs
    rcases hconsole with hsame | hnone
    · exact hlater console (h.console console (hsame ▸ hs))
    · rw [hnone] at hs
      cases hs

theorem keeps_modifyState {f : SourceSession → SourceSession}
    (hquery : ∀ s, (f s).query = s.query ∨ (f s).query = none)
    (hconsole : ∀ s, (f s).console = s.console ∨ (f s).console = none) :
    Moves (Keeps IsClean) (modifyState f) := by
  intro w
  exact ⟨rfl, fun hclean => hclean.later (hquery w.1) (hconsole w.1) fun _ hc => hc⟩

theorem keeps_onConsole {α : Type} {d : Dialog ConsoleChannel α}
    (hd : Moves (Keeps ConsoleChannel.IsClean) d) : Moves (Keeps IsClean) (on consolePart d) := by
  rintro ⟨⟨query, console, id, authenticated, timeout⟩, n⟩
  cases console with
  | none => exact ends_on_none rfl (Std.Refl.refl _)
  | some console =>
    refine Ends.on rfl ((hd (console, n)).imp fun r v hv => ⟨hv.1, fun hclean => ?_⟩)
    refine ⟨hclean.query, ?_⟩
    rintro console' ⟨⟩
    exact hv.2 (hclean.console console rfl)

theorem keeps_note (level : LogLevel) (text : String) :
    Moves (Keeps IsClean) (note level text : Dialog SourceSession Unit) :=
  fun _ => ⟨rfl, fun hclean => hclean.later (.inl rfl) (.inl rfl) fun _ hc => hc⟩

theorem keeps_disconnect : Moves (Keeps IsClean) disconnect := by
  refine moves_state.bind fun s => ?_
  split
  · refine (keeps_onConsole ConsoleChannel.keeps_close).bind fun _ => ?_
    exact keeps_modifyState (fun _ => .inr rfl) fun _ => .inr rfl
  · exact keeps_modifyState (fun _ => .inr rfl) fun _ => .inr rfl

theorem sameWorld_openSockets (peer : SocketAddress) : Moves SameWorld (openSockets peer) := by
  refine Moves.bind (fun w => (keeps_disconnect w).imp fun _ _ hv => hv.1) fun _ => ?_
  refine Moves.bind ?_ fun query => sameWorld_modifyState _
  refine Moves.bind ?_ fun channel => moves_pure _
  exact (sameWorld_connect _ _).bind fun socket => moves_pure _

theorem isClean_of_no_channels {w : SourceSession × Network} (hquery : w.1.query = none)
    (hconsole : w.1.console = none) : IsClean w where
  query query hs := by
    rw [hquery] at hs
    cases hs
  console console hs := by
    rw [hconsole] at hs
    cases hs

theorem openSockets_clean (peer : SocketAddress) (w : SourceSession × Network) :
    Ends (openSockets peer) w fun _ v => IsClean v := by
  refine (disconnect_ends w).bind ?_ ?_
  · rintro _ v ⟨hq, hc, -⟩
    refine (QueryChannel.connect_ends peer .source v).bind ?_ ?_
    · rintro query u ⟨hu, hquery, -⟩
      constructor
      · rintro query' ⟨⟩
        change query.socket.transport = .udp
        rw [hquery]
      · rintro console ⟨⟩
        exact .inl rfl
    · rintro e u ⟨hu, -⟩
      exact isClean_of_no_channels (hu ▸ hq) (hu ▸ hc)
  · rintro e v ⟨hq, hc, -⟩
    exact isClean_of_no_channels hq hc

theorem keeps_authFrame : Moves (Keeps ConsoleChannel.IsClean) authFrame := by
  refine (ConsoleChannel.keeps_reply none).bind fun r => ?_
  cases r with
  | none => exact moves_throw _
  | some r => exact moves_pure _

theorem keeps_authenticate (password : String) : Moves (Keeps IsClean) (authenticate password) := by
  have hask : ∀ id, Moves (Keeps ConsoleChannel.IsClean) (askPassword id password) := by
    intro id
    refine ConsoleChannel.keeps_close.bind fun _ => (ConsoleChannel.keeps_send _).bind fun _ => ?_
    refine keeps_authFrame.bind fun first => ?_
    split
    · exact keeps_authFrame
    · exact moves_pure _
  refine moves_network.bind fun n => ?_
  refine Moves.bind (keeps_modifyState (fun _ => .inl rfl) fun _ => .inl rfl) fun _ => ?_
  refine (keeps_onConsole (hask _)).bind fun r => ?_
  split
  · exact moves_throw _
  · refine Moves.bind (keeps_modifyState (fun _ => .inl rfl) fun _ => .inl rfl) fun _ => ?_
    split
    · exact moves_pure _
    · exact (keeps_note _ _).bind fun _ => moves_pure _

theorem keeps_frame : Moves (Keeps IsClean) frame := by
  refine moves_state.bind fun s => ?_
  refine (keeps_onConsole (ConsoleChannel.keeps_reply none)).bind fun r => ?_
  cases r with
  | none =>
    refine Moves.bind (keeps_modifyState (fun _ => .inl rfl) fun _ => .inl rfl) fun _ => ?_
    exact moves_throw _
  | some r =>
    simp only
    split
    · refine Moves.bind (keeps_modifyState (fun _ => .inl rfl) fun _ => .inl rfl) fun _ => ?_
      exact (keeps_onConsole ConsoleChannel.keeps_close).bind fun _ => moves_throw _
    · exact moves_pure _

theorem keeps_execute (command : String) : Moves (Keeps IsClean) (execute command) := by
  have hsend : ∀ r, Moves (Keeps IsClean) (on consolePart (ConsoleChannel.send r)) :=
    fun r => keeps_onConsole (ConsoleChannel.keeps_send r)
  have houtput : Moves (Keeps IsClean) output :=
    Moves.iterate outputPass_again () fun _ => keeps_frame.bind fun r => moves_pure _
  have htake : Moves (Keeps IsClean) takeEcho := by
    refine Moves.bind (fun w => (keeps_frame w).outcome) fun r => ?_
    split
    · exact moves_pure _
    · exact moves_pure _
    · exact moves_throw _
  have hcollect : ∀ answer, Moves (Keeps IsClean) (collect answer) := by
    refine fun answer => Moves.iterate collectPass_again answer fun text => ?_
    refine keeps_frame.bind fun r => ?_
    split
    · exact moves_pure _
    · split
      · exact htake.bind fun _ => moves_pure _
      · exact moves_pure _
  refine moves_state.bind fun s => ?_
  split
  · refine (hsend _).bind fun _ => houtput.bind fun first => ?_
    split
    · exact moves_pure _
    · exact (hsend _).bind fun _ => (hcollect _).bind fun answer => moves_pure _
  · exact moves_throw _

theorem carries_keeps : Carries (Keeps IsClean) where
  quiet s n m hworld hhistory := by
    refine ⟨hworld, fun hclean => hclean.later (.inl rfl) (.inl rfl) fun c hc => ?_⟩
    refine hc.imp_right ?_
    rintro ⟨taken, hstep⟩
    have hsame : m.history = [] ++ n.history := hhistory
    exact ⟨taken, hstep.later hworld hsame (fun _ he => nomatch he) rfl⟩
  query s n m before query hs hlater := by
    refine ⟨hlater.world, fun hclean => ?_⟩
    have hudp := hclean.query before hs
    obtain ⟨new, hnew, hon⟩ := hlater.history
    rw [hudp] at hon
    constructor
    · rintro query' ⟨⟩
      exact hlater.transport.trans hudp
    · intro console hconsole
      refine (hclean.console console hconsole).imp_right ?_
      rintro ⟨taken, hstep⟩
      exact ⟨taken, hstep.later hlater.world hnew (fun e he => (hon e he).asksNothing)
        (receivedBytes_of_isOn_udp hon)⟩
  setTimeout := by
    rintro ⟨query, console, id, authenticated, old⟩ n timeout
    refine ⟨rfl, fun hclean => ⟨fun query' hs => ?_, fun console' hs => ?_⟩⟩
    · obtain ⟨before, rfl, rfl⟩ := Option.map_eq_some_iff.1 hs
      exact hclean.query before rfl
    · obtain ⟨before, rfl, rfl⟩ := Option.map_eq_some_iff.1 hs
      exact hclean.console before rfl
  openSockets peer w :=
    ((sameWorld_openSockets peer w).and (openSockets_clean peer w)).imp
      fun _ _ hv => ⟨hv.1, fun _ => hv.2⟩
  disconnect := keeps_disconnect
  authenticate := keeps_authenticate

end SourceSession

namespace GameServer

/-- What a server owes to a client, and the client has not received. -/
def Owes (answer : List Event → SocketAddress → List UInt8 → List Rcon.Reply)
    (w : GameServer × Network) (debt : List Rcon.Reply) : Prop :=
  ∃ s, w.1.engine = .source s ∧ SourceSession.Owes answer (s, w.2) debt

theorem connect_clean {σ : Type} {endpoint : Endpoint} {session : SourceSession}
    {w v : σ × Network} {server : GameServer}
    (h : connect endpoint (.source session) w = .ok server v) :
    ∃ s, server.engine = .source s ∧ SourceSession.IsClean (s, v.2) := by
  obtain ⟨connection, u, hestablish, h⟩ := bind_eq_ok h
  cases h
  have hopen : Ends (EngineSession.byEngine (SourceSession.openSockets endpoint.address)
      (GoldSrcSession.openSockets endpoint.address)) (.source session, w.2) fun _ v =>
      ∃ s, v.1 = .source s ∧ SourceSession.IsClean (s, v.2) := by
    refine ends_state_bind (Ends.on rfl ?_)
    refine (SourceSession.openSockets_clean endpoint.address (session, w.2)).imp fun r v hv => ?_
    exact ⟨v.1, rfl, hv⟩
  have hconnect : Ends Connection.reconnect ((⟨endpoint, .source session⟩, w.2) :
      Connection EngineSession × Network) fun _ v =>
      ∃ s, v.1.owner = .source s ∧ SourceSession.IsClean (s, v.2) :=
    ends_state_bind (Ends.on rfl hopen)
  exact hconnect.of_eq_ok (build_eq_ok hestablish).1

/-- In a run against a server that answers in order, the output of a command is what the server
still owes, up to a closing frame, and then what it answers to the command itself. -/
theorem output_of_command {σ : Type} {endpoint : Endpoint} {session : SourceSession}
    {start v : σ × Network} {server : GameServer}
    {answer : List Event → SocketAddress → List UInt8 → List Rcon.Reply}
    (h : connect endpoint (.source session) start = .ok server v)
    (hserver : v.2.world.AnswersInOrder answer) (ops : List Operation) {command text : String}
    {u : GameServer × Network} (hexec : execute command (run ops (server, v.2)) = .ok text u) :
    ∃ debt new, Owes answer (run ops (server, v.2)) debt ∧
      u.2.history = new ++ (run ops (server, v.2)).2.history ∧
      text = SourceSession.outputText (Rcon.printed debt ++
        if debt.any Rcon.Reply.isClosing then []
        else Rcon.printed (answersTo answer (run ops (server, v.2)).2.history new)) := by
  obtain ⟨s, hs, hclean⟩ := connect_clean h
  obtain ⟨s', hs', hworld, hkeeps⟩ := onSource_run SourceSession.carries_keeps
    SourceSession.keeps_execute ops (server, v.2) s hs
  generalize run ops (server, v.2) = w at hexec hs' hworld hkeeps ⊢
  obtain ⟨⟨⟨endpoint', owner⟩, cache⟩, n⟩ := w
  obtain rfl : owner = .source s' := hs'
  obtain ⟨engine, v', hengine, hby, rfl⟩ := on_eq_ok hexec
  cases hengine
  obtain ⟨e, v'', hstate, hby⟩ := bind_eq_ok hby
  cases hstate
  obtain ⟨source, x, hsource, hcommand, rfl⟩ := on_eq_ok hby
  cases hsource
  have hserver' : n.world.AnswersInOrder answer := by
    rw [show n.world = v.2.world from hworld]
    exact hserver
  obtain ⟨debt, new, howes, hhistory, rfl⟩ :=
    SourceSession.printed_of_execute hserver' (hkeeps hclean) hcommand
  exact ⟨debt, new, ⟨s', rfl, howes⟩, hhistory, by rw [Rcon.printed_append]⟩

section Slow

/-- The bytes of the frames of some replies. -/
def framesOf (replies : List Rcon.Reply) : List UInt8 :=
  replies.flatMap fun r => Rcon.frameBytes r.id r.kind.number r.bodyBytes

/-- The answers of a console that knows two commands. -/
def slowAnswer (_ : List Event) (_ : SocketAddress) (bytes : List UInt8) : List Rcon.Reply :=
  if bytes = (Rcon.Request.exec 1 "users").bytes then [.output 1 "ann"]
  else if bytes = (Rcon.Request.exec 1 "maps").bytes then [.output 1 "dust"]
  else if bytes = (Rcon.Request.terminator 1).bytes then [.output 1 "", .terminatorEcho 1]
  else [{ id := 1, kind := .auth, body := "" }]

/-- What the console holds back: it is slow to answer the first command. -/
def heldBack : List Event → List Rcon.Reply
  | [] => []
  | .connected .tcp _ none :: _ | .closed _ :: _ => []
  | .sent .tcp peer bytes :: history =>
    if bytes = (Rcon.Request.exec 1 "users").bytes then
      heldBack history ++ slowAnswer history peer bytes
    else []
  | _ :: history => heldBack history

def slowWorld : World where
  connect _ _ _ := none
  react history _ peer bytes :=
    if bytes = (Rcon.Request.exec 1 "users").bytes then .ok []
    else .ok [.data (framesOf (heldBack history ++ slowAnswer history peer bytes))]
  resolve _ := none
  sessionId _ := 1

theorem areFrames_slowAnswer (history : List Event) (peer : SocketAddress) (bytes : List UInt8) :
    Rcon.AreFrames (framesOf (slowAnswer history peer bytes)) (slowAnswer history peer bytes) := by
  have hcons : ∀ (r : Rcon.Reply) (rs : List Rcon.Reply),
      Rcon.IsFrame (Rcon.frameBytes r.id r.kind.number r.bodyBytes) r →
      Rcon.AreFrames (framesOf rs) rs → Rcon.AreFrames (framesOf (r :: rs)) (r :: rs) :=
    fun r rs hr hrs => .cons hr hrs
  have houtput : ∀ text ∈ ["ann", "dust", ""], Rcon.IsFrame (Rcon.frameBytes 1
      Rcon.ReplyKind.value.number (Text.Utf8.encode text)) (.output 1 text) := by
    intro text htext
    apply Rcon.Reply.isFrame_output
    · revert text
      decide
    · revert text
      decide
  have hauth : Rcon.IsFrame (Rcon.frameBytes 1 Rcon.ReplyKind.auth.number [])
      { id := 1, kind := .auth, body := "" } := by
    have hsplit : splitAtNul ([] ++ [0, 0]) = some ([], [0]) := rfl
    have hframe := Rcon.isFrame_frameBytes 1 .auth (by decide) hsplit
    have hempty : Text.Utf8.decodeLossy [] = "" := Text.Utf8.decodeLossy_encode ""
    rw [hempty] at hframe
    exact hframe
  unfold slowAnswer
  split
  · exact hcons _ _ (houtput "ann" (by decide)) .nil
  · split
    · exact hcons _ _ (houtput "dust" (by decide)) .nil
    · split
      · exact hcons _ _ (houtput "" (by decide))
          (hcons _ _ (Rcon.Reply.isFrame_terminatorEcho 1) .nil)
      · exact hcons _ _ hauth .nil

theorem slowWorld_answersInOrder : slowWorld.AnswersInOrder slowAnswer := by
  intro history
  refine ⟨framesOf (heldBack history), ?_⟩
  induction history with
  | nil => exact .nil
  | cons e history ih =>
    cases e with
    | connected transport peer failure =>
      cases transport with
      | udp => exact ih
      | tcp =>
        cases failure with
        | none => exact .nil
        | some failure => exact ih
    | sent transport peer bytes =>
      cases transport with
      | udp => exact ih
      | tcp =>
        have hall := ih.append (areFrames_slowAnswer history peer bytes)
        by_cases hheld : bytes = (Rcon.Request.exec 1 "users").bytes <;>
          simpa [inAnswer, heldBack, World.deliver, slowWorld, hheld, framesOf, Arrival.bytes] using
            hall
    | received transport peer bytes => exact ih
    | timedOut transport peer wait => exact ih
    | closed peer => exact .nil

theorem slowWorld_run : ∃ server v,
    connect localEndpoint (.source {}) ((), { world := slowWorld }) = .ok server v ∧
    v.2.world = slowWorld ∧ ∃ u new,
      execute "maps" (run [.authenticate "secret", .execute "users"] (server, v.2)) =
        .ok "anndust" u ∧
      u.2.history = new ++ (run [.authenticate "secret", .execute "users"] (server, v.2)).2.history ∧
      Rcon.printed (answersTo slowAnswer
        (run [.authenticate "secret", .execute "users"] (server, v.2)).2.history new) = ["dust"] := by
  refine ⟨_, _, rfl, rfl, ?_⟩
  generalize hrun : run _ _ = w
  have hall : (match execute "maps" w with
      | .ok text u =>
        let new := u.2.history.take (u.2.history.length - w.2.history.length)
        text = "anndust" && u.2.history = new ++ w.2.history &&
          Rcon.printed (answersTo slowAnswer w.2.history new) = ["dust"]
      | .error _ _ => false) = true := by
    rw [← hrun]
    decide +kernel
  cases hexec : execute "maps" w with
  | error e u =>
    rw [hexec] at hall
    cases hall
  | ok text u =>
    rw [hexec] at hall
    simp only [Bool.and_eq_true, decide_eq_true_eq] at hall
    obtain ⟨⟨rfl, hhistory⟩, hprinted⟩ := hall
    exact ⟨u, _, rfl, hhistory, hprinted⟩

theorem output_of_command_slow : ∃ server v,
    connect localEndpoint (.source {}) ((), { world := slowWorld }) = .ok server v ∧
    v.2.world.AnswersInOrder slowAnswer ∧ ∃ u,
      execute "maps" (run [.authenticate "secret", .execute "users"] (server, v.2)) =
        .ok "anndust" u ∧
      ∃ debt new, Owes slowAnswer (run [.authenticate "secret", .execute "users"] (server, v.2)) debt ∧
        u.2.history = new ++
          (run [.authenticate "secret", .execute "users"] (server, v.2)).2.history ∧
        "anndust" = SourceSession.outputText (Rcon.printed debt ++
          if debt.any Rcon.Reply.isClosing then []
          else Rcon.printed (answersTo slowAnswer
            (run [.authenticate "secret", .execute "users"] (server, v.2)).2.history new)) := by
  obtain ⟨server, v, hconnect, hworld, u, new, hexec, -⟩ := slowWorld_run
  have hserver : v.2.world.AnswersInOrder slowAnswer := hworld ▸ slowWorld_answersInOrder
  exact ⟨server, v, hconnect, hserver, u, hexec, output_of_command hconnect hserver _ hexec⟩

/-- The answer to the first command comes too late, and the second command prints it in front of
its own. -/
theorem late_answer_is_printed : ∃ server v,
    connect localEndpoint (.source {}) ((), { world := slowWorld }) = .ok server v ∧
    v.2.world.AnswersInOrder slowAnswer ∧ ∃ u new,
      execute "maps" (run [.authenticate "secret", .execute "users"] (server, v.2)) =
        .ok "anndust" u ∧
      u.2.history = new ++ (run [.authenticate "secret", .execute "users"] (server, v.2)).2.history ∧
      Rcon.printed (answersTo slowAnswer
        (run [.authenticate "secret", .execute "users"] (server, v.2)).2.history new) = ["dust"] := by
  obtain ⟨server, v, hconnect, hworld, hrun⟩ := slowWorld_run
  exact ⟨server, v, hconnect, hworld ▸ slowWorld_answersInOrder, hrun⟩

end Slow

end GameServer

end GameQuery
