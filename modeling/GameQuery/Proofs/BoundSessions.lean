import GameQuery.Proofs.BoundChannels
import GameQuery.Proofs.ConsoleAnswer
import GameQuery.Proofs.Credentials

namespace GameQuery

/-!
# Sessions that stay with their peer

All sockets of a session go to one peer, and all of them wait as long as the session says. Whatever
comes of what a session does, it keeps its sockets so. `openSockets_opens` says all that opening new
sockets can do.
-/

open Dialog

/-- The old sockets, if there are any, are given up, and a connection to a peer is tried once. -/
def OpensOnce (world : World) (peer : SocketAddress) (wasOpen : Bool) (old : List Event)
    (failure : Option Failure) (history : List Event) : Prop :=
  ∃ closed, (∀ e ∈ closed, ∃ p, e = .closed p) ∧ (wasOpen = false → closed = []) ∧
    failure = world.connect (closed ++ old) .udp peer ∧
    history = .connected .udp peer failure :: (closed ++ old)

/-- The outcome of trying a connection. -/
def Failure.outcome : Option Failure → Except ClientError Unit
  | none => .ok ()
  | some f => .error (.ofFailure f)

variable {peer : SocketAddress} {own : Option Nat}

namespace SourceSession

/-- The sockets of a session, if there are any, go to a peer. There are both of them or none, and
without them the session is not said to be authenticated. -/
structure IsBoundTo (peer : SocketAddress) (own : Option Nat) (s : SourceSession) : Prop where
  query : ∀ c, s.query = some c → c.IsBoundTo peer .source own
  console : ∀ c, s.console = some c → c.IsBoundTo peer own
  together : s.query.isSome = s.console.isSome
  authenticated : s.authenticated = true → s.query.isSome = true
  timeout : s.timeout = own

variable {s : SourceSession} {query : QueryChannel} {console : ConsoleChannel}

theorem isBoundTo_of_none (hquery : s.query = none) (hconsole : s.console = none)
    (hauth : s.authenticated = false) (htimeout : s.timeout = own) : s.IsBoundTo peer own := by
  obtain ⟨_, _, id, _, timeout⟩ := s
  cases hquery
  cases hconsole
  cases hauth
  exact ⟨nofun, nofun, rfl, nofun, htimeout⟩

theorem isBoundTo_of_some (hs : s.query = some query) (hs' : s.console = some console)
    (hquery : query.IsBoundTo peer .source own) (hconsole : console.IsBoundTo peer own)
    (htimeout : s.timeout = own) : s.IsBoundTo peer own := by
  obtain ⟨_, _, id, authenticated, timeout⟩ := s
  cases hs
  cases hs'
  refine ⟨?_, ?_, rfl, fun _ => rfl, htimeout⟩
  · rintro c ⟨⟩
    exact hquery
  · rintro c ⟨⟩
    exact hconsole

theorem IsBoundTo.setTimeout (h : s.IsBoundTo peer own) (timeout : Option Nat) :
    (s.setTimeout timeout).IsBoundTo peer timeout := by
  have hquery : (s.setTimeout timeout).query.isSome = s.query.isSome := Option.isSome_map
  have hconsole : (s.setTimeout timeout).console.isSome = s.console.isSome := Option.isSome_map
  refine ⟨?_, ?_, ?_, ?_, rfl⟩
  · intro c hc
    obtain ⟨d, hd, rfl⟩ := Option.map_eq_some_iff.1 hc
    exact (h.query d hd).setTimeout timeout
  · intro c hc
    obtain ⟨d, hd, rfl⟩ := Option.map_eq_some_iff.1 hc
    exact (h.console d hd).setTimeout timeout
  · rw [hquery, hconsole]
    exact h.together
  · intro hauth
    rw [hquery]
    exact h.authenticated hauth

/-- A socket in the place of another one that goes to the same peer. -/
theorem IsBoundTo.withQuery {c : QueryChannel} (h : s.IsBoundTo peer own) (hs : s.query = some c)
    (hquery : query.IsBoundTo peer .source own) :
    IsBoundTo peer own { s with query := some query } := by
  have hopen : s.query.isSome = true := Option.isSome_of_eq_some hs
  refine ⟨?_, h.console, ?_, fun _ => rfl, h.timeout⟩
  · rintro c' ⟨⟩
    exact hquery
  · exact hopen.symm.trans h.together

theorem IsBoundTo.withConsole {c : ConsoleChannel} (h : s.IsBoundTo peer own)
    (hs : s.console = some c) (hconsole : console.IsBoundTo peer own) :
    IsBoundTo peer own { s with console := some console } := by
  have hopen : s.console.isSome = true := Option.isSome_of_eq_some hs
  refine ⟨h.query, ?_, ?_, h.authenticated, h.timeout⟩
  · rintro c' ⟨⟩
    exact hconsole
  · exact h.together.trans hopen

/-- The sockets of a session go to a peer, and there are some if they are needed. -/
structure IsAttached (needed : Prop) (peer : SocketAddress) (own : Option Nat) (s : SourceSession) :
    Prop extends IsBoundTo peer own s where
  isOpen : needed → s.query.isSome = true

variable {α : Type} {needed : Prop}

theorem learns_onConsole {A : α → List Event → Prop} {d : Dialog ConsoleChannel α}
    (hd : Learns (ConsoleChannel.IsBoundTo peer own) A d) :
    Learns (IsAttached needed peer own) A (on consolePart d) :=
  hd.on (fun _ c hs hc => hs.console c hc) fun _ _ _ hs hc hc' =>
    ⟨hs.toIsBoundTo.withConsole hc hc', hs.isOpen⟩

theorem steady_onConsole {d : Dialog ConsoleChannel α}
    (hd : Moves (Steady (ConsoleChannel.IsBoundTo peer own)) d) :
    Moves (Steady (IsAttached needed peer own)) (on consolePart d) :=
  (learns_onConsole (learns_of_steady hd)).steady

theorem steady_logout (id : Int32) : Moves (Steady (IsAttached needed peer own))
    (modifyState fun s => { s with authenticated := false, requestId := id }) :=
  steady_modifyState fun _ hs => ⟨⟨hs.query, hs.console, hs.together, nofun, hs.timeout⟩, hs.isOpen⟩

theorem steady_forget : Moves (Steady (IsAttached needed peer own))
    (modifyState fun s : SourceSession => { s with authenticated := false }) :=
  steady_modifyState fun _ hs => ⟨⟨hs.query, hs.console, hs.together, nofun, hs.timeout⟩, hs.isOpen⟩

/-! ## Passwords -/

theorem steady_authFrame : Moves (Steady (ConsoleChannel.IsBoundTo peer own)) authFrame := by
  refine (ConsoleChannel.steady_reply none).bind fun r => ?_
  split
  · exact moves_pure _
  · exact moves_throw _

theorem steady_askPassword (id : Int32) (password : String) :
    Moves (Steady (ConsoleChannel.IsBoundTo peer own)) (askPassword id password) := by
  refine ConsoleChannel.steady_close.bind fun _ => ?_
  refine (ConsoleChannel.steady_send _).bind fun _ => steady_authFrame.bind fun first => ?_
  split
  · exact steady_authFrame
  · exact moves_pure _

/-- Who gets an answer from the console has a socket for it. -/
theorem on_console_isSome {d : Dialog ConsoleChannel α} (w : SourceSession × Network) :
    Ends (on consolePart d) w fun r v => ∀ a, r = .ok a → v.1.console.isSome = true := by
  obtain ⟨⟨query, _ | console, id, authenticated, timeout⟩, n⟩ := w
  · exact ends_on_none rfl nofun
  · exact Ends.on rfl (ends_of_forall fun _ _ _ _ => rfl)

theorem steady_authenticate (password : String) :
    Moves (Steady (IsAttached needed peer own)) (authenticate password) := by
  refine moves_network.bind fun n => (steady_logout _).bind fun _ => ?_
  intro w
  refine ((steady_onConsole (steady_askPassword _ password) w).and (on_console_isSome w)).bind ?_
    fun e v hv => hv.1
  rintro r v ⟨hv, hsome⟩
  have hlast : Moves (Steady (IsAttached needed peer own)) (do
      unless r.id = Int32.ofNat (n.world.sessionId n.history).toNat do
        note .info ("rcon: authentication failed (id " ++ toString r.id ++ ")")
      return decide (r.id = Int32.ofNat (n.world.sessionId n.history).toNat)) := by
    split
    · exact moves_pure _
    · exact (steady_note _ _).bind fun _ => moves_pure _
  split
  · exact ends_throw hv
  · refine ends_modifyState_bind ((hlast _).imp fun _ u hu hw => ?_)
    obtain ⟨hbound, hnew⟩ := hv hw
    have hopen : v.1.query.isSome = true := hbound.together.trans (hsome r rfl)
    have haccepted : Steady (IsAttached needed peer own) w
        ({ v.1 with authenticated := decide (r.id = Int32.ofNat
          (n.world.sessionId n.history).toNat) }, v.2) := by
      intro _
      refine ⟨⟨⟨hbound.query, hbound.console, hbound.together, ?_, hbound.timeout⟩, ?_⟩, hnew⟩
      · exact fun _ => hopen
      · exact hbound.isOpen
    exact Trans.trans haccepted hu hw

/-! ## Commands -/

/-- Some output is put together from frames that have come from a peer. -/
def OutputCame (peer : SocketAddress) (recent : List Event) (output : String) : Prop :=
  ∃ frames : List Rcon.Reply, (∀ r ∈ frames, FrameCame peer recent r) ∧
    output = outputText (frames.map (·.body))

theorem learns_frame :
    Learns (IsAttached needed peer own) (fun r new => FrameCame peer new r) frame := by
  refine learns_state_bind fun s => (learns_onConsole (ConsoleChannel.learns_reply none)).bind ?_
  rintro (_ | r) new hr
  · exact (learns_of_steady steady_forget).bind fun _ _ _ => learns_throw _
  · simp only
    split
    · refine (learns_of_steady steady_forget).bind fun _ _ _ => ?_
      exact (learns_of_steady (steady_onConsole ConsoleChannel.steady_close)).bind fun _ _ _ =>
        learns_throw _
    · exact learns_pure (hr r rfl)

theorem learns_output :
    Learns (IsAttached needed peer own) (fun r new => FrameCame peer new r) output := by
  refine learns_iterate outputPass_again (fun _ _ => True) trivial fun _ new _ => ?_
  refine learns_frame.bind fun r more hr => learns_pure ?_
  cases r.isEcho with
  | true => exact trivial
  | false => exact hr.after new

theorem steady_takeEcho : Moves (Steady (IsAttached needed peer own)) takeEcho := by
  refine learns_frame.steady.outcome.bind fun r => ?_
  split
  · exact moves_pure _
  · exact moves_pure _
  · exact moves_throw _

/-- An answer grows by the texts of frames that have come from the peer. -/
theorem learns_collect (answer : String) : Learns (IsAttached needed peer own)
    (fun text new => ∃ frames : List Rcon.Reply, (∀ r ∈ frames, FrameCame peer new r) ∧
      text = answer ++ String.join (frames.map (·.body))) (collect answer) := by
  refine learns_iterate collectPass_again (fun text new => ∃ frames : List Rcon.Reply,
    (∀ r ∈ frames, FrameCame peer new r) ∧ text = answer ++ String.join (frames.map (·.body)))
    ⟨[], List.forall_mem_nil _, String.append_empty.symm⟩ ?_
  rintro text new ⟨frames, hframes, htext⟩
  have hkept : ∀ more, ∃ frames : List Rcon.Reply, (∀ r ∈ frames, FrameCame peer (more ++ new) r) ∧
      text = answer ++ String.join (frames.map (·.body)) :=
    fun more => ⟨frames, fun r hr => (hframes r hr).append more, htext⟩
  refine learns_frame.bind fun r more hr => ?_
  split
  · exact learns_pure (hkept more)
  · split
    · refine (learns_of_steady steady_takeEcho).bind fun _ later _ => learns_pure ?_
      exact (List.append_assoc later more new) ▸ hkept (later ++ more)
    · refine learns_pure ⟨frames ++ [r], ?_, ?_⟩
      · refine List.forall_mem_append.2 ⟨fun q hq => (hframes q hq).append more, ?_⟩
        exact List.forall_mem_singleton.2 (hr.after new)
      · rw [htext, List.map_append, String.join_append, String.append_assoc]
        simp

theorem learns_execute (command : String) : Learns (IsAttached needed peer own)
    (fun output new => OutputCame peer new output) (execute command) := by
  have hsend : ∀ r, Moves (Steady (IsAttached needed peer own))
      (on consolePart (ConsoleChannel.send r)) :=
    fun r => steady_onConsole (ConsoleChannel.steady_send r)
  refine learns_state_bind fun s => ?_
  split
  · refine (learns_of_steady (hsend _)).bind fun _ sent _ => learns_output.bind ?_
    intro first new hfirst
    split
    · exact learns_pure ⟨[], List.forall_mem_nil _, rfl⟩
    · refine (learns_of_steady (hsend _)).bind fun _ ended _ => (learns_collect _).bind ?_
      rintro text more ⟨frames, hframes, rfl⟩
      refine learns_pure ⟨first :: frames, List.forall_mem_cons.2 ⟨?_, fun r hr => ?_⟩, ?_⟩
      · have hcame := ((hfirst.after sent).append ended).append more
        simpa only [List.nil_append, List.append_assoc] using hcame
      · have hcame := (hframes r hr).after (ended ++ (new ++ sent))
        simpa only [List.nil_append, List.append_assoc] using hcame
      · rw [outputText, List.map_cons, String.join_cons]
  · exact learns_throw _

/-! ## Opening sockets -/

/-- Whether there is any socket, which need not be both. -/
def holdsSocket (s : SourceSession) : Bool := s.query.isSome || s.console.isSome

theorem IsBoundTo.holdsSocket_eq (h : s.IsBoundTo peer own) : s.holdsSocket = s.query.isSome := by
  rw [holdsSocket, ← h.together, Bool.or_self]

/-- A session that has given its sockets up. -/
def disconnected (s : SourceSession) : SourceSession :=
  { s with query := none, console := none, authenticated := false }

theorem disconnect_closes (s : SourceSession) (n : Network) :
    ∃ closed, (∀ e ∈ closed, ∃ c, s.console = some c ∧ e = Event.closed c.peer) ∧
      (s.console = none → closed = []) ∧
      disconnect (s, n) = .ok () (s.disconnected, { n with history := closed ++ n.history }) := by
  obtain ⟨query, _ | ⟨peer, _ | stream, consoleTimeout⟩, id, authenticated, timeout⟩ := s
  · exact ⟨[], List.forall_mem_nil _, fun _ => rfl, rfl⟩
  · exact ⟨[], List.forall_mem_nil _, fun _ => rfl, rfl⟩
  · exact ⟨[.closed peer], List.forall_mem_singleton.2 ⟨_, rfl, rfl⟩, nofun, rfl⟩

theorem openSockets_opens (peer : SocketAddress) (s : SourceSession) (n : Network) :
    Ends (openSockets peer) (s, n) fun r v => v.1.IsBoundTo peer s.timeout ∧
      v.2.world = n.world ∧ ∃ failure,
        OpensOnce n.world peer s.holdsSocket n.history failure v.2.history ∧
        r = Failure.outcome failure ∧ v.1.query = if failure.isNone then
          some ((QueryChannel.fresh peer .source).setTimeout s.timeout) else none := by
  obtain ⟨closed, hconsole, hnone, hdisconnect⟩ := disconnect_closes s n
  have hclosed : ∀ e ∈ closed, ∃ p, e = Event.closed p := fun e he => by
    obtain ⟨c, -, hc⟩ := hconsole e he
    exact ⟨c.peer, hc⟩
  have hwas : s.holdsSocket = false → closed = [] := by
    intro h
    have hfalse : s.console.isSome = false := (Bool.or_eq_false_iff.1 h).2
    exact hnone (Option.not_isSome_iff_eq_none.1 (Bool.eq_false_iff.1 hfalse))
  have hconnect := QueryChannel.connect_eq peer .source
    (s.disconnected, { n with history := closed ++ n.history })
  refine ends_bind_of_ok hdisconnect ?_
  cases hworld : n.world.connect (closed ++ n.history) .udp peer with
  | none =>
    simp only [hworld] at hconnect
    refine ends_bind_of_ok hconnect
      ⟨?_, rfl, none, ⟨closed, hclosed, hwas, hworld.symm, rfl⟩, rfl, rfl⟩
    exact isBoundTo_of_some rfl rfl (QueryChannel.isBoundTo_fresh peer .source s.timeout)
      (ConsoleChannel.isBoundTo_of_closed peer s.timeout) rfl
  | some f =>
    simp only [hworld] at hconnect
    refine ends_of_error (bind_of_error hconnect _)
      ⟨?_, rfl, some f, ⟨closed, hclosed, hwas, hworld.symm, rfl⟩, rfl, rfl⟩
    exact isBoundTo_of_none rfl rfl rfl rfl

end SourceSession

namespace GoldSrcSession

/-- The socket of a session, if there is one, goes to a peer. -/
structure IsBoundTo (peer : SocketAddress) (own : Option Nat) (s : GoldSrcSession) : Prop where
  query : ∀ c, s.query = some c → c.IsBoundTo peer .goldSrc own
  timeout : s.timeout = own

variable {s : GoldSrcSession} {α : Type}

theorem IsBoundTo.setTimeout (h : s.IsBoundTo peer own) (timeout : Option Nat) :
    (s.setTimeout timeout).IsBoundTo peer timeout := by
  refine ⟨fun c hc => ?_, rfl⟩
  obtain ⟨d, hd, rfl⟩ := Option.map_eq_some_iff.1 hc
  exact (h.query d hd).setTimeout timeout

/-- The socket of a session goes to a peer, and there is one if it is needed. -/
structure IsAttached (needed : Prop) (peer : SocketAddress) (own : Option Nat)
    (s : GoldSrcSession) : Prop extends IsBoundTo peer own s where
  isOpen : needed → s.query.isSome = true

variable {needed : Prop}

theorem learns_onQuery {A : α → List Event → Prop} {d : Dialog QueryChannel α}
    (hd : Learns (QueryChannel.IsBoundTo peer .goldSrc own) A d) :
    Learns (IsAttached needed peer own) A (on queryPart d) := by
  refine hd.on (fun s c hs hc => hs.query c hc) fun s c c' hs _ hc' => ?_
  refine ⟨⟨?_, hs.timeout⟩, fun _ => rfl⟩
  rintro c'' ⟨⟩
  exact hc'

theorem steady_authenticate (password : String) :
    Moves (Steady (IsAttached needed peer own)) (authenticate password) :=
  Moves.bind (steady_modifyState fun _ hs => ⟨⟨hs.query, hs.timeout⟩, hs.isOpen⟩)
    fun _ => moves_pure _

/-! ## Commands -/

theorem steady_sendLine (line : ConsoleLine) :
    Moves (Steady (IsAttached needed peer own)) (sendLine line) :=
  (learns_onQuery (learns_of_steady (QueryChannel.steady_send rfl))).steady

/-- Console output has come from a peer. -/
def TextCame (peer : SocketAddress) (recent : List Event) (text : String) : Prop :=
  Came .goldSrc peer recent (.console text)

theorem learns_consoleText :
    Learns (IsAttached needed peer own) (fun text new => TextCame peer new text) consoleText := by
  refine (learns_onQuery (QueryChannel.learns_reply none)).bind fun r new hr => ?_
  split
  · exact learns_pure hr
  · exact learns_throw _

theorem steady_keepNumber (number : Option UInt32) : Moves (Steady (IsAttached needed peer own))
    (modifyState fun s : GoldSrcSession => { s with challenge := number }) :=
  steady_modifyState fun _ hs => ⟨⟨hs.query, hs.timeout⟩, hs.isOpen⟩

theorem steady_acceptNumber (text : String) :
    Moves (Steady (IsAttached needed peer own)) (acceptNumber text) := by
  unfold acceptNumber
  cases isBan text with
  | true => exact moves_throw ClientError.banned
  | false =>
    simp only [Bool.false_eq_true, if_false]
    split
    · exact moves_throw _
    · exact (steady_keepNumber _).bind fun _ => moves_pure _

theorem steady_newChallenge : Moves (Steady (IsAttached needed peer own)) newChallenge := by
  rw [newChallenge_eq]
  exact (steady_sendLine _).bind fun _ => learns_consoleText.steady.bind steady_acceptNumber

theorem steady_challengeNumber : Moves (Steady (IsAttached needed peer own)) challengeNumber := by
  refine moves_state.bind fun s => ?_
  split
  · split
    · exact steady_newChallenge
    · exact moves_pure _
  · exact steady_newChallenge

/-- An HLTV proxy may leave the first text out. -/
theorem learns_firstText : Learns (IsAttached needed peer own)
    (fun text new => text = "" ∨ TextCame peer new text) firstText := by
  refine learns_state_bind fun s => learns_consoleText.outcome.bind fun r new hr => ?_
  split
  · exact learns_pure (.inr (hr _ rfl))
  · split
    · exact learns_pure (.inl rfl)
    · exact learns_throw _

theorem learns_ask (password command : String) : Learns (IsAttached needed peer own)
    (fun first new => first.2 = "" ∨ TextCame peer new first.2) (ask password command) := by
  refine Learns.after steady_challengeNumber (fun number => ?_) ?_
  · refine Learns.after (steady_sendLine _) (fun _ => ?_) ?_
    · exact learns_firstText.bind fun text new htext => learns_pure htext
    · exact fun first more new => Or.imp_right (Came.after · new)
  · exact fun first more new => Or.imp_right (Came.after · new)

/-- The texts of an answer grow by those that have come from the peer. -/
theorem learns_rest (texts : List String) : Learns (IsAttached needed peer own)
    (fun all new => ∀ text ∈ all, text ∈ texts ∨ TextCame peer new text) (rest texts) := by
  refine learns_iterate restPass_again
    (fun all new => ∀ text ∈ all, text ∈ texts ∨ TextCame peer new text) (fun _ => .inl) ?_
  intro all new hall
  refine learns_consoleText.outcome.bind fun r more hr => ?_
  have hkept : ∀ text ∈ all, text ∈ texts ∨ TextCame peer (more ++ new) text :=
    fun text h => (hall text h).imp_right (Came.append · more)
  split
  · split
    · exact learns_pure hkept
    · exact learns_pure (List.forall_mem_cons.2 ⟨.inr ((hr _ rfl).after new), hkept⟩)
  · split
    · exact learns_pure hkept
    · exact learns_throw _

theorem learns_askAgain (password command : String) (first : UInt32 × String) :
    Learns (IsAttached needed peer own)
      (fun next new => next = first ∨ next.2 = "" ∨ TextCame peer new next.2)
      (askAgain password command first) := by
  unfold askAgain
  split
  · refine Learns.after (steady_note _ _) (fun _ => ?_) ?_
    · refine Learns.after (steady_keepNumber none) (fun _ => ?_) ?_
      · exact (learns_ask password command).imp fun _ _ => .inr
      · exact fun next more new => Or.imp_right (Or.imp_right (Came.after · new))
    · exact fun next more new => Or.imp_right (Or.imp_right (Came.after · new))
  · exact learns_pure (.inl rfl)

theorem steady_checkText (text : String) :
    Moves (Steady (IsAttached needed peer own)) (checkText text) := by
  have hforget : Moves (Steady (IsAttached needed peer own))
      (modifyState fun s : GoldSrcSession => { s with password := none }) :=
    steady_modifyState fun _ hs => ⟨⟨hs.query, hs.timeout⟩, hs.isOpen⟩
  unfold checkText
  cases isBan text with
  | true => exact moves_throw ClientError.banned
  | false =>
    simp only [Bool.false_eq_true, if_false]
    split
    · exact hforget.bind fun _ => moves_throw _
    · exact moves_pure _

/-- The output is put together from the first text and those that come behind it. -/
theorem learns_finish (number : UInt32) (password text : String) :
    Learns (IsAttached needed peer own)
      (fun output new => ∃ texts, (∀ t ∈ texts, t = text ∧ text ≠ "" ∨ TextCame peer new t) ∧
        output = String.intercalate " " texts) (finish number password text) := by
  refine (learns_of_steady (steady_checkText text)).bind fun _ checked _ => ?_
  split
  · exact learns_pure ⟨[], List.forall_mem_nil _, rfl⟩
  · next hne =>
    refine (learns_of_steady (steady_sendLine _)).bind fun _ sent _ => ?_
    refine (learns_rest [text]).bind fun texts more htexts => learns_pure ⟨texts.reverse, ?_, rfl⟩
    intro t ht
    refine (htexts t (List.mem_reverse.1 ht)).imp (fun h => ⟨List.mem_singleton.1 h, hne⟩) ?_
    intro ht
    have hcame : TextCame peer (more ++ (sent ++ checked)) t := ht.after (sent ++ checked)
    simpa only [List.nil_append, List.append_assoc] using hcame

/-- Some output is put together from texts that have come from a peer. -/
def OutputCame (peer : SocketAddress) (recent : List Event) (output : String) : Prop :=
  ∃ texts, (∀ text ∈ texts, TextCame peer recent text) ∧ output = String.intercalate " " texts

theorem learns_execute (command : String) : Learns (IsAttached needed peer own)
    (fun output new => OutputCame peer new output) (execute command) := by
  intro w hw
  cases hpassword : w.1.password with
  | none =>
    refine ends_state_bind ?_
    simp only [hpassword]
    exact learns_throw _ w hw
  | some password =>
    have hall : Learns (IsAttached needed peer own) (fun output new => OutputCame peer new output)
        (do
          let first ← ask password command
          let next ← askAgain password command first
          finish next.1 password next.2) := by
      refine (learns_ask password command).bind fun first asked hfirst => ?_
      refine (learns_askAgain password command first).bind fun next again hnext => ?_
      refine (learns_finish next.1 password next.2).imp ?_
      rintro output more ⟨texts, htexts, rfl⟩
      -- An empty text may be made up in place of one that an HLTV proxy has left out.
      have hcame : next.2 ≠ "" → TextCame peer (again ++ asked) next.2 := by
        intro hne
        rcases hnext with rfl | hempty | hcame
        · exact (hfirst.resolve_left hne).append again
        · exact absurd hempty hne
        · exact hcame.after asked
      refine ⟨texts, fun t ht => ?_, rfl⟩
      rw [List.append_assoc]
      rcases htexts t ht with ⟨rfl, hne⟩ | ht
      · exact (hcame hne).append more
      · exact ht.after (again ++ asked)
    rw [Ends, execute_of_password hpassword]
    exact hall w hw

/-! ## Opening sockets -/

theorem openSockets_opens (peer : SocketAddress) (s : GoldSrcSession) (n : Network) :
    Ends (openSockets peer) (s, n) fun r v => v.1.IsBoundTo peer s.timeout ∧
      v.2.world = n.world ∧ ∃ failure,
        OpensOnce n.world peer s.query.isSome n.history failure v.2.history ∧
        r = Failure.outcome failure ∧ v.1.query = if failure.isNone then
          some ((QueryChannel.fresh peer .goldSrc).setTimeout s.timeout) else none := by
  have hconnect := QueryChannel.connect_eq peer .goldSrc
    ({ s with query := none, password := none, challenge := none }, n)
  refine ends_modifyState_bind ?_
  cases hworld : n.world.connect n.history .udp peer with
  | none =>
    simp only [hworld] at hconnect
    refine ends_bind_of_ok hconnect ⟨⟨?_, rfl⟩, rfl, none,
      ⟨[], List.forall_mem_nil _, fun _ => rfl, hworld.symm, rfl⟩, rfl, rfl⟩
    rintro c ⟨⟩
    exact QueryChannel.isBoundTo_fresh peer .goldSrc s.timeout
  | some f =>
    simp only [hworld] at hconnect
    exact ends_of_error (bind_of_error hconnect _) ⟨⟨nofun, rfl⟩, rfl, some f,
      ⟨[], List.forall_mem_nil _, fun _ => rfl, hworld.symm, rfl⟩, rfl, rfl⟩

end GoldSrcSession

namespace EngineSession

/-- How the datagrams of a session are framed. -/
def framing : EngineSession → Framing
  | source _ => .source
  | goldSrc _ => .goldSrc

/-- How long a session waits, if not as is set for all. -/
def timeout : EngineSession → Option Nat
  | source s => s.timeout
  | goldSrc s => s.timeout

/-- All sockets of a session with some framing go to a peer. -/
def IsBoundTo (framing : Framing) (peer : SocketAddress) (own : Option Nat) : EngineSession → Prop
  | source s => framing = .source ∧ s.IsBoundTo peer own
  | goldSrc s => framing = .goldSrc ∧ s.IsBoundTo peer own

variable {e : EngineSession} {framing : Framing} {α : Type}

theorem IsBoundTo.framing_eq (h : e.IsBoundTo framing peer own) : e.framing = framing := by
  cases e with
  | source s => exact h.1.symm
  | goldSrc s => exact h.1.symm

theorem IsBoundTo.timeout_eq (h : e.IsBoundTo framing peer own) : e.timeout = own := by
  cases e with
  | source s => exact h.2.timeout
  | goldSrc s => exact h.2.timeout

theorem IsBoundTo.query {c : QueryChannel} (h : e.IsBoundTo framing peer own)
    (hc : queryPart.get? e = some c) : c.IsBoundTo peer framing own := by
  cases e with
  | source s =>
    obtain ⟨rfl, hs⟩ := h
    exact hs.query c hc
  | goldSrc s =>
    obtain ⟨rfl, hs⟩ := h
    exact hs.query c hc

theorem IsBoundTo.setTimeout (h : e.IsBoundTo framing peer own) (timeout : Option Nat) :
    (e.setTimeout timeout).IsBoundTo framing peer timeout := by
  cases e with
  | source s => exact ⟨h.1, h.2.setTimeout timeout⟩
  | goldSrc s => exact ⟨h.1, h.2.setTimeout timeout⟩

theorem queryPart_get?_put (c : QueryChannel) (e : EngineSession) :
    queryPart.get? (queryPart.put c e) = some c := by
  cases e with
  | source s => rfl
  | goldSrc s => rfl

theorem queryPart_put_put (c c' : QueryChannel) (e : EngineSession) :
    queryPart.put c' (queryPart.put c e) = queryPart.put c' e := by
  cases e with
  | source s => rfl
  | goldSrc s => rfl

theorem IsBoundTo.withQuery {c c' : QueryChannel} (h : e.IsBoundTo framing peer own)
    (hc : queryPart.get? e = some c) (hc' : c'.IsBoundTo peer framing own) :
    (queryPart.put c' e).IsBoundTo framing peer own := by
  cases e with
  | source s =>
    obtain ⟨rfl, hs⟩ := h
    exact ⟨rfl, hs.withQuery hc hc'⟩
  | goldSrc s =>
    obtain ⟨rfl, hs⟩ := h
    refine ⟨rfl, ?_, hs.timeout⟩
    rintro c'' ⟨⟩
    exact hc'

/-- The sockets of a session go to a peer, and there are some if they are needed. -/
structure IsAttached (needed : Prop) (framing : Framing) (peer : SocketAddress) (own : Option Nat)
    (e : EngineSession) : Prop where
  bound : e.IsBoundTo framing peer own
  isOpen : needed → e.isOpen = true

variable {needed : Prop}

theorem isAttached_source {s : SourceSession} :
    (source s).IsAttached needed framing peer own ↔
      framing = .source ∧ s.IsAttached needed peer own := by
  constructor
  · rintro ⟨⟨hframing, hs⟩, hopen⟩
    exact ⟨hframing, hs, hopen⟩
  · rintro ⟨hframing, hs, hopen⟩
    exact ⟨⟨hframing, hs⟩, hopen⟩

theorem isAttached_goldSrc {s : GoldSrcSession} :
    (goldSrc s).IsAttached needed framing peer own ↔
      framing = .goldSrc ∧ s.IsAttached needed peer own :=
  ⟨fun ⟨⟨hframing, hs⟩, hopen⟩ => ⟨hframing, hs, hopen⟩,
    fun ⟨hframing, hs, hopen⟩ => ⟨⟨hframing, hs⟩, hopen⟩⟩

theorem learns_byEngine {A : α → List Event → Prop} {d : Dialog SourceSession α}
    {d' : Dialog GoldSrcSession α}
    (hd : framing = .source → Learns (SourceSession.IsAttached needed peer own) A d)
    (hd' : framing = .goldSrc → Learns (GoldSrcSession.IsAttached needed peer own) A d') :
    Learns (IsAttached needed framing peer own) A (byEngine d d') := by
  rintro ⟨e, n⟩ he
  refine ends_state_bind ?_
  cases e with
  | source s =>
    obtain ⟨rfl, hs⟩ := isAttached_source.1 he
    refine Ends.on (p := sourcePart) rfl ((hd rfl (s, n) hs).imp ?_)
    rintro r v ⟨hv, hlearned⟩
    exact ⟨isAttached_source.2 ⟨rfl, hv⟩, hlearned⟩
  | goldSrc s =>
    obtain ⟨rfl, hs⟩ := isAttached_goldSrc.1 he
    refine Ends.on (p := goldSrcPart) rfl ((hd' rfl (s, n) hs).imp ?_)
    rintro r v ⟨hv, hlearned⟩
    exact ⟨isAttached_goldSrc.2 ⟨rfl, hv⟩, hlearned⟩

theorem steady_authenticate (password : String) :
    Moves (Steady (IsAttached needed framing peer own)) (authenticate password) :=
  (learns_byEngine (fun _ => learns_of_steady (SourceSession.steady_authenticate password))
    fun _ => learns_of_steady (GoldSrcSession.steady_authenticate password)).steady

/-- Some console output has come from a peer. -/
def OutputCame (framing : Framing) (peer : SocketAddress) (recent : List Event) (output : String) :
    Prop :=
  match framing with
  | .source => SourceSession.OutputCame peer recent output
  | .goldSrc => GoldSrcSession.OutputCame peer recent output

theorem OutputCame.append {recent : List Event} {output : String}
    (h : OutputCame framing peer recent output) (new : List Event) :
    OutputCame framing peer (new ++ recent) output := by
  cases framing with
  | source =>
    obtain ⟨frames, hframes, houtput⟩ := h
    exact ⟨frames, fun r hr => (hframes r hr).append new, houtput⟩
  | goldSrc =>
    obtain ⟨texts, htexts, houtput⟩ := h
    exact ⟨texts, fun text ht => Came.append (htexts text ht) new, houtput⟩

theorem OutputCame.after {recent : List Event} {output : String}
    (h : OutputCame framing peer recent output) (old : List Event) :
    OutputCame framing peer (recent ++ old) output := by
  cases framing with
  | source =>
    obtain ⟨frames, hframes, houtput⟩ := h
    exact ⟨frames, fun r hr => (hframes r hr).after old, houtput⟩
  | goldSrc =>
    obtain ⟨texts, htexts, houtput⟩ := h
    exact ⟨texts, fun text ht => Came.after (htexts text ht) old, houtput⟩

theorem learns_execute (command : String) : Learns (IsAttached needed framing peer own)
    (fun output new => OutputCame framing peer new output) (execute command) := by
  refine learns_byEngine ?_ ?_
  · rintro rfl
    exact SourceSession.learns_execute command
  · rintro rfl
    exact GoldSrcSession.learns_execute command

/-- Sockets that are given up are gone. -/
theorem disconnect_closes (h : e.IsBoundTo framing peer own) (n : Network) :
    ∃ e' closed, e'.IsBoundTo framing peer own ∧ e'.isOpen = false ∧
      (∀ event ∈ closed, event = Event.closed peer) ∧
      disconnect (e, n) = .ok () (e', { n with history := closed ++ n.history }) := by
  cases e with
  | source s =>
    obtain ⟨closed, hclosed, -, hdisconnect⟩ := SourceSession.disconnect_closes s n
    refine ⟨source s.disconnected, closed, ⟨h.1, ?_⟩, rfl, fun event hevent => ?_, ?_⟩
    · exact SourceSession.isBoundTo_of_none rfl rfl rfl h.2.timeout
    · obtain ⟨c, hc, rfl⟩ := hclosed event hevent
      rw [(h.2.console c hc).peer]
    · have hsource : on sourcePart SourceSession.disconnect (source s, n) = _ :=
        on_of_ok rfl hdisconnect
      exact hsource
  | goldSrc s =>
    refine ⟨goldSrc { s with query := none, password := none, challenge := none }, [], ?_, rfl,
      List.forall_mem_nil _, rfl⟩
    exact ⟨h.1, nofun, h.2.timeout⟩

/-- Whether there is any socket. -/
def holdsSocket : EngineSession → Bool
  | source s => s.holdsSocket
  | goldSrc s => s.query.isSome

theorem IsBoundTo.holdsSocket_eq (h : e.IsBoundTo framing peer own) : e.holdsSocket = e.isOpen := by
  cases e with
  | source s => exact h.2.holdsSocket_eq
  | goldSrc s => rfl

/-- New sockets go to the peer, and to no one else, whatever there was before. -/
theorem openSockets_opens (peer : SocketAddress) (e : EngineSession) (n : Network) :
    Ends (SocketOwner.openSockets peer) (e, n) fun r v =>
      v.1.IsBoundTo e.framing peer e.timeout ∧ v.2.world = n.world ∧ ∃ failure,
        OpensOnce n.world peer e.holdsSocket n.history failure v.2.history ∧
        r = Failure.outcome failure ∧ queryPart.get? v.1 = if failure.isNone then
          some ((QueryChannel.fresh peer e.framing).setTimeout e.timeout) else none := by
  change Ends (byEngine (SourceSession.openSockets peer) (GoldSrcSession.openSockets peer)) _ _
  refine ends_state_bind ?_
  cases e with
  | source s =>
    refine Ends.on (p := sourcePart) rfl ((SourceSession.openSockets_opens peer s n).imp ?_)
    rintro r v ⟨hbound, hworld, failure, hopens, hr, hquery⟩
    exact ⟨⟨rfl, hbound⟩, hworld, failure, hopens, hr, hquery⟩
  | goldSrc s =>
    refine Ends.on (p := goldSrcPart) rfl ((GoldSrcSession.openSockets_opens peer s n).imp ?_)
    rintro r v ⟨hbound, hworld, failure, hopens, hr, hquery⟩
    exact ⟨⟨rfl, hbound⟩, hworld, failure, hopens, hr, hquery⟩

end EngineSession

end GameQuery
