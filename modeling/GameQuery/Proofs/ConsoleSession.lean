import GameQuery.Proofs.ConsoleHistory
import GameQuery.Session.Source

namespace GameQuery

/-!
# Console sessions

A session is sound if it claims to be authenticated only on a stream on which a password has been
accepted. Everything but a command keeps a session sound, and sends no command. A command is sent
over such a stream; what it leaves behind is sound, unless the stream has been shut down under it
and the session does not say so.
-/

open Dialog

/-- What keeps a condition intact and sends no command. -/
def Harmless {σ : Type} (C : σ × Network → Prop) (w v : σ × Network) : Prop :=
  C w → C v ∧ AddsNoCommand w.2.history v.2.history

section Harmless

variable {σ : Type} {C : σ × Network → Prop}

instance : Std.Refl (Harmless C) := ⟨fun _ h => ⟨h, .refl _⟩⟩

instance : Trans (Harmless C) (Harmless C) (Harmless C) where
  trans h h' hC :=
    have hmid := h hC
    have hend := h' hmid.1
    ⟨hend.1, hmid.2.trans hend.2⟩

theorem harmless_of_ends {α : Type} {d : Dialog σ α}
    (h : ∀ w, C w → Ends d w fun _ v => C v ∧ AddsNoCommand w.2.history v.2.history) :
    Moves (Harmless C) d := by
  intro w
  by_cases hC : C w
  · exact (h w hC).imp fun _ _ hv _ => hv
  · unfold Ends
    split <;> exact fun hC' => absurd hC' hC

end Harmless

namespace ConsoleChannel

variable {w v : ConsoleChannel × Network}

/-- The stream is as it should be, if there is one. -/
def IsWired (c : ConsoleChannel) : Prop := c.stream = none ∨ c.IsOpen

theorem Closes.isWired {new : List Event} (h : Closes w v new) : v.1.IsWired := .inl h.stream

theorem Stays.isWired {new : List Event} (h : Stays w v new) : v.1.IsWired := .inr h.isOpen

theorem Stays.addsNoCommand {new : List Event} (h : Stays w v new)
    (hnew : ∀ e ∈ new, ¬ e.IsCommand) : AddsNoCommand w.2.history v.2.history :=
  ⟨new, h.history, hnew⟩

theorem Closes.addsNoCommand {new : List Event} (h : Closes w v new)
    (hnew : ∀ e ∈ new, ¬ e.IsCommand) : AddsNoCommand w.2.history v.2.history := by
  refine ⟨.closed w.1.peer :: new, h.history, fun e he => ?_⟩
  rcases List.mem_cons.1 he with rfl | he
  · exact id
  · exact hnew e he

theorem close_ends_of_wired (h : w.1.IsWired) :
    Ends close w fun r v => r = .ok () ∧ v.1.stream = none ∧ v.1.peer = w.1.peer ∧
      AddsNoCommand w.2.history v.2.history := by
  rcases h with h | h
  · refine (close_ends_of_closed h).imp ?_
    rintro r v ⟨rfl, rfl⟩
    exact ⟨rfl, h, rfl, .refl _⟩
  · refine (close_ends h).imp ?_
    rintro r v ⟨rfl, hv⟩
    exact ⟨rfl, hv.stream, hv.peer, hv.addsNoCommand fun _ he => nomatch he⟩

end ConsoleChannel

namespace SourceSession

/-- The channels of a session are as they should be, where there are any. -/
structure IsWired (s : SourceSession) : Prop where
  query : ∀ query, s.query = some query → query.socket.transport = .udp
  console : ∀ console, s.console = some console → console.IsWired

/-- If the console is said to have accepted a password, then its stream is open, and on this very
stream it has accepted a password that was sent with the id of the session. -/
def IsSound (s : SourceSession) (history : List Event) : Prop :=
  s.authenticated = true → ∃ console stream, s.console = some console ∧
    console.stream = some stream ∧ AcceptedOn stream.peer s.requestId history

/-- A session and the network around it are as they should be. -/
def Coherent (w : SourceSession × Network) : Prop := w.1.IsWired ∧ w.1.IsSound w.2.history

theorem IsWired.congr {s s' : SourceSession} (h : s.IsWired) (hquery : s'.query = s.query)
    (hconsole : s'.console = s.console) : s'.IsWired where
  query := hquery ▸ h.query
  console := hconsole ▸ h.console

theorem isSound_of_not_authenticated {s : SourceSession} {history : List Event}
    (h : s.authenticated = false) : s.IsSound history := by
  intro h'
  rw [h] at h'
  cases h'

theorem disconnect_ends (w : SourceSession × Network) :
    Ends disconnect w fun _ v => v.1.query = none ∧ v.1.console = none ∧
      v.1.authenticated = false ∧ AddsNoCommand w.2.history v.2.history := by
  obtain ⟨⟨query, console, id, authenticated, timeout⟩, n⟩ := w
  cases console with
  | none => exact ⟨rfl, rfl, rfl, .refl _⟩
  | some console =>
    obtain ⟨peer, stream, consoleTimeout⟩ := console
    cases stream with
    | none => exact ⟨rfl, rfl, rfl, .refl _⟩
    | some stream => exact ⟨rfl, rfl, rfl, [.closed peer], rfl, by simp [Event.IsCommand]⟩

theorem coherent_of_no_channels {w : SourceSession × Network} (hquery : w.1.query = none)
    (hconsole : w.1.console = none) (h : w.1.authenticated = false) : Coherent w := by
  refine ⟨⟨fun query hq => ?_, fun console hc => ?_⟩, isSound_of_not_authenticated h⟩
  · rw [hquery] at hq
    cases hq
  · rw [hconsole] at hc
    cases hc

theorem harmless_disconnect : Moves (Harmless Coherent) disconnect := by
  intro w
  refine (disconnect_ends w).imp ?_
  rintro r v ⟨hquery, hconsole, hauth, hnew⟩ -
  exact ⟨coherent_of_no_channels hquery hconsole hauth, hnew⟩

/-- New sockets start a new session, whatever there was before. -/
theorem openSockets_ends (peer : SocketAddress) (w : SourceSession × Network) :
    Ends (openSockets peer) w fun _ v => Coherent v ∧ AddsNoCommand w.2.history v.2.history := by
  refine (disconnect_ends w).bind ?_ ?_
  · rintro _ v ⟨hq, hc, hauth, hnew⟩
    refine (QueryChannel.connect_ends peer .source v).bind ?_ ?_
    · rintro query u ⟨hu, hquery, -, hhistory⟩
      refine ⟨⟨⟨?_, ?_⟩, isSound_of_not_authenticated (hu ▸ hauth)⟩, hnew.trans ?_⟩
      · rintro query' ⟨⟩
        change query.socket.transport = .udp
        rw [hquery]
      · rintro console ⟨⟩
        exact .inl rfl
      · exact ⟨[_], hhistory, by simp [Event.IsCommand]⟩
    · rintro e u ⟨hu, -, f, hhistory⟩
      refine ⟨coherent_of_no_channels (hu ▸ hq) (hu ▸ hc) (hu ▸ hauth), hnew.trans ?_⟩
      exact ⟨[_], hhistory, by simp [Event.IsCommand]⟩
  · rintro e v ⟨hq, hc, hauth, hnew⟩
    exact ⟨coherent_of_no_channels hq hc hauth, hnew⟩

theorem harmless_openSockets (peer : SocketAddress) :
    Moves (Harmless Coherent) (openSockets peer) :=
  harmless_of_ends fun w _ => openSockets_ends peer w

/-! ## Passwords -/

theorem authFrame_ends {w : ConsoleChannel × Network} (hw : w.1.IsOpen) :
    Ends authFrame w fun r v => ∃ new, (∀ e ∈ new, e.IsReception w.1.peer) ∧
      match r with
      | .ok reply => ConsoleChannel.Stays w v new ∧ Rcon.IsFrame (receivedBytes new) reply
      | .error _ => ConsoleChannel.Stays w v new ∨ ConsoleChannel.Closes w v new := by
  refine (ConsoleChannel.reply_ends none hw).bind ?_ ?_
  · rintro (_ | reply) v ⟨new, hon, hv⟩
    · exact ⟨new, hon, .inr hv⟩
    · exact ⟨new, hon, hv⟩
  · rintro e v ⟨new, hon, -, hv⟩
    exact ⟨new, hon, hv.imp_left And.left⟩

/-- The first frame of an answer to a password, or the second if the first is an empty value. -/
theorem authAnswer_ends {w : ConsoleChannel × Network} (hw : w.1.IsOpen) :
    Ends (do
      let first ← authFrame
      if first.kind = .value ∧ first.body = "" then authFrame else return first) w fun r v =>
      ∃ new, (∀ e ∈ new, e.IsReception w.1.peer) ∧
        match r with
        | .ok reply => ConsoleChannel.Stays w v new ∧
            ∃ earlier, Rcon.AreFrames (receivedBytes new) (earlier ++ [reply])
        | .error _ => ConsoleChannel.Stays w v new ∨ ConsoleChannel.Closes w v new := by
  refine (authFrame_ends hw).bind ?_ fun e v hv => hv
  rintro first v ⟨new, hon, hv, hframe⟩
  split
  · refine (authFrame_ends hv.isOpen).imp ?_
    rintro r u ⟨more, hmore, hu⟩
    refine ⟨more ++ new, hv.receptions hon hmore, ?_⟩
    cases r with
    | ok reply =>
      refine ⟨hv.trans hu.1, [first], ?_⟩
      rw [receivedBytes_append]
      exact hframe.areFrames.append hu.2.areFrames
    | error e => exact hu.imp hv.trans hv.closes
  · exact ⟨new, hon, hv, [], hframe.areFrames⟩

theorem askPassword_ends (id : Int32) (password : String) {w : ConsoleChannel × Network}
    (hw : w.1.IsWired) :
    Ends (askPassword id password) w fun r v => v.1.IsWired ∧
      AddsNoCommand w.2.history v.2.history ∧
      ∀ reply, r = .ok reply → reply.kind = .auth → reply.id = id →
        v.1.IsOpen ∧ AcceptedOn v.1.peer id v.2.history := by
  refine (ConsoleChannel.close_ends_of_wired hw).bind ?_ fun e v hv => absurd hv.1 (by simp)
  rintro _ v ⟨-, hclosed, hpeer, hnew⟩
  refine (ConsoleChannel.send_ends_of_closed (.auth id password) hclosed).bind ?_ ?_
  · rintro _ u hu
    have hauth := Event.not_isCommand_auth v.1.peer id password
    have hsent := hu.addsNoCommand (by simpa [Event.IsCommand] using hauth)
    refine (authAnswer_ends hu.isOpen).imp ?_
    rintro r u' ⟨new, hon, hr⟩
    have hquiet : ∀ e ∈ new, ¬ e.IsCommand := fun e he => (hon e he).not_isCommand
    cases r with
    | error e =>
      refine ⟨?_, ?_, by simp⟩
      · exact hr.elim (·.isWired) (·.isWired)
      · exact (hnew.trans hsent).trans (hr.elim (·.addsNoCommand hquiet) (·.addsNoCommand hquiet))
    | ok reply =>
      obtain ⟨hr, earlier, hframes⟩ := hr
      refine ⟨hr.isWired, (hnew.trans hsent).trans (hr.addsNoCommand hquiet), ?_⟩
      rintro reply' ⟨⟩ hkind hid
      refine ⟨hr.isOpen, new, v.2.history, password, ?_, fun e he => (hon e he).not_breaks,
        receivedBytes new, [], earlier, reply, (List.append_nil _).symm, hframes, hkind, hid⟩
      rw [hr.history, hu.history, hr.peer, hu.peer]
      rfl
  · rintro e u ⟨-, hstream, -, new, hhistory, hon⟩
    refine ⟨.inl hstream, hnew.trans ⟨new, hhistory, fun b hb => ?_⟩, by simp⟩
    rcases hon b hb with rfl | rfl | ⟨f, rfl⟩
    · exact Event.not_isCommand_auth v.1.peer id password
    · exact fun h => h
    · exact fun h => h

theorem on_console {α : Type} {d : Dialog ConsoleChannel α} {s : SourceSession} {n : Network}
    {c : ConsoleChannel} {P : Except ClientError α → ConsoleChannel × Network → Prop}
    (hs : s.console = some c) (hd : Ends d (c, n) P) :
    Ends (.on consolePart d) (s, n) fun r v => ∃ console,
      v.1 = { s with console := some console } ∧ P r (console, v.2) := by
  obtain ⟨query, console, id, authenticated, timeout⟩ := s
  cases hs
  exact Ends.on rfl (hd.imp fun r v hv => ⟨v.1, rfl, hv⟩)

theorem on_askPassword (id : Int32) (password : String) {w : SourceSession × Network}
    (hw : w.1.IsWired) (hauth : w.1.authenticated = false) :
    Ends (.on consolePart (askPassword id password)) w fun r v =>
      v.1.IsWired ∧ v.1.authenticated = false ∧ v.1.requestId = w.1.requestId ∧
      AddsNoCommand w.2.history v.2.history ∧
      ∀ reply, r = .ok reply → reply.kind = .auth → reply.id = id →
        ∃ console stream, v.1.console = some console ∧ console.stream = some stream ∧
          AcceptedOn stream.peer id v.2.history := by
  obtain ⟨s, n⟩ := w
  cases hs : s.console with
  | none =>
    have hpart : consolePart.get? s = none := hs
    exact ends_on_none hpart ⟨hw, hauth, rfl, .refl _, fun reply hr => by cases hr⟩
  | some c =>
    refine (on_console hs (askPassword_ends id password (hw.console c hs))).imp ?_
    rintro r ⟨s', m⟩ ⟨console, rfl, hwired, hnew, haccepted⟩
    refine ⟨⟨hw.query, ?_⟩, hauth, rfl, hnew, fun reply hr hkind hid => ?_⟩
    · rintro console' ⟨⟩
      exact hwired
    · obtain ⟨⟨stream, hstream, -, hpeer⟩, haccepted⟩ := haccepted reply hr hkind hid
      exact ⟨_, stream, rfl, hstream, hpeer ▸ haccepted⟩

/-- Only an answer with the id of the password makes a session authenticated. -/
theorem harmless_authenticate (password : String) :
    Moves (Harmless Coherent) (authenticate password) := by
  refine harmless_of_ends fun w hw => ends_network_bind (ends_modifyState_bind ?_)
  let id := Int32.ofNat (w.2.world.sessionId w.2.history).toNat
  refine (on_askPassword id password (by exact hw.1.congr rfl rfl) (by rfl)).bind ?_ ?_
  · rintro reply v ⟨hwired, hauth, hid, hnew, haccepted⟩
    split
    · exact ⟨⟨hwired, isSound_of_not_authenticated hauth⟩, hnew⟩
    · next hkind =>
      have hv : Coherent ({ v.1 with authenticated := decide (reply.id = id) }, v.2) := by
        refine ⟨hwired.congr rfl rfl, fun h => ?_⟩
        obtain ⟨console, stream, hconsole, hstream, haccepted⟩ :=
          haccepted reply rfl (Decidable.not_not.1 hkind) (of_decide_eq_true h)
        refine ⟨console, stream, hconsole, hstream, ?_⟩
        change AcceptedOn stream.peer v.1.requestId v.2.history
        exact hid ▸ haccepted
      refine ends_modifyState_bind ?_
      split
      · exact ⟨hv, hnew⟩
      · exact ⟨hv, hnew⟩
  · rintro e v ⟨hwired, hauth, -, hnew, -⟩
    exact ⟨⟨hwired, isSound_of_not_authenticated hauth⟩, hnew⟩

/-! ## Commands -/

/-- The console takes commands: a password has been accepted on the stream, which is open. -/
structure IsLive (s : SourceSession) (history : List Event) : Prop where
  authenticated : s.authenticated = true
  isWired : s.IsWired
  accepted : ∃ console, s.console = some console ∧ console.IsOpen ∧
    AcceptedOn console.peer s.requestId history

theorem Coherent.isLive {w : SourceSession × Network} (h : Coherent w)
    (hauth : w.1.authenticated = true) : w.1.IsLive w.2.history := by
  obtain ⟨console, stream, hconsole, hstream, haccepted⟩ := h.2 hauth
  refine ⟨hauth, h.1, console, hconsole, ?_⟩
  rcases h.1.console console hconsole with hnone | ⟨stream', hstream', htcp, hpeer⟩
  · rw [hnone] at hstream
    cases hstream
  · cases hstream.symm.trans hstream'
    exact ⟨⟨stream, hstream, htcp, hpeer⟩, hpeer ▸ haccepted⟩

theorem IsLive.coherent {w : SourceSession × Network} (h : w.1.IsLive w.2.history) :
    Coherent w := by
  obtain ⟨console, hconsole, ⟨stream, hstream, -, hpeer⟩, haccepted⟩ := h.accepted
  exact ⟨h.isWired, fun _ => ⟨console, stream, hconsole, hstream, hpeer ▸ haccepted⟩⟩

/-- Since some point of the history, a session has been live and its commands authorized. -/
structure Holds (old : List Event) (v : SourceSession × Network) : Prop where
  live : v.1.IsLive v.2.history
  authorized : CommandsAuthorized old v.2.history
  unbroken : ∃ new, v.2.history = new ++ old ∧ ∀ e ∈ new, ¬ e.Breaks

/-- A command has been sent, and its answer can be received. -/
structure Underway (old : List Event) (v : SourceSession × Network) : Prop extends
    Holds old v where
  asked : ∃ new, v.2.history = new ++ old ∧ ∃ e ∈ new, e.IsCommand

/-- How a command can end: the session is live, or it is not and says so, or the stream has been
shut down and the session does not say so. -/
inductive Ended (old : List Event) (v : SourceSession × Network) (reported : Prop) : Prop
  | held (holds : Holds old v)
  | cleared (yes : reported) (auth : v.1.authenticated = false) (wired : v.1.IsWired)
      (authorized : CommandsAuthorized old v.2.history) (suffix : old <:+ v.2.history)
  | lost (no : ¬ reported) (auth : v.1.authenticated = true)
      (closed : ∃ console, v.1.console = some console ∧ console.stream = none)
      (wired : v.1.IsWired) (authorized : CommandsAuthorized old v.2.history)
      (underCommand : ClosedUnderCommand old v.2.history)

theorem Ended.imp {old : List Event} {v : SourceSession × Network} {p q : Prop}
    (h : Ended old v p) (hpq : p ↔ q) : Ended old v q := by
  rwa [← hpq]

section Steps

variable {old new : List Event} {s : SourceSession} {n m : Network} {c console : ConsoleChannel}

theorem IsWired.withConsole (h : s.IsWired) (hconsole : console.IsWired) :
    IsWired { s with console := some console } := by
  refine ⟨h.query, ?_⟩
  rintro console' ⟨⟩
  exact hconsole

theorem Holds.suffix {v : SourceSession × Network} (h : Holds old v) : old <:+ v.2.history := by
  obtain ⟨new, hnew, -⟩ := h.unbroken
  exact ⟨new, hnew.symm⟩

theorem Holds.stays (h : Holds old (s, n)) (hs : s.console = some c)
    (hstays : ConsoleChannel.Stays (c, n) (console, m) new)
    (hquiet : ∀ e ∈ new, ¬ e.Breaks) (hauthorized : CommandsAuthorized n.history m.history) :
    Holds old ({ s with console := some console }, m) := by
  have hhistory : m.history = new ++ n.history := hstays.history
  have hpeer : console.peer = c.peer := hstays.peer
  obtain ⟨c', hs', -, haccepted⟩ := h.live.accepted
  cases hs.symm.trans hs'
  refine ⟨⟨h.live.authenticated, h.live.isWired.withConsole hstays.isWired, _, rfl,
    hstays.isOpen, ?_⟩, ?_, ?_⟩
  · rw [hpeer, hhistory]
    exact haccepted.append hquiet
  · exact h.authorized.trans hauthorized ⟨new, hhistory.symm⟩
  · obtain ⟨before, hbefore, hunbroken⟩ := h.unbroken
    refine ⟨new ++ before, ?_, fun e he => ?_⟩
    · rw [hhistory, hbefore, List.append_assoc]
    · rcases List.mem_append.1 he with he | he
      · exact hquiet e he
      · exact hunbroken e he

theorem Underway.stays (h : Underway old (s, n)) (hs : s.console = some c)
    (hstays : ConsoleChannel.Stays (c, n) (console, m) new)
    (hquiet : ∀ e ∈ new, ¬ e.Breaks) (hauthorized : CommandsAuthorized n.history m.history) :
    Underway old ({ s with console := some console }, m) := by
  refine ⟨h.toHolds.stays hs hstays hquiet hauthorized, ?_⟩
  obtain ⟨before, hbefore, e, he, hcommand⟩ := h.asked
  refine ⟨new ++ before, ?_, e, List.mem_append_right new he, hcommand⟩
  rw [List.append_assoc, ← hbefore]
  exact hstays.history

theorem authorized_of_closes
    (hcloses : ConsoleChannel.Closes (c, n) (console, m) new)
    (hauthorized : CommandsAuthorized n.history (new ++ n.history)) :
    CommandsAuthorized n.history m.history := by
  have hhistory : m.history = [.closed c.peer] ++ (new ++ n.history) :=
    hcloses.history
  have hclosed : AddsNoCommand (new ++ n.history) m.history :=
    ⟨_, hhistory, by simp [Event.IsCommand]⟩
  exact hauthorized.trans hclosed.commandsAuthorized hclosed.suffix

theorem Holds.cleared {reported : Prop} (h : Holds old (s, n))
    (hcloses : ConsoleChannel.Closes (c, n) (console, m) new)
    (hauthorized : CommandsAuthorized n.history (new ++ n.history)) (yes : reported) :
    Ended old ({ s with console := some console, authenticated := false }, m)
      reported := by
  have hsuffix : n.history <:+ m.history :=
    ⟨.closed c.peer :: new, hcloses.history.symm⟩
  exact .cleared yes rfl ((h.live.isWired.withConsole hcloses.isWired).congr rfl rfl)
    (h.authorized.trans (authorized_of_closes hcloses hauthorized) hsuffix)
    (h.suffix.trans hsuffix)

theorem Holds.lost {reported : Prop} (h : Holds old (s, n))
    (hcloses : ConsoleChannel.Closes (c, n) (console, m) new)
    (hauthorized : CommandsAuthorized n.history (new ++ n.history))
    (hcommand : ∃ before, n.history = before ++ old ∧ ∃ e ∈ new ++ before, e.IsCommand)
    (no : ¬ reported) :
    Ended old ({ s with console := some console }, m) reported := by
  have hsuffix : n.history <:+ m.history :=
    ⟨.closed c.peer :: new, hcloses.history.symm⟩
  obtain ⟨before, hbefore, hasked⟩ := hcommand
  refine .lost no h.live.authenticated ⟨_, rfl, hcloses.stream⟩
    (h.live.isWired.withConsole hcloses.isWired)
    (h.authorized.trans (authorized_of_closes hcloses hauthorized) hsuffix)
    ⟨[], c.peer, new ++ before, ?_, hasked⟩
  rw [List.append_assoc, ← hbefore]
  exact hcloses.history

theorem authorized_of_receptions {peer : SocketAddress} (h : ∀ e ∈ new, e.IsReception peer) :
    CommandsAuthorized n.history (new ++ n.history) :=
  AddsNoCommand.commandsAuthorized ⟨new, rfl, fun e he => (h e he).not_isCommand⟩

theorem Underway.asked_append (h : Underway old (s, n)) (new : List Event) :
    ∃ before, n.history = before ++ old ∧ ∃ e ∈ new ++ before, e.IsCommand := by
  obtain ⟨before, hbefore, e, he, hcommand⟩ := h.asked
  exact ⟨before, hbefore, e, List.mem_append_right new he, hcommand⟩

/-- Every frame of an answer finds the session live, or the command ends. -/
theorem frame_ends {v : SourceSession × Network} (h : Underway old v) :
    Ends frame v fun r u =>
      match r with
      | .ok _ => Underway old u
      | .error e => Ended old u (e = .notAuthenticated) := by
  obtain ⟨s, n⟩ := v
  obtain ⟨c, hs, hopen, -⟩ := h.live.accepted
  refine ends_state_bind ((on_console hs (ConsoleChannel.reply_ends none hopen)).bind ?_ ?_)
  · rintro (_ | reply) ⟨s', m⟩ ⟨console, rfl, new, hon, hv⟩
    · exact h.cleared hv (authorized_of_receptions hon) rfl
    · have hnew := hv.1.addsNoCommand fun e he => (hon e he).not_isCommand
      have hu := h.stays hs hv.1 (fun e he => (hon e he).not_breaks) hnew.commandsAuthorized
      simp only
      split
      · refine ends_modifyState_bind ?_
        refine (on_console rfl (ConsoleChannel.close_ends hv.1.isOpen)).bind ?_ ?_
        · rintro _ ⟨s', m'⟩ ⟨console', rfl, -, hclose⟩
          exact hu.cleared hclose (.refl _) rfl
        · rintro e u ⟨console', -, he, -⟩
          cases he
      · exact hu
  · rintro e ⟨s', m⟩ ⟨console, rfl, new, hon, he, hv⟩
    rcases hv with ⟨hv, -⟩ | hv
    · have hnew := hv.addsNoCommand fun e he => (hon e he).not_isCommand
      exact .held (h.toHolds.stays hs hv (fun e he => (hon e he).not_breaks)
        hnew.commandsAuthorized)
    · exact h.lost hv (authorized_of_receptions hon) (h.asked_append new) he

theorem output_ends {v : SourceSession × Network} (h : Underway old v) :
    Ends output v fun r u =>
      match r with
      | .ok _ => Underway old u
      | .error e => Ended old u (e = .notAuthenticated) := by
  refine ends_iterate outputPass_again (fun _ u => Underway old u) (fun _ u hu => ?_) h
  refine (frame_ends hu).bind (fun reply u' hu' => ?_) fun e u' hu' => hu'
  cases hecho : reply.isEcho with
  | true => simpa only [hecho, if_true] using ends_pure hu'
  | false => simpa only [hecho, Bool.false_eq_true, if_false] using ends_pure hu'

/-- A timeout is no error here, even if it has shut the stream down. -/
theorem takeEcho_ends {v : SourceSession × Network} (h : Underway old v) :
    Ends takeEcho v fun r u =>
      match r with
      | .ok _ => Ended old u False
      | .error e => Ended old u (e = .notAuthenticated) := by
  refine Ends.bind (Q := fun r u => ∃ r', r = .ok r' ∧
      match r' with
      | .ok _ => Underway old u
      | .error e => Ended old u (e = .notAuthenticated)) ?_ ?_ ?_
  · exact ((frame_ends h).imp fun r u hu => ⟨r, rfl, hu⟩).outcome
  · rintro r u ⟨r', ⟨⟩, hu⟩
    split
    · exact .held hu.toHolds
    · exact hu.imp (iff_of_false nofun id)
    · exact hu
  · rintro e u ⟨r', ⟨⟩, -⟩

theorem collectPass_ends (answer : String) {v : SourceSession × Network} (h : Underway old v) :
    Ends (collectPass answer) v fun r u =>
      match r with
      | .ok (.again _) => Underway old u
      | .ok (.done _) => Ended old u False
      | .error e => Ended old u (e = .notAuthenticated) := by
  refine (frame_ends h).bind (fun reply u hu => ?_) fun e u hu => hu
  split
  · exact hu
  · split
    · exact (takeEcho_ends hu).bind (fun _ u' hu' => hu') fun e u' hu' => hu'
    · exact hu

theorem collect_ends (answer : String) {v : SourceSession × Network} (h : Underway old v) :
    Ends (collect answer) v fun r u =>
      match r with
      | .ok _ => Ended old u False
      | .error e => Ended old u (e = .notAuthenticated) := by
  refine ends_iterate collectPass_again (fun _ u => Underway old u) (fun answer u hu => ?_) h
  refine (collectPass_ends answer hu).imp ?_
  rintro (e | _ | _) u' hu' <;> exact hu'

theorem sendCommand_ends (r : Rcon.Request)
    (hr : ∀ peer, (Event.sent .tcp peer r.bytes).IsCommand) {v : SourceSession × Network}
    (h : Holds old v) :
    Ends (.on consolePart (ConsoleChannel.send r)) v fun o u =>
      match o with
      | .ok _ => Underway old u
      | .error e => Ended old u (e = .notAuthenticated) := by
  obtain ⟨s, n⟩ := v
  obtain ⟨c, hs, hopen, haccepted⟩ := h.live.accepted
  have hauthorized : CommandsAuthorized n.history
      ([.sent .tcp c.peer r.bytes] ++ n.history) := .cons haccepted
  have hasked : ∃ before, n.history = before ++ old ∧
      ∃ e ∈ [.sent .tcp c.peer r.bytes] ++ before, e.IsCommand := by
    obtain ⟨before, hbefore, -⟩ := h.unbroken
    exact ⟨before, hbefore, _, List.mem_cons_self, hr _⟩
  refine (on_console hs (ConsoleChannel.send_ends_of_open r hopen)).imp ?_
  rintro (e | _) ⟨s', m⟩ ⟨console, rfl, hv⟩
  · obtain ⟨he, hv | hv⟩ := hv
    · exact .held (h.stays hs hv (fun _ he => nomatch he)
        (hv.addsNoCommand fun _ he => nomatch he).commandsAuthorized)
    · exact h.lost hv hauthorized hasked he
  · have hv : ConsoleChannel.Stays (c, n) (console, m)
      [.sent .tcp c.peer r.bytes] := hv
    refine ⟨h.stays hs hv (by simp [Event.Breaks]) ?_, ?_⟩
    · exact (show m.history = _ from hv.history) ▸ hauthorized
    · obtain ⟨before, hbefore, e, he, hcommand⟩ := hasked
      refine ⟨_, ?_, e, he, hcommand⟩
      rw [List.append_assoc, ← hbefore]
      exact hv.history

theorem execute_ends_of_live (command : String) {w : SourceSession × Network}
    (h : w.1.IsLive w.2.history) :
    Ends (execute command) w fun r v => Ended w.2.history v (r = .error .notAuthenticated) := by
  have hw : Holds w.2.history w := ⟨h, .refl _, [], rfl, fun _ he => nomatch he⟩
  have herror : ∀ (e : ClientError) (u : SourceSession × Network),
      Ended w.2.history u (e = .notAuthenticated) →
      Ended w.2.history u ((.error e : Except ClientError String) = .error .notAuthenticated) :=
    fun e u hu => hu.imp ⟨congrArg _, Except.error.inj⟩
  have hok : ∀ (text : String) (u : SourceSession × Network), Ended w.2.history u False →
      Ended w.2.history u ((.ok text : Except ClientError String) = .error .notAuthenticated) :=
    fun text u hu => hu.imp (iff_of_false id fun h => nomatch h)
  refine ends_state_bind ?_
  rw [if_pos h.authenticated]
  refine (sendCommand_ends _ (Event.isCommand_exec · _ command) hw).bind (fun _ v hv => ?_) herror
  refine (output_ends hv).bind (fun first v hv => ?_) herror
  split
  · exact hok _ _ (.held hv.toHolds)
  · refine (sendCommand_ends _ (Event.isCommand_terminator · _) hv.toHolds).bind
      (fun _ v hv => ?_) herror
    exact (collect_ends first.body hv).bind (fun _ u hu => hok _ u hu) herror

end Steps

/-- What a command leaves behind: it has been authorized, and the session is sound unless the
stream has been shut down and the outcome does not say so. -/
structure AfterCommand (old : List Event) (v : SourceSession × Network) (reported : Prop) :
    Prop where
  isWired : v.1.IsWired
  suffix : old <:+ v.2.history
  authorized : CommandsAuthorized old v.2.history
  isSound_iff : v.1.IsSound v.2.history ↔ ¬ (¬ reported ∧ ClosedUnderCommand old v.2.history)

theorem Ended.afterCommand {old : List Event} {v : SourceSession × Network} {reported : Prop}
    (h : Ended old v reported) : AfterCommand old v reported := by
  cases h with
  | held h =>
    refine ⟨h.live.isWired, h.suffix, h.authorized,
      iff_of_true (IsLive.coherent h.live).2 fun hlost => ?_⟩
    obtain ⟨new, hnew, hunbroken⟩ := h.unbroken
    exact not_closedUnderCommand_of_not_breaks hunbroken (hnew ▸ hlost.2)
  | cleared yes hauth hwired hauthorized hsuffix =>
    exact ⟨hwired, hsuffix, hauthorized,
      iff_of_true (isSound_of_not_authenticated hauth) fun hlost => hlost.1 yes⟩
  | lost no hauth hclosed hwired hauthorized hunder =>
    refine ⟨hwired, hunder.suffix, hauthorized,
      iff_of_false (fun hsound => ?_) fun hnot => hnot ⟨no, hunder⟩⟩
    obtain ⟨console, hconsole, hnone⟩ := hclosed
    obtain ⟨console', stream, hconsole', hstream, -⟩ := hsound hauth
    cases hconsole.symm.trans hconsole'
    rw [hnone] at hstream
    cases hstream

theorem execute_ends (command : String) {w : SourceSession × Network} (hw : Coherent w) :
    Ends (execute command) w fun r v =>
      AfterCommand w.2.history v (r = .error .notAuthenticated) := by
  cases hauth : w.1.authenticated with
  | true => exact (execute_ends_of_live command (hw.isLive hauth)).imp fun _ _ hv => hv.afterCommand
  | false =>
    refine ends_state_bind ?_
    rw [if_neg (by simp [hauth])]
    exact ends_throw (Ended.cleared rfl hauth hw.1 (.refl _) List.suffix_rfl).afterCommand

end SourceSession

end GameQuery
