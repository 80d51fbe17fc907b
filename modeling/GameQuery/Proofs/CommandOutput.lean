import GameQuery.Proofs.ConsoleAnswer
import GameQuery.Proofs.FrameOrder

namespace GameQuery

/-!
# Whose output a command gives

All commands of a session carry the same id, and a command that times out leaves the stream open.
So what a command gives is put together from the frames that are still owed when it is sent and
those that it asks for, in this order, up to the first empty one.
-/

open Dialog

namespace Rcon

/-- An empty frame that is no echo ends an answer. -/
def Reply.isClosing (r : Reply) : Bool := !r.isEcho && r.body = ""

/-- The texts that a client puts together: the bodies up to an empty one, but for echoes. -/
def printed : List Reply → List String
  | [] => []
  | r :: rs => if r.isEcho then printed rs else if r.body = "" then [] else r.body :: printed rs

theorem printed_append (rs qs : List Reply) :
    printed (rs ++ qs) = printed rs ++ if rs.any Reply.isClosing then [] else printed qs := by
  induction rs with
  | nil => rfl
  | cons r rs ih =>
    cases hecho : r.isEcho with
    | true => simp [printed, Reply.isClosing, hecho, ih]
    | false =>
      by_cases hbody : r.body = ""
      · simp [printed, Reply.isClosing, hecho, hbody]
      · simp [printed, Reply.isClosing, hecho, hbody, ih]

theorem printed_of_echoes {rs : List Reply} (h : ∀ r ∈ rs, r.isEcho = true) : printed rs = [] := by
  induction rs with
  | nil => rfl
  | cons r rs ih =>
    obtain ⟨hr, hrs⟩ := List.forall_mem_cons.1 h
    rw [printed, if_pos hr, ih hrs]

end Rcon

/-- The frames that a server sends in answer to what has been added to a history. -/
def answersTo (answer : List Event → SocketAddress → List UInt8 → List Rcon.Reply)
    (old : List Event) : List Event → List Rcon.Reply
  | [] => []
  | .sent .tcp peer bytes :: new => answersTo answer old new ++ answer (new ++ old) peer bytes
  | _ :: new => answersTo answer old new

/-- What has been added to a history holds nothing that was sent over a stream. -/
def SendsNothing (old history : List Event) : Prop :=
  ∃ new, history = new ++ old ∧ ∀ e ∈ new, ∀ peer bytes, e ≠ .sent .tcp peer bytes

theorem SendsNothing.trans {old mid history : List Event} (h : SendsNothing old mid)
    (h' : SendsNothing mid history) : SendsNothing old history := by
  obtain ⟨new, rfl, hnew⟩ := h
  obtain ⟨more, rfl, hmore⟩ := h'
  refine ⟨more ++ new, (List.append_assoc ..).symm, fun e he => ?_⟩
  rcases List.mem_append.1 he with he | he
  · exact hmore e he
  · exact hnew e he

theorem sendsNothing_of_closes {w v : ConsoleChannel × Network} {new : List Event}
    (hnew : ∀ e ∈ new, e.IsReception w.1.peer) (h : ConsoleChannel.Closes w v new) :
    SendsNothing w.2.history v.2.history := by
  refine ⟨.closed w.1.peer :: new, h.history, fun e he peer bytes heq => ?_⟩
  rcases List.mem_cons.1 he with rfl | he
  · cases heq
  · have hreception := hnew e he
    rw [heq] at hreception
    exact hreception

section AnswersTo

variable {answer : List Event → SocketAddress → List UInt8 → List Rcon.Reply}
  {old new more : List Event}

theorem answersTo_append :
    answersTo answer old (more ++ new) = answersTo answer old new ++
      answersTo answer (new ++ old) more := by
  fun_induction answersTo answer (new ++ old) more with
  | case1 => simp
  | case2 peer bytes more ih =>
    simp only [List.cons_append, answersTo, ih, List.append_assoc]
  | case3 e more hne ih =>
    rw [List.cons_append, answersTo, ih]
    exact hne

theorem answersTo_of_not_sent (h : ∀ e ∈ new, ∀ peer bytes, e ≠ .sent .tcp peer bytes) :
    answersTo answer old new = [] := by
  induction new with
  | nil => rfl
  | cons e new ih =>
    obtain ⟨he, hnew⟩ := List.forall_mem_cons.1 h
    rw [answersTo, ih hnew]
    exact he

theorem inAnswer_append_answersTo (h : ∀ e ∈ new, ¬ e.Breaks) :
    inAnswer answer (new ++ old) = inAnswer answer old ++ answersTo answer old new := by
  fun_induction answersTo answer old new with
  | case1 => simp
  | case2 peer bytes new ih =>
    rw [List.cons_append, inAnswer, ih (List.forall_mem_cons.1 h).2, List.append_assoc]
  | case3 e new hne ih =>
    obtain ⟨he, hnew⟩ := List.forall_mem_cons.1 h
    have hasks : e.AsksNothing := by
      cases e with
      | connected transport peer failure =>
        cases transport <;> cases failure <;> simp_all [Event.AsksNothing, Event.Breaks]
      | sent transport peer bytes => cases transport <;> simp_all [Event.AsksNothing]
      | closed peer => exact absurd trivial he
      | _ => trivial
    rw [List.cons_append, inAnswer_cons hasks, ih hnew]

end AnswersTo

namespace SourceSession

/-- The console is in step. -/
def InStep (w : SourceSession × Network) (taken : List Rcon.Reply) : Prop :=
  ∃ console, w.1.console = some console ∧ ConsoleChannel.InStep (console, w.2) taken

/-- Some more frames have been received, and nothing else has been done. -/
structure Got (w : SourceSession × Network) (taken more : List Rcon.Reply)
    (v : SourceSession × Network) : Prop where
  inStep : InStep v (taken ++ more)
  requestId : v.1.requestId = w.1.requestId
  world : v.2.world = w.2.world
  history : ∃ new, v.2.history = new ++ w.2.history ∧ ∀ e ∈ new, e.AsksNothing

section Steps

variable {w u v : SourceSession × Network} {taken more others : List Rcon.Reply}

theorem Got.refl (h : InStep w taken) : Got w taken [] w :=
  ⟨(List.append_nil taken).symm ▸ h, rfl, rfl, [], rfl, fun _ he => nomatch he⟩

theorem Got.trans (h : Got w taken more v) (h' : Got v (taken ++ more) others u) :
    Got w taken (more ++ others) u := by
  obtain ⟨new, hnew, hquiet⟩ := h.history
  obtain ⟨new', hnew', hquiet'⟩ := h'.history
  refine ⟨?_, h'.requestId.trans h.requestId, h'.world.trans h.world, new' ++ new, ?_, ?_⟩
  · rw [← List.append_assoc]
    exact h'.inStep
  · rw [hnew', hnew, List.append_assoc]
  · intro e he
    rcases List.mem_append.1 he with he | he
    · exact hquiet' e he
    · exact hquiet e he

theorem Got.sendsNothing (h : Got w taken more v) : SendsNothing w.2.history v.2.history := by
  obtain ⟨new, hnew, hquiet⟩ := h.history
  refine ⟨new, hnew, fun e he peer bytes heq => ?_⟩
  have hasks := hquiet e he
  rw [heq] at hasks
  exact hasks

theorem frame_got (h : InStep w taken) :
    Ends frame w fun r v => SendsNothing w.2.history v.2.history ∧
      ∀ reply, r = .ok reply → Got w taken [reply] v := by
  obtain ⟨s, n⟩ := w
  obtain ⟨c, hs, hstep⟩ := h
  have hreply := (ConsoleChannel.reply_inStep none hstep).and
    (ConsoleChannel.sameWorld_reply none (c, n))
  refine ends_state_bind ((on_console hs hreply).bind ?_ ?_)
  · rintro (_ | reply) ⟨s', m⟩ ⟨console, rfl, ⟨new, hon, hv⟩, hworld⟩
    · exact ⟨sendsNothing_of_closes hon hv, fun reply h => nomatch h⟩
    · have hgot : Got (s, n) taken [reply]
          ({ s with console := some console }, m) :=
        ⟨⟨_, rfl, hv.1⟩, rfl, hworld, new, hv.2.history, fun e he => (hon e he).asksNothing⟩
      simp only
      split
      · refine ends_modifyState_bind ?_
        refine (on_console rfl (ConsoleChannel.close_ends hv.1.isOpen)).bind ?_ ?_
        · rintro _ ⟨s', m'⟩ ⟨console', rfl, -, hclose⟩
          have hnone : ∀ e ∈ ([] : List Event), e.IsReception console.peer := fun _ he => nomatch he
          exact ⟨hgot.sendsNothing.trans (sendsNothing_of_closes hnone hclose),
            fun reply h => nomatch h⟩
        · rintro e u ⟨console', -, he, -⟩
          cases he
      · refine ⟨hgot.sendsNothing, ?_⟩
        rintro reply' ⟨⟩
        exact hgot
  · rintro e ⟨s', m⟩ ⟨console, rfl, ⟨new, hon, hv⟩, -⟩
    refine ⟨?_, fun reply h => nomatch h⟩
    rcases hv with ⟨-, hstays⟩ | hcloses
    · refine ⟨new, hstays.history, fun e he peer bytes heq => ?_⟩
      have hreception := hon e he
      rw [heq] at hreception
      exact hreception
    · exact sendsNothing_of_closes hon hcloses

theorem output_got (h : InStep w taken) :
    Ends output w fun r v => ∀ reply, r = .ok reply → ∃ echoes,
      (∀ e ∈ echoes, e.isEcho = true) ∧ reply.isEcho = false ∧
      Got w taken (echoes ++ [reply]) v := by
  refine ends_iterate outputPass_again
    (fun _ u => ∃ echoes, (∀ e ∈ echoes, e.isEcho = true) ∧ Got w taken echoes u) ?_
    ⟨[], (fun _ he => nomatch he), .refl h⟩
  rintro _ u ⟨echoes, hechoes, hu⟩
  refine (frame_got hu.inStep).bind (fun r v hv => ?_) fun e v _ reply h => nomatch h
  have hv := hu.trans (hv.2 r rfl)
  cases hecho : r.isEcho with
  | true =>
    refine ends_pure ⟨echoes ++ [r], fun e he => ?_, hv⟩
    rcases List.mem_append.1 he with he | he
    · exact hechoes e he
    · rw [List.mem_singleton.1 he]
      exact hecho
  | false =>
    refine ends_pure ?_
    rintro reply ⟨⟩
    exact ⟨echoes, hechoes, hecho, hv⟩

theorem takeEcho_sendsNothing (h : InStep w taken) :
    Ends takeEcho w fun _ v => SendsNothing w.2.history v.2.history := by
  have houtcome : Ends (outcome frame) w fun _ v => SendsNothing w.2.history v.2.history :=
    ((frame_got h).imp fun _ _ hv => hv.1).outcome
  refine houtcome.bind (fun r v hv => ?_) fun e v hv => hv
  split <;> exact hv

/-- The rest of an answer ends with a closing frame; nothing is sent while it is collected. -/
theorem collect_got (h : InStep w taken) (answer : String) :
    Ends (collect answer) w fun r v => ∀ text, r = .ok text → ∃ u frames closing,
      Got w taken (frames ++ [closing]) u ∧ closing.isClosing = true ∧
      frames.any Rcon.Reply.isClosing = false ∧
      text = answer ++ String.join (Rcon.printed frames) ∧
      SendsNothing u.2.history v.2.history := by
  refine ends_iterate collectPass_again
    (fun text u => ∃ frames, frames.any Rcon.Reply.isClosing = false ∧
      text = answer ++ String.join (Rcon.printed frames) ∧ Got w taken frames u) ?_
    ⟨[], rfl, by simp [Rcon.printed], .refl h⟩
  rintro _ u ⟨frames, hopen, rfl, hu⟩
  refine (frame_got hu.inStep).bind (fun r v hv => ?_) fun e v _ reply h => nomatch h
  have hv := hu.trans (hv.2 r rfl)
  split
  · next hecho =>
    have hone : r.isClosing = false := by simp [Rcon.Reply.isClosing, hecho]
    refine ends_pure ⟨frames ++ [r], ?_, ?_, hv⟩
    · simp [hopen, hone]
    · simp [Rcon.printed_append, hopen, Rcon.printed, hecho]
  · next hecho =>
    split
    · next hbody =>
      refine (takeEcho_sendsNothing hv.inStep).bind (fun _ v' hv' => ends_pure ?_)
        fun e v' _ reply h => nomatch h
      rintro text ⟨⟩
      exact ⟨v, frames, r, hv, by simp [Rcon.Reply.isClosing, hecho, hbody], hopen, rfl, hv'⟩
    · next hbody =>
      have hone : r.isClosing = false := by simp [Rcon.Reply.isClosing, hbody]
      refine ends_pure ⟨frames ++ [r], ?_, ?_, hv⟩
      · simp [hopen, hone]
      · simp [Rcon.printed_append, hopen, Rcon.printed, hecho, hbody, String.append_assoc]

theorem send_got (r : Rcon.Request) {c : ConsoleChannel} (hs : w.1.console = some c)
    (h : c.stream = none ∧ taken = [] ∨
      ConsoleChannel.InStep (c, w.2) taken) :
    Ends (.on consolePart (ConsoleChannel.send r)) w fun o v => o = .ok () → InStep v taken ∧
      v.1.requestId = w.1.requestId ∧ v.2.world = w.2.world ∧
      v.2.history = .sent .tcp c.peer r.bytes ::
        ConsoleChannel.beforeSend (c, w.2) := by
  obtain ⟨s, n⟩ := w
  have hsend := (ConsoleChannel.send_inStep r h).and
    (ConsoleChannel.sameWorld_send r (c, n))
  refine (on_console hs hsend).imp ?_
  rintro o ⟨s', m⟩ ⟨console, rfl, hv, hworld⟩ rfl
  exact ⟨⟨_, rfl, hv.1⟩, rfl, hworld, hv.2.2⟩

theorem InStep.beforeSend {c : ConsoleChannel} (h : InStep w taken)
    (hs : w.1.console = some c) :
    ConsoleChannel.InStep (c, w.2) taken ∧
      ConsoleChannel.beforeSend (c, w.2) = w.2.history := by
  obtain ⟨c', hs', hstep⟩ := h
  cases hs.symm.trans hs'
  refine ⟨hstep, ?_⟩
  obtain ⟨stream, hstream, -⟩ := hstep
  have hconnected : c.isConnected = true := by
    rw [ConsoleChannel.isConnected]
    exact Option.isSome_of_mem hstream
  rw [ConsoleChannel.beforeSend, if_pos hconnected]

/-- A command prints the frames that it gets, up to a closing one. -/
theorem execute_got (command : String) {c : ConsoleChannel} (hs : w.1.console = some c)
    (h : c.stream = none ∧ taken = [] ∨
      ConsoleChannel.InStep (c, w.2) taken) :
    Ends (execute command) w fun r v => ∀ text, r = .ok text → ∃ u frames new,
      InStep u (taken ++ frames) ∧ u.2.world = w.2.world ∧
      u.2.history = new ++ ConsoleChannel.beforeSend (c, w.2) ∧
      (∀ e ∈ new, ¬ e.Breaks) ∧ frames.any Rcon.Reply.isClosing = true ∧
      text = outputText (Rcon.printed frames) ∧ SendsNothing u.2.history v.2.history := by
  refine ends_state_bind ?_
  split
  swap
  · exact fun text h => nomatch h
  refine (send_got (.exec w.1.requestId command) hs h).bind (fun _ v₁ hv₁ => ?_)
    fun e v _ text h => nomatch h
  obtain ⟨hstep₁, -, hworld₁, hhistory₁⟩ := hv₁ rfl
  refine (output_got hstep₁).bind (fun first v₂ hv₂ => ?_) fun e v _ text h => nomatch h
  obtain ⟨echoes, hechoes, hfirst, hgot⟩ := hv₂ first rfl
  obtain ⟨new, hnew, hquiet⟩ := hgot.history
  have hopen : echoes.any Rcon.Reply.isClosing = false := by
    rw [List.any_eq_false]
    intro r hr
    simp [Rcon.Reply.isClosing, hechoes r hr]
  have hprinted : ∀ rest, Rcon.printed (echoes ++ first :: rest) =
      if first.body = "" then [] else first.body :: Rcon.printed rest := by
    intro rest
    rw [Rcon.printed_append, Rcon.printed_of_echoes hechoes, hopen, Rcon.printed, hfirst]
    rfl
  have hunbroken : ∀ e ∈ new, ¬ e.Breaks := fun e he => (hquiet e he).not_breaks
  split
  · next hbody =>
    refine ends_pure ?_
    rintro text ⟨⟩
    refine ⟨v₂, echoes ++ [first], new ++ [.sent .tcp c.peer
      (Rcon.Request.exec w.1.requestId command).bytes], hgot.inStep, hgot.world.trans hworld₁, ?_, ?_,
      ?_, ?_, [], rfl, fun _ he => nomatch he⟩
    · rw [hnew, hhistory₁, List.append_assoc]
      rfl
    · intro e he
      rcases List.mem_append.1 he with he | he
      · exact hunbroken e he
      · rw [List.mem_singleton.1 he]
        exact id
    · simp [Rcon.Reply.isClosing, hfirst, hbody]
    · rw [hprinted, if_pos hbody]
      rfl
  · next hbody =>
    obtain ⟨c₂, hs₂, -⟩ := hgot.inStep
    obtain ⟨hstep₂, hbefore⟩ := hgot.inStep.beforeSend hs₂
    refine (send_got (.terminator w.1.requestId) hs₂ (.inr hstep₂)).bind (fun _ v₃ hv₃ => ?_)
      fun e v _ text h => nomatch h
    obtain ⟨hstep₃, -, hworld₃, hhistory₃⟩ := hv₃ rfl
    refine (collect_got hstep₃ first.body).bind (fun answer v₄ hv₄ => ?_)
      fun e v _ text h => nomatch h
    obtain ⟨u, frames, closing, hu, hclosing, hframes, rfl, hlast⟩ := hv₄ answer rfl
    obtain ⟨more, hmore, hquiet'⟩ := hu.history
    refine ends_pure ?_
    rintro text ⟨⟩
    refine ⟨u, echoes ++ [first] ++ (frames ++ [closing]), more ++ .sent .tcp c₂.peer
      (Rcon.Request.terminator w.1.requestId).bytes :: (new ++ [.sent .tcp c.peer
        (Rcon.Request.exec w.1.requestId command).bytes]), ?_, ?_, ?_, ?_, ?_, ?_, hlast⟩
    · rw [← List.append_assoc]
      exact hu.inStep
    · rw [hu.world, hworld₃, hgot.world, hworld₁]
    · rw [hmore, hhistory₃, hbefore, hnew, hhistory₁]
      simp only [List.append_assoc, List.cons_append, List.nil_append]
    · intro e he
      simp only [List.mem_append, List.mem_cons, List.not_mem_nil, or_false] at he
      rcases he with he | rfl | he | rfl
      · exact (hquiet' e he).not_breaks
      · exact id
      · exact hunbroken e he
      · exact id
    · simp [hclosing]
    · have hsplit : echoes ++ [first] ++ (frames ++ [closing]) =
          echoes ++ first :: (frames ++ [closing]) := by
        simp only [List.append_assoc, List.cons_append, List.nil_append]
      have hrest : Rcon.printed (frames ++ [closing]) = Rcon.printed frames := by
        simp only [Rcon.Reply.isClosing, Bool.and_eq_true, Bool.not_eq_true',
          decide_eq_true_eq] at hclosing
        simp [Rcon.printed_append, hframes, Rcon.printed, hclosing]
      rw [hsplit, hprinted, if_neg hbody, hrest, outputText, String.join_cons]

end Steps

/-- What a server owes over the stream of the console, and the client has not received. -/
def Owes (answer : List Event → SocketAddress → List UInt8 → List Rcon.Reply)
    (w : SourceSession × Network) (debt : List Rcon.Reply) : Prop :=
  if w.1.console.any (·.isConnected) then
    ∃ taken, Rcon.AreFrames (receivedBytes (sinceOpened w.2.history)) taken ∧
      inAnswer answer w.2.history = taken ++ debt
  else debt = []

/-- The query channel of a session is as it should be, and if the console has a stream, it is in
step. -/
structure IsClean (w : SourceSession × Network) : Prop where
  query : ∀ query, w.1.query = some query → query.socket.transport = .udp
  console : ∀ console, w.1.console = some console → ConsoleChannel.IsClean (console, w.2)

variable {answer : List Event → SocketAddress → List UInt8 → List Rcon.Reply}

theorem sendsNothing_beforeSend (c : ConsoleChannel × Network) :
    SendsNothing c.2.history (ConsoleChannel.beforeSend c) := by
  rw [ConsoleChannel.beforeSend]
  split
  · refine ⟨[], rfl, fun e he => ?_⟩
    cases he
  · refine ⟨[_], rfl, fun e he peer bytes heq => ?_⟩
    rw [List.mem_singleton.1 he] at heq
    cases heq

/-- What a server owes in front of a frame that is sent. -/
theorem IsClean.owes {w : SourceSession × Network} {c : ConsoleChannel} (h : IsClean w)
    (hserver : w.2.world.AnswersInOrder answer) (hs : w.1.console = some c) :
    ∃ taken debt, (c.stream = none ∧ taken = [] ∨
        ConsoleChannel.InStep (c, w.2) taken) ∧ Owes answer w debt ∧
      inAnswer answer (ConsoleChannel.beforeSend (c, w.2)) = taken ++ debt := by
  rcases h.console c hs with hnone | ⟨taken, hstep⟩
  · have hnone : c.stream = none := hnone
    refine ⟨[], [], .inl ⟨hnone, rfl⟩, ?_, ?_⟩
    · simp [Owes, hs, ConsoleChannel.isConnected, hnone]
    · simp [ConsoleChannel.beforeSend, ConsoleChannel.isConnected, hnone, inAnswer]
  · obtain ⟨debt, hdebt⟩ := hstep.owed hserver
    have hall : InStep w taken := ⟨c, hs, hstep⟩
    have hbefore := (hall.beforeSend hs).2
    have hframes := hstep
    obtain ⟨stream, hstream, -, -, -, htaken⟩ := hframes
    have hopen : w.1.console.any (·.isConnected) = true := by
      rw [hs]
      exact Option.isSome_of_mem hstream
    refine ⟨taken, debt, .inr hstep, ?_, ?_⟩
    · rw [Owes, if_pos hopen]
      exact ⟨taken, htaken, hdebt⟩
    · rw [hbefore]
      exact hdebt

/-- A command prints what is still owed, and then what it asks for. -/
theorem printed_of_execute {command text : String} {w v : SourceSession × Network}
    (hserver : w.2.world.AnswersInOrder answer) (hclean : IsClean w)
    (h : execute command w = .ok text v) : ∃ debt new, Owes answer w debt ∧
      v.2.history = new ++ w.2.history ∧
      text = outputText (Rcon.printed (debt ++ answersTo answer w.2.history new)) := by
  obtain ⟨c, hs⟩ : ∃ c, w.1.console = some c := by
    obtain ⟨s, u, hstate, h⟩ := bind_eq_ok h
    cases hstate
    split at h
    · obtain ⟨_, u, hsend, -⟩ := bind_eq_ok h
      obtain ⟨c, -, hconsole, -⟩ := on_eq_ok hsend
      exact ⟨c, hconsole⟩
    · cases h
  obtain ⟨taken, debt, hstart, howes, howed⟩ := hclean.owes hserver hs
  obtain ⟨u, frames, new, hu, hworld, hhistory, hunbroken, hclosing, rfl, more, hmore, hnone⟩ :=
    (execute_got command hs hstart).of_eq_ok h text rfl
  obtain ⟨opening, hopening, hquiet⟩ :=
    sendsNothing_beforeSend ((c, w.2) : ConsoleChannel × Network)
  have hhistory : u.2.history = new ++ (opening ++ w.2.history) := hopening ▸ hhistory
  -- What the command has got is the start of what was owed and what it has asked for.
  obtain ⟨last, -, hstep⟩ := hu
  obtain ⟨left, hleft⟩ := hstep.owed (hworld ▸ hserver)
  have hframes : frames ++ left = debt ++ answersTo answer (opening ++ w.2.history) new := by
    have hall : inAnswer answer u.2.history = taken ++ frames ++ left := hleft
    rw [hhistory, inAnswer_append_answersTo hunbroken, ← hopening, howed, List.append_assoc,
      List.append_assoc, List.append_cancel_left_eq] at hall
    rw [← hopening]
    exact hall.symm
  refine ⟨debt, more ++ (new ++ opening), howes, ?_, ?_⟩
  · rw [hmore, hhistory]
    simp only [List.append_assoc]
  · rw [answersTo_append, answersTo_append, answersTo_of_not_sent hquiet, answersTo_of_not_sent hnone,
      List.nil_append, List.append_nil, ← hframes, Rcon.printed_append, hclosing, if_pos rfl,
      List.append_nil]

end SourceSession

end GameQuery
