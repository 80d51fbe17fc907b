import GameQuery.Proofs.ConsoleSession
import GameQuery.Proofs.StreamPieces

namespace GameQuery

/-!
# Console output in frames

`Conversation` says what a Source server does while a client executes some commands: it answers
each with the frames of its output, sends the terminator back, and then an echo, which may be late
or never come. The frames may be cut anywhere. However they are cut, each command gives its own
output, and nothing but a late echo is left for the next one.
-/

open Dialog

namespace Rcon

theorem frameSize_start {n : Nat} (hmin : minFrameSize ≤ n) (hmax : n ≤ maxFrameSize) :
    frameSize (leBytes 4 (UInt32.ofNat n).toNat) = .ok n := by
  simp only [minFrameSize, maxFrameSize] at hmin hmax
  have hvalue : leValue (leBytes 4 (UInt32.ofNat n).toNat) = n := by
    rw [leValue_leBytes, UInt32.toNat_ofNat']
    omega
  have hint : (UInt32.ofNat n).toInt32.toInt = n := by
    have hcast : (UInt32.ofNat n).toInt32 = Int32.ofNat n := rfl
    rw [hcast, Int32.toInt_ofNat_of_lt (by omega)]
  rw [frameSize, hvalue, checkSize, hint, if_pos]
  · simp
  · simp only [minFrameSize, maxFrameSize]
    omega

theorem frameSize_of_fits {body : List UInt8} (hfits : body.length ≤ maxBodySize) :
    frameSize (leBytes 4 (UInt32.ofNat (body.length + minFrameSize)).toNat) =
      .ok (body.length + minFrameSize) := by
  simp only [maxBodySize, maxFrameSize, minFrameSize] at hfits
  apply frameSize_start
  · exact Nat.le_add_left ..
  · simp only [minFrameSize, maxFrameSize]
    omega

/-- A frame as it is written is a frame as it is read. -/
theorem isFrame_frameBytes (id : Int32) (kind : ReplyKind) {body text tail : List UInt8}
    (hfits : body.length ≤ maxBodySize) (hsplit : splitAtNul (body ++ [0, 0]) = some (text, tail)) :
    IsFrame (frameBytes id kind.number body)
      ⟨id, kind, Text.Utf8.decodeLossy text, text.isEmpty && (body ++ [0, 0]).contains 1⟩ := by
  refine ⟨_, _, rfl, length_leBytes 4 _, ?_, ?_⟩
  · rw [length_payload]
    exact frameSize_of_fits hfits
  · have hlen : ¬ (body ++ [0, 0]).length < 2 := by simp
    have hread : Reply.read (leBytes 4 id.toUInt32.toNat ++
        (leBytes 4 kind.number.toUInt32.toNat ++ (body ++ [0, 0]))) =
        .ok ⟨id, kind, Text.Utf8.decodeLossy text, text.isEmpty && (body ++ [0, 0]).contains 1⟩
          [] := by
      rw [Reply.read, (Reader.reads_i32 id).run_bind, (Reader.reads_i32 kind.number).run_bind]
      simp only [ReplyKind.ofNumber?_number]
      simp only [Bind.bind, EStateM.bind, Reader.rest, hlen, if_false, hsplit]
      rfl
    rw [Reply.decode, Reader.decode, hread]

namespace Reply

/-- A text is never taken for the echo: either it is not empty, or no byte behind it is 1. -/
theorem isFrame_text (id : Int32) (kind : ReplyKind) {text : String} (hnul : '\x00' ∉ text.toList)
    (hfits : (Text.Utf8.encode text).length ≤ maxBodySize) :
    IsFrame (frameBytes id kind.number (Text.Utf8.encode text)) { id, kind, body := text } := by
  have hzero : 0 ∉ Text.Utf8.encode text := fun h => hnul ((Text.Utf8.zero_mem_encode text).1 h)
  have hframe := isFrame_frameBytes id kind hfits (splitAtNul_append hzero [0])
  have hecho : ((Text.Utf8.encode text).isEmpty && (Text.Utf8.encode text ++ [0, 0]).contains 1) =
      false := by
    cases Text.Utf8.encode text <;> rfl
  rw [hecho, Text.Utf8.decodeLossy_encode] at hframe
  exact hframe

/-- A frame of output. -/
def output (id : Int32) (text : String) : Reply := { id, kind := .value, body := text }

theorem isFrame_output (id : Int32) {text : String} (hnul : '\x00' ∉ text.toList)
    (hfits : (Text.Utf8.encode text).length ≤ maxBodySize) :
    IsFrame (frameBytes id ReplyKind.value.number (Text.Utf8.encode text)) (output id text) :=
  isFrame_text id .value hnul hfits

theorem isFrame_terminatorEcho (id : Int32) :
    IsFrame (frameBytes id ReplyKind.value.number echoBody) (terminatorEcho id) := by
  have hsplit : splitAtNul (echoBody ++ [0, 0]) = some ([], [1, 0, 0, 0, 0]) := rfl
  have hframe := isFrame_frameBytes id .value (by decide) hsplit
  have hempty : Text.Utf8.decodeLossy [] = "" := Text.Utf8.decodeLossy_encode ""
  rw [hempty] at hframe
  exact hframe

end Reply

end Rcon

/-- What has been sent over streams, the earliest first. -/
def sentFrames : List Event → List (List UInt8)
  | [] => []
  | .sent .tcp _ bytes :: history => sentFrames history ++ [bytes]
  | _ :: history => sentFrames history

theorem sentFrames_append (new history : List Event) :
    sentFrames (new ++ history) = sentFrames history ++ sentFrames new := by
  fun_induction sentFrames new with
  | case1 => simp
  | case2 peer bytes new ih => simp only [List.cons_append, sentFrames, ih, List.append_assoc]
  | case3 e new hne ih =>
    rw [List.cons_append, sentFrames, ih]
    exact hne

theorem sentFrames_of_receptions {peer : SocketAddress} {new : List Event}
    (h : ∀ e ∈ new, e.IsReception peer) : sentFrames new = [] := by
  induction new with
  | nil => rfl
  | cons e new ih =>
    obtain ⟨he, hnew⟩ := List.forall_mem_cons.1 h
    cases e <;> simp_all [sentFrames, Event.IsReception]

namespace SourceSession

/-- A session whose console takes commands, in a world with a history: its stream brings some
bytes, and then goes on with `rest`. -/
structure Listening (peer : SocketAddress) (id : Int32) (world : World) (history : List Event)
    (bytes : List UInt8) (rest : List Arrival) (w : SourceSession × Network) : Prop where
  authenticated : w.1.authenticated = true
  requestId : w.1.requestId = id
  console : ∃ console, w.1.console = some console ∧ console.peer = peer ∧
    console.Offers bytes rest
  world : w.2.world = world
  history : w.2.history = history

/-! ## What a server does -/

/-- The echo of a terminator may be skipped at the start of an answer. -/
def MayBeSkipped (id : Int32) (bytes : List UInt8) : Prop :=
  bytes = [] ∨ Rcon.IsFrame bytes (.terminatorEcho id)

/-- The echo comes at once, or when the read for it has timed out, or later, or never; `unread` is
what is there of it afterwards. -/
inductive EchoComes (id : Int32) : List UInt8 → List Arrival → List UInt8 → Prop
  | atOnce {echo : List UInt8} : Rcon.IsFrame echo (.terminatorEcho id) → EchoComes id echo [] []
  | afterTimeout {echo unread : List UInt8} {queue : List Arrival} :
    Rcon.IsFrame echo (.terminatorEcho id) → unread <+: echo → Arrival.Brings queue unread [] →
    EchoComes id [] (.silence :: queue) unread
  | notYet : EchoComes id [] [] []

/-- A terminator is sent back behind what is still to come of the output. -/
def SendsBack (peer : SocketAddress) (id : Int32) (world : World) (history : List Event)
    (output : List UInt8) : Prop :=
  ∃ arrivals closing echo rest unread,
    world.react history .tcp peer (Rcon.Request.terminator id).bytes = .ok arrivals ∧
    Arrival.Brings arrivals (output ++ (closing ++ echo)) rest ∧
    Rcon.IsFrame closing (.output id "") ∧ EchoComes id echo rest unread

/-- A server answers a command with the frames of some texts: with an empty one, or with others.
The first frame, and a late echo before it, arrive when the command is sent, and all others when
the terminator is sent, if not before. -/
inductive Answers (command : String) : List String → SourceSession × Network → Prop
  | empty {w : SourceSession × Network} {console : ConsoleChannel} {arrivals : List Arrival}
    {unread more late frame : List UInt8} :
    w.1.console = some console → console.Offers unread [] →
    w.2.world.react w.2.history .tcp console.peer
      (Rcon.Request.exec w.1.requestId command).bytes = .ok arrivals →
    Arrival.Brings arrivals more [] → unread ++ more = late ++ frame →
    MayBeSkipped w.1.requestId late → Rcon.IsFrame frame (.output w.1.requestId "") →
    Answers command [] w
  | output {w : SourceSession × Network} {console : ConsoleChannel} {arrivals : List Arrival}
    {unread more late frame early others : List UInt8} {text : String} {texts : List String} :
    w.1.console = some console → console.Offers unread [] →
    w.2.world.react w.2.history .tcp console.peer
      (Rcon.Request.exec w.1.requestId command).bytes = .ok arrivals →
    Arrival.Brings arrivals more [] → unread ++ more = late ++ (frame ++ early) →
    MayBeSkipped w.1.requestId late → Rcon.IsFrame frame (.output w.1.requestId text) →
    Rcon.AreFrames (early ++ others) (texts.map (.output w.1.requestId)) →
    (∀ t ∈ text :: texts, t ≠ "") →
    (∀ new, ConsoleChannel.Receives console.peer (late ++ frame) new →
      SendsBack console.peer w.1.requestId w.2.world
        (new ++ .sent .tcp console.peer
          (Rcon.Request.exec w.1.requestId command).bytes :: w.2.history) others) →
    Answers command (text :: texts) w

/-- The output of a command whose answer has some texts. -/
def outputText (texts : List String) : String :=
  String.ofList (Text.trim (String.join texts).toList)

/-- A server answers some commands with some texts each, one command after another. -/
inductive Conversation : List (String × List String) → SourceSession × Network → Prop
  | nil (w : SourceSession × Network) : Conversation [] w
  | cons {command : String} {texts : List String} {w : SourceSession × Network}
    {commands : List (String × List String)} :
    Answers command texts w →
    (∀ v, execute command w = .ok (outputText texts) v → Conversation commands v) →
    Conversation ((command, texts) :: commands) w

/-- The frames that a client sends for a command whose answer has some texts. -/
def commandFrames (id : Int32) : String × List String → List (List UInt8)
  | (command, []) => [(Rcon.Request.exec id command).bytes]
  | (command, _ :: _) => [(Rcon.Request.exec id command).bytes, (Rcon.Request.terminator id).bytes]

/-! ## One frame after another -/

section Steps

variable {peer : SocketAddress} {id : Int32} {world : World} {history : List Event}
  {bytes : List UInt8} {rest : List Arrival} {w : SourceSession × Network}

theorem frame_of_listening {r : Rcon.Reply} {first : List UInt8} (hframe : Rcon.IsFrame first r)
    (hkind : r.kind = .value) (hid : r.id = id)
    (h : Listening peer id world history (first ++ bytes) rest w) :
    ∃ v new, frame w = .ok r v ∧ ConsoleChannel.Receives peer first new ∧
      Listening peer id world (new ++ history) bytes rest v := by
  obtain ⟨⟨query, console, requestId, authenticated, timeout⟩, n⟩ := w
  obtain ⟨hauth, hrequest, ⟨c, hconsole, rfl, hoffers⟩, rfl, rfl⟩ := h
  simp only at hauth hrequest hconsole
  subst hconsole
  obtain ⟨v, new, hreply, hv, hstays, hworld, hreceives⟩ :=
    ConsoleChannel.reply_of_offers none hframe (w := (c, n)) hoffers
  have hon : Dialog.on consolePart (ConsoleChannel.reply none)
      (SourceSession.mk query (some c) requestId authenticated timeout, n) =
      .ok (some r) (⟨query, some v.1, requestId, authenticated, timeout⟩, v.2) :=
    on_of_ok rfl hreply
  refine ⟨(⟨query, some v.1, requestId, authenticated, timeout⟩, v.2), new, ?_, hreceives,
    hauth, hrequest, ⟨v.1, rfl, hstays.peer, hv⟩, hworld, hstays.history⟩
  rw [frame, state_bind, bind_of_ok hon]
  simp only
  rw [if_neg]
  · rfl
  · rintro (hauthKind | hne)
    · rw [hkind] at hauthKind
      cases hauthKind
    · exact hne (hid.trans hrequest.symm)

theorem frame_of_silence {unread : List UInt8} (h : Listening peer id world history [] rest w)
    (hrest : rest = [] ∨ ∃ queue, rest = .silence :: queue)
    (hunread : Arrival.Brings rest.tail unread []) :
    ∃ v new, frame w = .error .timeout v ∧ ConsoleChannel.Receives peer [] new ∧
      Listening peer id world (new ++ history) unread [] v := by
  obtain ⟨⟨query, console, requestId, authenticated, timeout⟩, n⟩ := w
  obtain ⟨hauth, hrequest, ⟨c, hconsole, rfl, hoffers⟩, rfl, rfl⟩ := h
  simp only at hauth hrequest hconsole
  subst hconsole
  obtain ⟨v, new, s, hreply, hstays, hworld, hreceives, hs, hqueue⟩ :=
    ConsoleChannel.reply_of_silence none (w := (c, n)) hoffers hrest
  refine ⟨(⟨query, some v.1, requestId, authenticated, timeout⟩, v.2), new, ?_, hreceives,
    hauth, hrequest, ⟨v.1, rfl, hstays.peer, ?_⟩, hworld, hstays.history⟩
  · rw [frame, state_bind]
    simp only [Bind.bind, EStateM.bind, Dialog.on, consolePart, hreply]
  · obtain ⟨t, ht, htcp, hpeer⟩ := hstays.isOpen
    cases hs.symm.trans ht
    exact ⟨s, hs, htcp, hpeer, hqueue ▸ hunread⟩

theorem send_of_listening {r : Rcon.Request} {arrivals : List Arrival} {more : List UInt8}
    (hfits : (Text.Utf8.encode r.body).length ≤ Rcon.maxBodySize)
    (hreact : world.react history .tcp peer r.bytes = .ok arrivals)
    (hanswer : Arrival.Brings arrivals more rest)
    (h : Listening peer id world history bytes [] w) :
    ∃ v, Dialog.on consolePart (ConsoleChannel.send r) w = .ok () v ∧
      Listening peer id world (.sent .tcp peer r.bytes :: history) (bytes ++ more) rest v := by
  obtain ⟨⟨query, console, requestId, authenticated, timeout⟩, n⟩ := w
  obtain ⟨hauth, hrequest, ⟨c, hconsole, rfl, hoffers⟩, rfl, rfl⟩ := h
  simp only at hauth hrequest hconsole
  subst hconsole
  obtain ⟨v, hsend, hv, hworld, hstays⟩ :=
    ConsoleChannel.send_of_offers (w := (c, n)) hfits hreact hanswer hoffers
  exact ⟨(⟨query, some v.1, requestId, authenticated, timeout⟩, v.2), on_of_ok rfl hsend,
    hauth, hrequest, ⟨v.1, rfl, hstays.peer, hv⟩, hworld, hstays.history⟩

/-- The first frame of output is received, and an echo before it is skipped. -/
theorem output_of_listening {late first : List UInt8} {text : String} (hlate : MayBeSkipped id late)
    (hfirst : Rcon.IsFrame first (.output id text))
    (h : Listening peer id world history (late ++ (first ++ bytes)) rest w) :
    ∃ v new, output w = .ok (.output id text) v ∧
      ConsoleChannel.Receives peer (late ++ first) new ∧
      Listening peer id world (new ++ history) bytes rest v := by
  have hdone : ∀ {u : SourceSession × Network} {older : List Event},
      Listening peer id world older (first ++ bytes) rest u →
      ∃ v new, output u = .ok (.output id text) v ∧ ConsoleChannel.Receives peer first new ∧
        Listening peer id world (new ++ older) bytes rest v := by
    intro u older hu
    obtain ⟨v, new, hframe, hreceives, hv⟩ := frame_of_listening hfirst rfl rfl hu
    have hpass : outputPass u = .ok (.done (.output id text)) v := by
      rw [outputPass, bind_of_ok hframe]
      rfl
    exact ⟨v, new, iterate_of_done outputPass_again hpass, hreceives, hv⟩
  rcases hlate with rfl | hecho
  · exact hdone h
  · obtain ⟨u, new, hframe, hreceives, hu⟩ := frame_of_listening hecho rfl rfl h
    have hpass : outputPass w = .ok (.again ()) u := by
      rw [outputPass, bind_of_ok hframe]
      rfl
    obtain ⟨v, more, houtput, hmore, hv⟩ := hdone hu
    refine ⟨v, more ++ new, ?_, hreceives.append hmore, ?_⟩
    · rw [← houtput]
      exact iterate_of_again outputPass_again hpass
    · rw [List.append_assoc]
      exact hv

theorem takeEcho_of_listening {echo unread : List UInt8} (hecho : EchoComes id echo rest unread)
    (h : Listening peer id world history echo rest w) :
    ∃ v new, takeEcho w = .ok () v ∧ sentFrames new = [] ∧
      Listening peer id world (new ++ history) unread [] v := by
  have hsilent : ∀ {v : SourceSession × Network}, frame w = .error .timeout v →
      takeEcho w = .ok () v := by
    intro v hv
    rw [takeEcho, bind_of_ok (outcome_of_error hv)]
    rfl
  cases hecho with
  | atOnce hframe =>
    rw [← List.append_nil echo] at h
    obtain ⟨v, new, hv, hreceives, hlistening⟩ := frame_of_listening hframe rfl rfl h
    refine ⟨v, new, ?_, sentFrames_of_receptions hreceives.1, hlistening⟩
    rw [takeEcho, bind_of_ok (outcome_of_ok hv)]
    rfl
  | afterTimeout hframe hstart hqueue =>
    obtain ⟨v, new, hv, hreceives, hlistening⟩ := frame_of_silence h (.inr ⟨_, rfl⟩) hqueue
    exact ⟨v, new, hsilent hv, sentFrames_of_receptions hreceives.1, hlistening⟩
  | notYet =>
    obtain ⟨v, new, hv, hreceives, hlistening⟩ := frame_of_silence h (.inl rfl) (.nil [])
    exact ⟨v, new, hsilent hv, sentFrames_of_receptions hreceives.1, hlistening⟩

/-- The rest of the output is collected up to the frame that was sent back. -/
theorem collect_of_listening {others closing echo unread : List UInt8} {texts : List String}
    (hothers : Rcon.AreFrames others (texts.map (.output id)))
    (hne : ∀ t ∈ texts, t ≠ "") (hclosing : Rcon.IsFrame closing (.output id ""))
    (hecho : EchoComes id echo rest unread)
    (h : Listening peer id world history (others ++ (closing ++ echo)) rest w) (answer : String) :
    ∃ v new, collect answer w = .ok (answer ++ String.join texts) v ∧ sentFrames new = [] ∧
      Listening peer id world (new ++ history) unread [] v := by
  induction texts generalizing others history w answer with
  | nil =>
    cases hothers
    obtain ⟨u, new, hframe, hreceives, hu⟩ := frame_of_listening hclosing rfl rfl h
    obtain ⟨v, more, htake, hmore, hv⟩ := takeEcho_of_listening hecho hu
    have hpass : collectPass answer w = .ok (.done answer) v := by
      rw [collectPass, bind_of_ok hframe]
      change (takeEcho >>= _) u = _
      rw [bind_of_ok htake]
      rfl
    refine ⟨v, more ++ new, ?_, ?_, ?_⟩
    · rw [String.join_nil, String.append_empty]
      exact iterate_of_done collectPass_again hpass
    · rw [sentFrames_append, sentFrames_of_receptions hreceives.1, hmore]
      rfl
    · rw [List.append_assoc]
      exact hv
  | cons text texts ih =>
    cases hothers with
    | cons hfirst hothers =>
      obtain ⟨htext, hne⟩ := List.forall_mem_cons.1 hne
      rw [List.append_assoc] at h
      obtain ⟨u, new, hframe, hreceives, hu⟩ := frame_of_listening hfirst rfl rfl h
      have hpass : collectPass answer w = .ok (.again (answer ++ text)) u := by
        rw [collectPass, bind_of_ok hframe]
        change (if text = "" then _ else _ : Dialog SourceSession _) u = _
        rw [if_neg htext]
        rfl
      obtain ⟨v, more, hcollect, hmore, hv⟩ := ih hothers hne hu (answer ++ text)
      refine ⟨v, more ++ new, ?_, ?_, ?_⟩
      · rw [String.join_cons, ← String.append_assoc, ← hcollect]
        exact iterate_of_again collectPass_again hpass
      · rw [sentFrames_append, sentFrames_of_receptions hreceives.1, hmore]
        rfl
      · rw [List.append_assoc]
        exact hv

end Steps

/-! ## Whole answers -/

/-- A late echo may be left, or what has arrived of it. -/
def MayLinger (id : Int32) (unread : List UInt8) : Prop :=
  ∃ echo, Rcon.IsFrame echo (.terminatorEcho id) ∧ unread <+: echo

theorem mayLinger_nil (id : Int32) : MayLinger id [] :=
  ⟨_, Rcon.Reply.isFrame_terminatorEcho id, List.nil_prefix⟩

theorem EchoComes.mayLinger {id : Int32} {echo unread : List UInt8} {rest : List Arrival}
    (h : EchoComes id echo rest unread) : MayLinger id unread := by
  cases h with
  | atOnce => exact mayLinger_nil id
  | afterTimeout hframe hstart => exact ⟨_, hframe, hstart⟩
  | notYet => exact mayLinger_nil id

theorem execute_bind {command : String} {w u : SourceSession × Network}
    (hauth : w.1.authenticated = true)
    (hsend : Dialog.on consolePart (ConsoleChannel.send (.exec w.1.requestId command)) w = .ok () u)
    {first : Rcon.Reply} {v : SourceSession × Network} (houtput : output u = .ok first v) :
    execute command w = (if first.body = "" then return "" else do
      .on consolePart (ConsoleChannel.send (.terminator w.1.requestId))
      let answer ← collect first.body
      return String.ofList (Text.trim answer.toList) : Dialog SourceSession String) v := by
  rw [execute, state_bind, if_pos hauth]
  change (Dialog.on consolePart _ >>= _) w = _
  rw [bind_of_ok hsend, bind_of_ok houtput]

/-- A command gives the output that its answer has. -/
theorem execute_of_answers {command : String} {texts : List String} {w : SourceSession × Network}
    (hauth : w.1.authenticated = true)
    (hfits : (Text.Utf8.encode command).length ≤ Rcon.maxBodySize) (h : Answers command texts w) :
    ∃ peer v new unread, execute command w = .ok (outputText texts) v ∧
      sentFrames new = commandFrames w.1.requestId (command, texts) ∧
      MayLinger w.1.requestId unread ∧
      Listening peer w.1.requestId w.2.world (new ++ w.2.history) unread [] v := by
  cases h with
  | @empty _ console arrivals unread more late frame hconsole hoffers hreact hbrings hsplit hlate
      hframe =>
    have hw : Listening console.peer w.1.requestId w.2.world w.2.history unread [] w :=
      ⟨hauth, rfl, ⟨console, hconsole, rfl, hoffers⟩, rfl, rfl⟩
    obtain ⟨u, hsend, hu⟩ :=
      send_of_listening (r := .exec w.1.requestId command) hfits hreact hbrings hw
    rw [hsplit, ← List.append_nil frame] at hu
    obtain ⟨v, new, houtput, hreceives, hv⟩ := output_of_listening hlate hframe hu
    refine ⟨console.peer, v, new ++ [.sent .tcp console.peer
      (Rcon.Request.exec w.1.requestId command).bytes], [], ?_, ?_, mayLinger_nil _, ?_⟩
    · rw [execute_bind hauth hsend houtput]
      rfl
    · rw [sentFrames_append, sentFrames_of_receptions hreceives.1]
      rfl
    · rw [List.append_assoc]
      exact hv
  | @output _ console arrivals unread more late frame early others text texts hconsole hoffers
      hreact hbrings hsplit hlate hframe hothers hne hcloses =>
    have hw : Listening console.peer w.1.requestId w.2.world w.2.history unread [] w :=
      ⟨hauth, rfl, ⟨console, hconsole, rfl, hoffers⟩, rfl, rfl⟩
    obtain ⟨htext, hne⟩ := List.forall_mem_cons.1 hne
    obtain ⟨u, hsend, hu⟩ :=
      send_of_listening (r := .exec w.1.requestId command) hfits hreact hbrings hw
    rw [hsplit] at hu
    obtain ⟨u', new, houtput, hreceives, hu'⟩ := output_of_listening hlate hframe hu
    obtain ⟨arrivals', closing, echo, rest, unread', hreact', hbrings', hclosing, hecho⟩ :=
      hcloses new hreceives
    obtain ⟨u'', hsend', hu''⟩ := send_of_listening (r := .terminator w.1.requestId)
      (Nat.zero_le _) hreact' hbrings' hu'
    rw [← List.append_assoc] at hu''
    obtain ⟨v, more', hcollect, hquiet, hv⟩ :=
      collect_of_listening hothers hne hclosing hecho hu'' text
    refine ⟨console.peer, v, more' ++ (.sent .tcp console.peer
      (Rcon.Request.terminator w.1.requestId).bytes :: (new ++ [.sent .tcp console.peer
        (Rcon.Request.exec w.1.requestId command).bytes])), unread', ?_, ?_, hecho.mayLinger, ?_⟩
    · rw [execute_bind hauth hsend houtput]
      change (if text = "" then _ else _ : Dialog SourceSession String) u' = _
      rw [if_neg htext]
      rw [bind_of_ok hsend']
      change (collect text >>= _) u'' = _
      rw [bind_of_ok hcollect, outputText, String.join_cons]
      rfl
    · simp only [sentFrames_append, hquiet, sentFrames, sentFrames_of_receptions hreceives.1]
      rfl
    · simpa only [List.append_assoc, List.cons_append, List.nil_append] using hv

/-- One command after another gives its own output. -/
theorem executeAll_of_conversation {commands : List (String × List String)} {peer : SocketAddress}
    {id : Int32} {unread : List UInt8} {w : SourceSession × Network}
    (hw : Listening peer id w.2.world w.2.history unread [] w) (hunread : MayLinger id unread)
    (hfits : ∀ c ∈ commands, (Text.Utf8.encode c.1).length ≤ Rcon.maxBodySize)
    (h : Conversation commands w) :
    ∃ peer v new unread, (commands.map Prod.fst).mapM execute w =
        .ok (commands.map fun c => outputText c.2) v ∧
      sentFrames new = commands.flatMap (commandFrames id) ∧ MayLinger id unread ∧
      Listening peer id w.2.world (new ++ w.2.history) unread [] v := by
  induction commands generalizing peer unread w with
  | nil => exact ⟨peer, w, [], unread, rfl, rfl, hunread, hw⟩
  | cons c commands ih =>
    obtain ⟨command, texts⟩ := c
    obtain ⟨hfit, hfits⟩ := List.forall_mem_cons.1 hfits
    cases h with
    | cons hanswers hnext =>
      obtain ⟨peer, u, new, unread, hexecute, hsent, hunread, hu⟩ :=
        execute_of_answers hw.authenticated hfit hanswers
      rw [hw.requestId] at hsent hunread hu
      have hu' : Listening peer id u.2.world u.2.history unread [] u := by
        rw [hu.world, hu.history]
        exact hu
      obtain ⟨peer, v, more, unread, hall, hmore, hlast, hv⟩ :=
        ih hu' hunread hfits (hnext u hexecute)
      rw [hu.world, hu.history, ← List.append_assoc] at hv
      refine ⟨peer, v, more ++ new, unread, ?_, ?_, hlast, hv⟩
      · rw [List.map_cons, List.mapM_cons, bind_of_ok hexecute, bind_of_ok hall]
        rfl
      · rw [sentFrames_append, hsent, hmore, List.flatMap_cons]

/-! ## Behind a password -/

theorem close_ends_any (w : ConsoleChannel × Network) :
    Ends ConsoleChannel.close w fun _ v => v.1.stream = none := by
  obtain ⟨⟨peer, stream, timeout⟩, n⟩ := w
  cases stream <;> rfl

theorem askPassword_isOpen (id : Int32) (password : String) (w : ConsoleChannel × Network) :
    Ends (askPassword id password) w fun r v => ∀ reply, r = .ok reply → v.1.IsOpen := by
  refine (close_ends_any w).bind (fun _ u hclosed => ?_) fun e v _ reply h => nomatch h
  refine (ConsoleChannel.send_ends_of_closed _ hclosed).bind (fun _ v hv => ?_)
    fun e v _ reply h => nomatch h
  refine (authAnswer_ends hv.isOpen).imp ?_
  rintro r v' ⟨new, -, hr⟩ reply rfl
  exact hr.1.isOpen

/-- A password that is accepted leaves the stream open. -/
theorem authenticate_ends (password : String) (w : SourceSession × Network) :
    Ends (authenticate password) w fun r v => r = .ok true → v.1.authenticated = true ∧
      ∃ console, v.1.console = some console ∧ console.IsOpen := by
  obtain ⟨⟨query, console, requestId, authenticated, timeout⟩, n⟩ := w
  refine ends_network_bind (ends_modifyState_bind ?_)
  generalize Int32.ofNat (n.world.sessionId n.history).toNat = id
  cases console with
  | none =>
    refine Ends.bind (Q := fun r _ => r = .error .dropped) (ends_on_none rfl rfl) ?_ ?_
    · exact fun reply v h => nomatch h
    · exact fun e v _ h => nomatch h
  | some console =>
    refine Ends.bind (on_console rfl (askPassword_isOpen id password _)) ?_ fun e v _ h => nomatch h
    rintro reply ⟨s, n⟩ ⟨console, rfl, hopen⟩
    split
    · exact fun h => nomatch h
    · refine ends_modifyState_bind ?_
      have hopen := hopen reply rfl
      split
      · next hid => exact fun _ => ⟨decide_eq_true hid, _, rfl, hopen⟩
      · next hid =>
        intro h
        exact absurd (Except.ok.inj h) (by simpa using hid)


/-- Nothing waits to be received from the console. -/
def NothingUnread (s : SourceSession) : Prop :=
  ∀ console stream, s.console = some console → console.stream = some stream →
    Arrival.Brings stream.queue [] []

/-- Nothing but a late echo waits to be received from the console, which is open. -/
def OnlyEchoUnread (s : SourceSession) : Prop :=
  ∃ console unread, s.console = some console ∧ console.Offers unread [] ∧
    MayLinger s.requestId unread

/-- Commands that a server answers give their own outputs, each with its own frames and no others
sent for it. -/
theorem outputs_of_conversation {password : String} {start w : SourceSession × Network}
    {commands : List (String × List String)} (hauth : authenticate password start = .ok true w)
    (hunread : w.1.NothingUnread)
    (hfits : ∀ c ∈ commands, (Text.Utf8.encode c.1).length ≤ Rcon.maxBodySize)
    (hanswers : Conversation commands w) :
    ∃ v new, (commands.map Prod.fst).mapM execute w =
        .ok (commands.map fun c => outputText c.2) v ∧
      v.1.authenticated = true ∧ v.1.requestId = w.1.requestId ∧ v.1.OnlyEchoUnread ∧
      v.2.history = new ++ w.2.history ∧
      sentFrames new = commands.flatMap (commandFrames w.1.requestId) := by
  obtain ⟨hlive, console, hconsole, stream, hstream, htcp, hpeer⟩ :=
    (authenticate_ends password start).of_eq_ok hauth rfl
  have hw : Listening console.peer w.1.requestId w.2.world w.2.history [] [] w :=
    ⟨hlive, rfl, ⟨console, hconsole, rfl, stream, hstream, htcp, hpeer,
      hunread console stream hconsole hstream⟩, rfl, rfl⟩
  obtain ⟨peer, v, new, unread, hall, hsent, hlinger, hv⟩ :=
    executeAll_of_conversation hw (mayLinger_nil _) hfits hanswers
  obtain ⟨last, hlast, -, hoffers⟩ := hv.console
  refine ⟨v, new, hall, hv.authenticated, hv.requestId, ⟨last, unread, hlast, hoffers, ?_⟩,
    hv.history, hsent⟩
  rw [hv.requestId]
  exact hlinger

section Hesitant

/-- A frame of output in a session with the id 1. -/
def outputFrame (text : String) : List UInt8 :=
  Rcon.frameBytes 1 Rcon.ReplyKind.value.number (Text.Utf8.encode text)

def echoFrame : List UInt8 := Rcon.frameBytes 1 Rcon.ReplyKind.value.number Rcon.Reply.echoBody

/-- A console that cuts a frame in two, and whose echoes come late. -/
def hesitantWorld : World where
  connect _ _ _ := none
  react _ _ _ bytes :=
    if Rcon.frameKind bytes = Rcon.Request.authKind.toUInt32.toNat then
      .ok [.data (Rcon.frameBytes 1 Rcon.ReplyKind.auth.number [])]
    else if Rcon.frameKind bytes = Rcon.Request.execKind.toUInt32.toNat then
      .ok [.data ((outputFrame "a").take 7), .delay 10, .data ((outputFrame "a").drop 7)]
    else .ok [.data (outputFrame "b" ++ outputFrame ""), .silence, .data echoFrame]
  resolve _ := none
  sessionId _ := 1

def hesitantPeer : SocketAddress := .v4 ⟨⟨127, 0, 0, 1⟩, gamePort⟩

def hesitantQuery : QueryChannel :=
  ⟨⟨⟨.udp, hesitantPeer, []⟩, none, ⟨1400, by decide, by decide⟩⟩, { framing := .source }⟩

/-- A session before its first password. -/
def freshSession : SourceSession × Network :=
  ({ query := some hesitantQuery, console := some { peer := hesitantPeer } },
   { world := hesitantWorld })

/-- The session after the first password. -/
def openSession : SourceSession × Network :=
  ({ query := some hesitantQuery
     console := some { peer := hesitantPeer, stream := some ⟨.tcp, hesitantPeer, []⟩ }
     requestId := 1
     authenticated := true },
   { world := hesitantWorld
     history :=
      [.received .tcp hesitantPeer [1, 0, 0, 0, 2, 0, 0, 0, 0, 0],
        .received .tcp hesitantPeer [10, 0, 0, 0],
        .sent .tcp hesitantPeer (Rcon.Request.auth 1 "secret").bytes,
        .connected .tcp hesitantPeer none] })

theorem hesitantWorld_react (history : List Event) (peer : SocketAddress) (r : Rcon.Request) :
    hesitantWorld.react history .tcp peer r.bytes =
      if r.kind.toUInt32.toNat = Rcon.Request.authKind.toUInt32.toNat then
        .ok [.data (Rcon.frameBytes 1 Rcon.ReplyKind.auth.number [])]
      else if r.kind.toUInt32.toNat = Rcon.Request.execKind.toUInt32.toNat then
        .ok [.data ((outputFrame "a").take 7), .delay 10, .data ((outputFrame "a").drop 7)]
      else .ok [.data (outputFrame "b" ++ outputFrame ""), .silence, .data echoFrame] := by
  simp only [hesitantWorld, Rcon.Request.bytes, Rcon.frameKind_frameBytes]

theorem answers_of_hesitant {command : String} {console : ConsoleChannel} {unread : List UInt8}
    {w : SourceSession × Network} (hworld : w.2.world = hesitantWorld) (hid : w.1.requestId = 1)
    (hconsole : w.1.console = some console) (hoffers : console.Offers unread [])
    (hlate : unread = [] ∨ unread = echoFrame) : Answers command ["a", "b"] w := by
  have hframe : ∀ text ∈ ["a", "b", ""], Rcon.IsFrame (outputFrame text) (.output 1 text) := by
    intro text htext
    apply Rcon.Reply.isFrame_output
    · revert text
      decide
    · revert text
      decide
  have hecho : Rcon.IsFrame echoFrame (.terminatorEcho 1) := Rcon.Reply.isFrame_terminatorEcho 1
  have hexec := hesitantWorld_react w.2.history console.peer (.exec 1 command)
  have hfirst : Arrival.Brings
      [.data ((outputFrame "a").take 7), .delay 10, .data ((outputFrame "a").drop 7)]
      ((outputFrame "a").take 7 ++ ((outputFrame "a").drop 7 ++ [])) [] :=
    .data (by decide) (.delay 10 (.data (by decide) (.nil [])))
  have hrest : Arrival.Brings [.data (outputFrame "b" ++ outputFrame ""), .silence, .data echoFrame]
      (outputFrame "b" ++ outputFrame "" ++ []) [.silence, .data echoFrame] :=
    .data (by decide) (.nil _)
  have hlast : Arrival.Brings [.data echoFrame] (echoFrame ++ []) [] := .data (by decide) (.nil [])
  have hothers : Rcon.AreFrames ([] ++ outputFrame "b") (["b"].map (.output 1)) :=
    (hframe "b" (by decide)).areFrames
  have hsplit : unread ++ ((outputFrame "a").take 7 ++ ((outputFrame "a").drop 7 ++ [])) =
      unread ++ (outputFrame "a" ++ []) := by
    rw [← List.append_assoc (List.take ..), List.take_append_drop]
  rw [← hworld, ← hid] at hexec
  rw [← hid] at hframe hecho hothers
  refine .output hconsole hoffers hexec hfirst hsplit ?_ (hframe "a" (by decide)) hothers
    (by decide) fun new hnew => ?_
  · rcases hlate with rfl | rfl
    · exact .inl rfl
    · exact .inr hecho
  · have hreact := hesitantWorld_react (new ++ .sent .tcp console.peer
      (Rcon.Request.exec 1 command).bytes :: w.2.history) console.peer (.terminator 1)
    rw [← hworld, ← hid] at hreact
    refine ⟨_, outputFrame "", [], _, echoFrame ++ [], hreact, hrest, hframe "" (by decide), ?_⟩
    exact .afterTimeout hecho ⟨[], List.append_nil _⟩ hlast

/-- What waits in the stream to the console after an action that does not fail. -/
def queueAfter {α : Type} (d : Dialog SourceSession α) (w : SourceSession × Network) :
    Option (List Arrival) :=
  match d w with
  | .ok _ v => v.1.console.bind fun c => c.stream.map (·.queue)
  | .error _ _ => none

theorem outputs_of_conversation_hesitant : ∃ w,
    authenticate "secret" freshSession = .ok true w ∧ w.1.NothingUnread ∧
    Conversation [("status", ["a", "b"]), ("stats", ["a", "b"])] w ∧
    ∃ v new, ["status", "stats"].mapM execute w = .ok ["ab", "ab"] v ∧
      v.1.authenticated = true ∧ v.1.requestId = w.1.requestId ∧ v.1.OnlyEchoUnread ∧
      v.2.history = new ++ w.2.history ∧
      sentFrames new = [("status", ["a", "b"]), ("stats", ["a", "b"])].flatMap
        (commandFrames w.1.requestId) := by
  have hauth : authenticate "secret" freshSession = .ok true openSession := by
    with_unfolding_all rfl
  have hunread : openSession.1.NothingUnread := by
    rintro console stream ⟨⟩ ⟨⟩
    exact .nil []
  have hconsole : openSession.1.console =
      some { peer := hesitantPeer, stream := some ⟨.tcp, hesitantPeer, []⟩ } := rfl
  have hfirst : Answers "status" ["a", "b"] openSession :=
    answers_of_hesitant rfl rfl hconsole ⟨_, rfl, rfl, rfl, .nil []⟩ (.inl rfl)
  have hanswers : Conversation [("status", ["a", "b"]), ("stats", ["a", "b"])] openSession := by
    refine .cons hfirst fun v hv => .cons ?_ fun u _ => .nil u
    obtain ⟨peer, v', new, unread, hv', -, -, hlistening⟩ :=
      execute_of_answers rfl (by decide) hfirst
    cases hv.symm.trans hv'
    obtain ⟨console, hs, -, stream, hstream, htcp, hpeer, hbrings⟩ := hlistening.console
    -- The second command finds the echo of the first.
    have hqueue : queueAfter (execute "status") openSession = some [.data echoFrame] := by
      decide +kernel
    rw [queueAfter, hv] at hqueue
    simp only [hs, hstream, Option.bind_some, Option.map_some, Option.some.injEq] at hqueue
    have hecho : unread = echoFrame := by
      have hbytes := hbrings.bytes_eq
      rw [hqueue] at hbytes
      simpa only [Arrival.bytes, List.append_nil] using hbytes.symm
    exact answers_of_hesitant hlistening.world hlistening.requestId hs
      ⟨stream, hstream, htcp, hpeer, hbrings⟩ (.inr hecho)
  exact ⟨openSession, hauth, hunread, hanswers,
    outputs_of_conversation hauth hunread (by decide) hanswers⟩

end Hesitant

end SourceSession

end GameQuery
