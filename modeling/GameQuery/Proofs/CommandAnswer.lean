import GameQuery.Proofs.ReplyCodec
import GameQuery.Proofs.SocketLaws
import GameQuery.Session.GoldSrc

namespace GameQuery

/-!
# Console output in datagrams

A GoldSrc server answers a command with datagrams that hold one text each. `Waiting` says which
datagrams wait at a socket and what has happened there before. Every step of a command takes it to
another such state, and so the output is known from what the server does.
-/

/-! ## Requests -/

namespace ConsoleLine

theorem encode_commandStart :
    Text.Utf8.encode (String.ofList commandStart) = 0x72 :: [0x63, 0x6F, 0x6E, 0x20] := by decide

theorem encode_challengeText :
    Text.Utf8.encode (String.ofList challengeText) = 0x63 ::
      [0x68, 0x61, 0x6C, 0x6C, 0x65, 0x6E, 0x67, 0x65, 0x20, 0x72, 0x63, 0x6F, 0x6E] := by decide

/-- The first word of a command, its number and the password. -/
def commandBytes (number : UInt32) (password : String) : List UInt8 :=
  Text.Utf8.encode (String.ofList commandStart) ++
    (Text.Utf8.encode (String.ofList (Text.decimal number.toNat)) ++
      ([0x20] ++ Text.Utf8.encode password))

def bytes : ConsoleLine → List UInt8
  | challenge => requestStart ++ Text.Utf8.encode (String.ofList challengeText)
  | exec number password command =>
    requestStart ++ (commandBytes number password ++ ([0x20] ++ Text.Utf8.encode command))
  | more number password => requestStart ++ commandBytes number password

theorem writeCommand_eq (number : UInt32) (password : String) :
    writeCommand number password = Writer.bytes (commandBytes number password) := by
  simp only [writeCommand, Writer.chars, Writer.text, Writer.u8, Writer.bytes_bind_bytes,
    commandBytes]

theorem write_eq (line : ConsoleLine) : line.write = Writer.bytes line.bytes := by
  cases line with
  | challenge => exact Writer.bytes_bind_bytes _ _
  | exec number password command =>
    simp only [write, writeCommand_eq, Writer.u8, Writer.text, Writer.bytes_bind_bytes, bytes]
  | more number password =>
    simp only [write, writeCommand_eq, Writer.bytes_bind_bytes, bytes]

/-- Where a command has room, the request for more of its output has room, too. -/
theorem length_more_le (number : UInt32) (password command : String) :
    (more number password).bytes.length ≤ (exec number password command).bytes.length := by
  simp only [bytes, List.length_append]
  omega

end ConsoleLine

/-! ## Datagrams with text -/

/-- A datagram with console text. -/
def textDatagram (text : List Char) : List UInt8 :=
  leBytes 4 wholeHeader.toUInt32.toNat ++ 0x6C :: textBytes (String.ofList text)

/-- What a client takes for the text of a datagram. -/
def receivedText (text : List Char) : String := String.ofList (Text.dropEndWhile isTextEnd text)

theorem decode_textDatagram {text : List Char} (h : '\x00' ∉ text) :
    Reply.decode (textDatagram text) = .ok (.console (receivedText text)) := by
  have hnul : NulFree (String.ofList text) := by rwa [NulFree, String.toList_ofList]
  have hread := reads_readConsoleText hnul []
  rw [List.append_nil, String.toList_ofList] at hread
  have hkind : Reply.readKind 0x6C (textBytes (String.ofList text)) =
      .ok (.console (receivedText text)) [] :=
    Reader.map_eq_ok hread fun text => Reply.console (String.ofList text)
  rw [Reply.decode, Reader.decode, textDatagram, Reply.read_bytes_kind, hkind]

/-- A datagram that a client takes for console output with some text. -/
structure HasText (datagram : List UInt8) (text : String) : Prop where
  /-- No datagram is larger than a datagram can be. -/
  length_le : datagram.length ≤ maxDatagramSize
  decode : Reply.decode datagram = .ok (.console text)

theorem hasText_textDatagram {text : List Char} (hnul : '\x00' ∉ text)
    (hsize : (textDatagram text).length ≤ maxDatagramSize) :
    HasText (textDatagram text) (receivedText text) :=
  ⟨hsize, decode_textDatagram hnul⟩

theorem hasText_nil : HasText (textDatagram []) "" := hasText_textDatagram (by simp) (by decide)

/-! ## Headers -/

section Headers

open Reader

theorem headerOf_of_decode {α : Type} {header : Int32} {body : Reader α} {datagram : List UInt8}
    {a : α} (h : Reader.decode (do
      let read ← i32
      if read ≠ header then throw (.badHeader read)
      body) datagram = .ok a) : headerOf datagram = some header := by
  cases hsplit : splitOff 4 datagram with
  | none =>
    have hfails : i32 datagram = .error .endOfBuffer datagram := by
      simp only [i32, u32, number, bytes, Functor.map, EStateM.map, hsplit]
    simp only [Reader.decode, Bind.bind, EStateM.bind, hfails] at h
    cases h
  | some parts =>
    obtain ⟨start, tail⟩ := parts
    have hread : i32 datagram = .ok (UInt32.ofNat (leValue start)).toInt32 tail := by
      simp only [i32, u32, number, bytes, Functor.map, EStateM.map, hsplit]
    rw [headerOf, hsplit]
    by_cases hheader : (UInt32.ofNat (leValue start)).toInt32 = header
    · exact congrArg some hheader
    · simp only [Reader.decode, Bind.bind, EStateM.bind, hread, ne_eq, hheader,
        not_false_eq_true, if_true] at h
      cases h

theorem headerOf_of_decode_reply {datagram : List UInt8} {r : Reply}
    (h : Reply.decode datagram = .ok r) : headerOf datagram = some wholeHeader :=
  headerOf_of_decode h

end Headers

/-! ## Queues -/

/-- The datagrams that a queue brings, if nothing but delays comes between them. -/
def Arrival.datagrams : List Arrival → Option (List (List UInt8))
  | [] => some []
  | .data bytes :: queue => (datagrams queue).map (bytes :: ·)
  | .delay _ :: queue => datagrams queue
  | .silence :: _ | .failure _ :: _ | .closed :: _ => none

theorem Arrival.datagrams_append {queue arrivals : List Arrival} {old new : List (List UInt8)}
    (hold : datagrams queue = some old) (hnew : datagrams arrivals = some new) :
    datagrams (queue ++ arrivals) = some (old ++ new) := by
  fun_induction datagrams queue generalizing old with
  | case1 =>
    cases hold
    exact hnew
  | case2 bytes queue ih =>
    obtain ⟨rest, hrest, rfl⟩ := Option.map_eq_some_iff.1 hold
    rw [List.cons_append, datagrams, ih hrest]
    rfl
  | case3 micros queue ih => exact ih hold
  | case4 => cases hold
  | case5 => cases hold
  | case6 => cases hold

theorem Arrival.passDelays_of_datagrams {queue : List Arrival} {datagram : List UInt8}
    {datagrams : List (List UInt8)} (h : Arrival.datagrams queue = some (datagram :: datagrams)) :
    ∃ rest, (passDelays queue).2 = .data datagram :: rest ∧
      Arrival.datagrams rest = some datagrams := by
  fun_induction Arrival.datagrams queue with
  | case1 => cases h
  | case2 bytes queue _ =>
    obtain ⟨rest, hrest, he⟩ := Option.map_eq_some_iff.1 h
    cases he
    exact ⟨queue, rfl, hrest⟩
  | case3 micros queue ih => exact ih h
  | case4 => cases h
  | case5 => cases h
  | case6 => cases h

/-- Some datagrams wait at a socket of a peer, and this has happened in this world before. -/
structure Waiting (peer : SocketAddress) (world : World) (history : List Event)
    (datagrams : List (List UInt8)) (w : Socket × Network) : Prop where
  transport : w.1.transport = .udp
  peer : w.1.peer = peer
  world : w.2.world = world
  history : w.2.history = history
  datagrams : Arrival.datagrams w.1.queue = some datagrams

/-! ## Steps of a command -/

open Dialog

section Steps

variable {peer : SocketAddress} {world : World} {history : List Event}
  {datagram : List UInt8} {datagrams : List (List UInt8)}

theorem Socket.peek_of_waiting {s : Socket} {n : Network} (wait : Nat)
    (h : Waiting peer world history (datagram :: datagrams) (s, n)) :
    ∃ rest micros, peek wait (s, n) =
        .ok (some datagram) ({ s with queue := .data datagram :: rest }, n.pass micros) ∧
      Arrival.datagrams rest = some datagrams := by
  obtain ⟨rest, hqueue, hrest⟩ := Arrival.passDelays_of_datagrams h.datagrams
  refine ⟨rest, (Arrival.passDelays s.queue).1, ?_, hrest⟩
  simp only [peek]
  simp only at hqueue
  rw [hqueue]

theorem DatagramChannel.receive_take_of_waiting {c : DatagramChannel} {n : Network}
    (timeout : Option Nat) (h : Waiting peer world history (datagram :: datagrams) (c.socket, n)) :
    ∃ v, receive timeout (c, n) = .ok (datagram.take maxDatagramSize) v ∧
      Waiting peer world (.received .udp peer datagram :: history) datagrams (v.1.socket, v.2) ∧
      v.1.buffer = c.buffer.fit datagram := by
  obtain ⟨rest, micros, hpeek, hrest⟩ :=
    Socket.peek_of_waiting (n.settings.wait timeout c.timeout) h
  obtain ⟨htransport, hpeer, hworld, hhistory, -⟩ := h
  have hon := on_of_ok (p := socketPart) (s := c) rfl hpeek
  refine ⟨({ c with socket := { c.socket with queue := rest }, buffer := c.buffer.fit datagram },
    (n.pass micros).record (.received c.socket.transport c.socket.peer datagram)), ?_,
    ⟨htransport, hpeer, hworld, ?_, hrest⟩, rfl⟩
  · rw [receive, state_bind, network_bind, bind_of_ok hon]
    exact congrArg (EStateM.Result.ok · _) (c.buffer.take_fit datagram)
  · simp only at htransport hpeer hhistory
    rw [Network.record, htransport, hpeer]
    exact congrArg _ hhistory

theorem DatagramChannel.receive_of_waiting {c : DatagramChannel} {n : Network}
    (timeout : Option Nat) (hsize : datagram.length ≤ maxDatagramSize)
    (h : Waiting peer world history (datagram :: datagrams) (c.socket, n)) :
    ∃ v, receive timeout (c, n) = .ok datagram v ∧
      Waiting peer world (.received .udp peer datagram :: history) datagrams (v.1.socket, v.2) := by
  obtain ⟨v, hreceive, hv, -⟩ := receive_take_of_waiting timeout h
  rw [List.take_of_length_le hsize] at hreceive
  exact ⟨v, hreceive, hv⟩

theorem Socket.send_of_waiting {s : Socket} {n : Network} {bytes : List UInt8}
    {arrivals : List Arrival} {answer : List (List UInt8)}
    (hreact : world.react history .udp peer bytes = .ok arrivals)
    (hanswer : Arrival.datagrams arrivals = some answer)
    (h : Waiting peer world history datagrams (s, n)) :
    ∃ v, send bytes (s, n) = .ok () v ∧
      Waiting peer world (.sent .udp peer bytes :: history) (datagrams ++ answer) v := by
  obtain ⟨htransport, hpeer, hworld, hhistory, hqueue⟩ := h
  simp only at htransport hpeer hworld hhistory hqueue
  refine ⟨({ s with queue := s.queue ++ arrivals }, n.record (.sent s.transport s.peer bytes)), ?_,
    htransport, hpeer, hworld, ?_, Arrival.datagrams_append hqueue hanswer⟩
  · have hhere : n.world.react n.history s.transport s.peer bytes = .ok arrivals := by
      rw [hworld, hhistory, htransport, hpeer, hreact]
    rw [send, state_bind, network_bind]
    simp only [hhere]
    rfl
  · rw [Network.record, htransport, hpeer, hhistory]

namespace QueryChannel

theorem accept_whole {r : Reply} (h : Reply.decode datagram = .ok r) (w : QueryChannel × Network) :
    accept datagram w = .ok (some r) w := by
  simp only [accept, headerOf_of_decode_reply h, if_true, h]
  rfl

theorem reply_of_waiting {c : QueryChannel} {n : Network} {text : String}
    (timeout : Option Nat) (htext : HasText datagram text)
    (h : Waiting peer world history (datagram :: datagrams) (c.socket, n)) :
    ∃ v, reply timeout (c, n) = .ok (.console text) v ∧
      Waiting peer world (.received .udp peer datagram :: history) datagrams
        (v.1.socket, v.2) := by
  let c' : QueryChannel := { c with reassembler := c.reassembler.clear }
  obtain ⟨v, hreceive, hv⟩ :=
    DatagramChannel.receive_of_waiting (c := c'.channel) timeout htext.length_le h
  have hon := on_of_ok (p := channelPart) (s := c') rfl hreceive
  have hpass : replyPass timeout (c', n) =
      .ok (.done (.console text)) (channelPart.put v.1 c', v.2) := by
    rw [replyPass, bind_of_ok hon, bind_of_ok (accept_whole htext.decode _)]
    rfl
  refine ⟨(channelPart.put v.1 c', v.2), ?_, hv⟩
  rw [reply, modifyState_bind]
  exact iterate_of_done replyPass_shortens hpass

end QueryChannel

namespace GoldSrcSession

def IsWaiting (peer : SocketAddress) (world : World) (history : List Event)
    (datagrams : List (List UInt8)) (w : GoldSrcSession × Network) : Prop :=
  ∃ c, w.1.query = some c ∧ Waiting peer world history datagrams (c.socket, w.2)

/-- Only the channel for queries may have changed. -/
structure SameSession (s t : GoldSrcSession) : Prop where
  password : t.password = s.password
  challenge : t.challenge = s.challenge
  isHltv : t.isHltv = s.isHltv
  timeout : t.timeout = s.timeout

theorem SameSession.refl (s : GoldSrcSession) : SameSession s s := ⟨rfl, rfl, rfl, rfl⟩

theorem SameSession.trans {s t u : GoldSrcSession} (hst : SameSession s t)
    (htu : SameSession t u) : SameSession s u where
  password := htu.password.trans hst.password
  challenge := htu.challenge.trans hst.challenge
  isHltv := htu.isHltv.trans hst.isHltv
  timeout := htu.timeout.trans hst.timeout

variable {w : GoldSrcSession × Network} {text : String}

theorem consoleText_of_waiting (htext : HasText datagram text)
    (h : IsWaiting peer world history (datagram :: datagrams) w) :
    ∃ v, consoleText w = .ok text v ∧
      IsWaiting peer world (.received .udp peer datagram :: history) datagrams v ∧
      SameSession w.1 v.1 := by
  obtain ⟨c, hc, hwaiting⟩ := h
  obtain ⟨v, hreply, hv⟩ := QueryChannel.reply_of_waiting none htext hwaiting
  have hon := on_of_ok (p := queryPart) hc hreply
  refine ⟨(queryPart.put v.1 w.1, v.2), ?_, ⟨v.1, rfl, hv⟩, rfl, rfl, rfl, rfl⟩
  rw [consoleText, bind_of_ok hon]
  rfl

/-- A line goes out, and its answer waits behind what already waits. -/
theorem sendLine_of_waiting {line : ConsoleLine} {arrivals : List Arrival}
    {answer : List (List UInt8)} (hfits : line.bytes.length ≤ requestRoom)
    (hreact : world.react history .udp peer line.bytes = .ok arrivals)
    (hanswer : Arrival.datagrams arrivals = some answer)
    (h : IsWaiting peer world history datagrams w) :
    ∃ v, sendLine line w = .ok () v ∧
      IsWaiting peer world (.sent .udp peer line.bytes :: history) (datagrams ++ answer) v ∧
      SameSession w.1 v.1 := by
  obtain ⟨c, hc, hwaiting⟩ := h
  obtain ⟨v, hsend, hv⟩ := Socket.send_of_waiting hreact hanswer hwaiting
  have hroom : line.bytes.length ≤ (List.replicate requestRoom (0 : UInt8)).length := by
    rwa [List.length_replicate]
  obtain ⟨filled, hencode, hbytes⟩ := Writer.encode_bytes_of_le hroom
  rw [← ConsoleLine.write_eq] at hencode
  rw [← hbytes] at hsend
  have hrequest : DatagramChannel.sendRequest line.write (c.channel, w.2) =
      .ok () ({ c.channel with socket := v.1 }, v.2) := by
    rw [DatagramChannel.sendRequest, hencode]
    exact on_of_ok (p := DatagramChannel.socketPart) (s := c.channel) rfl hsend
  have hchannel : QueryChannel.send (.console line) (c, w.2) = .ok () _ :=
    on_of_ok (p := QueryChannel.channelPart) (s := c) rfl hrequest
  exact ⟨_, on_of_ok (p := queryPart) hc hchannel, ⟨_, rfl, hv⟩, rfl, rfl, rfl, rfl⟩

theorem firstText_of_waiting (htext : HasText datagram text)
    (h : IsWaiting peer world history (datagram :: datagrams) w) :
    ∃ v, firstText w = .ok text v ∧
      IsWaiting peer world (.received .udp peer datagram :: history) datagrams v ∧
      SameSession w.1 v.1 := by
  obtain ⟨v, hconsole, hv⟩ := consoleText_of_waiting htext h
  have houtcome : Dialog.outcome consoleText w = .ok (.ok text) v := by
    simp only [Dialog.outcome, hconsole]
  refine ⟨v, ?_, hv⟩
  rw [firstText, state_bind, bind_of_ok houtcome]
  rfl

/-! ## The rest of an answer -/

theorem restPass_of_waiting (htext : HasText datagram text)
    (h : IsWaiting peer world history (datagram :: datagrams) w) (texts : List String) :
    ∃ v, restPass texts w = .ok (if text = "" then .done texts else .again (text :: texts)) v ∧
      IsWaiting peer world (.received .udp peer datagram :: history) datagrams v ∧
      SameSession w.1 v.1 := by
  obtain ⟨v, hconsole, hv⟩ := consoleText_of_waiting htext h
  refine ⟨v, ?_, hv⟩
  have houtcome : Dialog.outcome consoleText w = .ok (.ok text) v := by
    simp only [Dialog.outcome, hconsole]
  rw [restPass, bind_of_ok houtcome]
  simp only
  split <;> rfl

/-- All texts up to the empty one are taken. -/
theorem rest_of_waiting {more : List (List UInt8)} {ending : List UInt8} {texts : List String}
    (hmore : List.Forall₂ HasText more texts) (hne : ∀ text ∈ texts, text ≠ "")
    (hending : HasText ending "") (h : IsWaiting peer world history (more ++ [ending]) w)
    (earlier : List String) :
    ∃ v, rest earlier w = .ok (texts.reverse ++ earlier) v ∧
      IsWaiting peer world ((more ++ [ending]).reverse.map (.received .udp peer) ++ history) [] v ∧
      SameSession w.1 v.1 := by
  induction hmore generalizing w history earlier with
  | nil =>
    obtain ⟨v, hpass, hv⟩ := restPass_of_waiting hending h earlier
    exact ⟨v, iterate_of_done restPass_again hpass, hv⟩
  | @cons datagram text more texts htext _ ih =>
    obtain ⟨hne, hne'⟩ := List.forall_mem_cons.1 hne
    obtain ⟨u, hpass, hu, hsame⟩ := restPass_of_waiting htext h earlier
    rw [if_neg hne] at hpass
    obtain ⟨v, hrest, hv, hsame'⟩ := ih hne' hu (text :: earlier)
    have hagain : rest earlier w = rest (text :: earlier) u :=
      iterate_of_again restPass_again hpass
    refine ⟨v, ?_, ?_, hsame.trans hsame'⟩
    · rw [hagain, hrest, List.reverse_cons, List.append_assoc]
      rfl
    · simpa using hv

/-! ## Answers to a command -/

/-- Sends a command once more, with a new number, if the text that has come refuses the old one. -/
def askAgain (password command : String) (first : UInt32 × String) :
    Dialog GoldSrcSession (UInt32 × String) :=
  if badChallenge.isPrefixOf first.2.toList then do
    Dialog.note .info ("rcon: challenge " ++ toString first.1 ++ " expired")
    Dialog.modifyState fun s => { s with challenge := none }
    ask password command
  else pure first

/-- What is left of a command when its first text has come. -/
def finish (number : UInt32) (password text : String) : Dialog GoldSrcSession String := do
  checkText text
  if text = "" then return ""
  sendLine (.more number password)
  let texts ← rest [text]
  return String.intercalate " " texts.reverse

/-- A text that lets the client go on: it is neither a ban nor a refusal of the password. -/
def IsWelcome (text : String) : Prop :=
  isBan text = false ∧ badPassword.isPrefixOf text.toList = false

theorem checkText_of_isWelcome (h : IsWelcome text) (w : GoldSrcSession × Network) :
    checkText text w = .ok () w := by
  simp only [checkText, h.1, h.2]
  rfl

/-- A command goes out, and the rest of its answer waits behind the first text. -/
theorem ask_of_waiting {number : UInt32} {password command : String} {arrivals : List Arrival}
    {u : GoldSrcSession × Network} (hnumber : challengeNumber w = .ok number u)
    (hfits : (ConsoleLine.exec number password command).bytes.length ≤ requestRoom)
    (hreact : world.react history .udp peer (ConsoleLine.exec number password command).bytes =
      .ok arrivals)
    (hanswer : Arrival.datagrams arrivals = some (datagram :: datagrams))
    (htext : HasText datagram text) (hu : IsWaiting peer world history [] u) :
    ∃ v, ask password command w = .ok (number, text) v ∧
      IsWaiting peer world (.received .udp peer datagram ::
        .sent .udp peer (ConsoleLine.exec number password command).bytes :: history) datagrams v ∧
      SameSession u.1 v.1 := by
  obtain ⟨u', hsend, hu', hsame⟩ := sendLine_of_waiting hfits hreact hanswer hu
  obtain ⟨v, hfirst, hv, hsame'⟩ := firstText_of_waiting htext hu'
  refine ⟨v, ?_, hv, hsame.trans hsame'⟩
  rw [ask, bind_of_ok hnumber, bind_of_ok hsend, bind_of_ok hfirst]
  rfl

/-- The client asks for more until an empty text comes. -/
theorem finish_of_waiting {number : UInt32} {password : String} {arrivals : List Arrival}
    {more : List (List UInt8)} {ending : List UInt8} {texts : List String}
    (hwelcome : IsWelcome text) (hne : ∀ t ∈ text :: texts, t ≠ "")
    (hfits : (ConsoleLine.more number password).bytes.length ≤ requestRoom)
    (hreact : world.react history .udp peer (ConsoleLine.more number password).bytes =
      .ok arrivals)
    (hanswer : Arrival.datagrams arrivals = some [ending])
    (hmore : List.Forall₂ HasText more texts) (hending : HasText ending "")
    (h : IsWaiting peer world history more w) :
    ∃ v, finish number password text w = .ok (String.intercalate " " (text :: texts)) v ∧
      IsWaiting peer world ((more ++ [ending]).reverse.map (.received .udp peer) ++
        .sent .udp peer (ConsoleLine.more number password).bytes :: history) [] v ∧
      SameSession w.1 v.1 := by
  obtain ⟨hne, hne'⟩ := List.forall_mem_cons.1 hne
  obtain ⟨u, hsend, hu, hsame⟩ := sendLine_of_waiting hfits hreact hanswer h
  obtain ⟨v, hrest, hv, hsame'⟩ := rest_of_waiting hmore hne' hending hu [text]
  refine ⟨v, ?_, hv, hsame.trans hsame'⟩
  rw [finish, bind_of_ok (checkText_of_isWelcome hwelcome w), if_neg hne, bind_of_ok hsend,
    bind_of_ok hrest, List.reverse_append, List.reverse_reverse]
  rfl

theorem execute_of_password {command password : String}
    (hpassword : w.1.password = some password) :
    execute command w = (do
      let first ← ask password command
      let (number, text) ← askAgain password command first
      finish number password text) w := by
  rw [execute, state_bind]
  simp only [hpassword]
  apply congrArg (fun k => (ask password command >>= k) w)
  funext first
  unfold askAgain
  split <;> rfl

theorem askAgain_of_fresh {password command : String} {number : UInt32}
    (h : badChallenge.isPrefixOf text.toList = false) :
    askAgain password command (number, text) = pure (number, text) := by
  rw [askAgain, if_neg (Bool.eq_false_iff.1 h)]

end GoldSrcSession

end Steps

/-! ## A whole command -/

theorem Text.contains_of_isPrefix {part cs ds : List Char} (h : Text.contains part cs = true)
    (hstart : cs <+: ds) : Text.contains part ds = true := by
  induction cs generalizing ds with
  | nil =>
    have hpart : part = [] := by simpa [Text.contains] using h
    subst hpart
    cases ds <;> simp [Text.contains]
  | cons c cs ih =>
    obtain ⟨rest, rfl⟩ := hstart
    rw [Text.contains, Bool.or_eq_true, List.isPrefixOf_iff_prefix] at h
    rw [List.cons_append, Text.contains, Bool.or_eq_true, List.isPrefixOf_iff_prefix]
    rcases h with h | h
    · exact .inl (h.trans (List.prefix_append (c :: cs) rest))
    · exact .inr (ih h (List.prefix_append cs rest))

theorem receivedText_isPrefix (text : List Char) : (receivedText text).toList <+: text := by
  rw [receivedText, String.toList_ofList]
  exact Text.dropEndWhile_isPrefix text

/-- A command that a server answers with some texts, one in a datagram, and with an empty one when
it is asked for more. -/
structure CommandExchange (command : String) (first : List Char) (more : List (List Char)) where
  /-- The client before the command. -/
  start : GoldSrcSession × Network
  password : String
  number : UInt32
  /-- The client when it has the number. -/
  ready : GoldSrcSession × Network
  peer : SocketAddress
  /-- What arrives in answer to the command. -/
  answer : List Arrival
  /-- What arrives in answer to the request for more. -/
  ending : List Arrival
  password_eq : start.1.password = some password
  number_eq : GoldSrcSession.challengeNumber start = .ok number ready
  waiting : GoldSrcSession.IsWaiting peer ready.2.world ready.2.history [] ready
  fits : (ConsoleLine.exec number password command).bytes.length ≤ requestRoom
  answer_eq : ready.2.world.react ready.2.history .udp peer
    (ConsoleLine.exec number password command).bytes = .ok answer
  answer_datagrams : Arrival.datagrams answer = some ((first :: more).map textDatagram)
  ending_eq : ready.2.world.react
    (.received .udp peer (textDatagram first) ::
      .sent .udp peer (ConsoleLine.exec number password command).bytes :: ready.2.history)
    .udp peer (ConsoleLine.more number password).bytes = .ok ending
  ending_datagrams : Arrival.datagrams ending = some [textDatagram []]
  /-- No datagram is larger than a datagram can be. -/
  sizes : ∀ text ∈ first :: more, (textDatagram text).length ≤ maxDatagramSize
  notBanned : Text.contains GoldSrcSession.banWord first = false
  notRefused : GoldSrcSession.badPassword.isPrefixOf first = false
  notExpired : GoldSrcSession.badChallenge.isPrefixOf first = false

namespace CommandExchange

open GoldSrcSession

variable {command : String} {first : List Char} {more : List (List Char)}
  (x : CommandExchange command first more)

theorem isPrefixOf_receivedText {part text : List Char} (h : part.isPrefixOf text = false) :
    part.isPrefixOf (receivedText text).toList = false := by
  rw [Bool.eq_false_iff, Ne, List.isPrefixOf_iff_prefix] at h ⊢
  exact fun hpart => h (hpart.trans (receivedText_isPrefix text))

/-- The output of a command: the texts as they are received, with spaces in between. -/
theorem execute_eq (hnul : ∀ text ∈ first :: more, '\x00' ∉ text)
    (hne : ∀ text ∈ first :: more, receivedText text ≠ "") :
    ∃ v, execute command x.start =
      .ok (String.intercalate " " ((first :: more).map receivedText)) v := by
  have hhas : ∀ text ∈ first :: more, HasText (textDatagram text) (receivedText text) :=
    fun text htext => hasText_textDatagram (hnul text htext) (x.sizes text htext)
  obtain ⟨hfirst, hmore⟩ := List.forall_mem_cons.1 hhas
  -- The first text is no refusal, because nothing but its end is lost on the way.
  have hwelcome : IsWelcome (receivedText first) := by
    refine ⟨?_, isPrefixOf_receivedText x.notRefused⟩
    rw [isBan, Bool.eq_false_iff]
    intro h
    have hcontains := Text.contains_of_isPrefix h (receivedText_isPrefix first)
    rw [x.notBanned] at hcontains
    cases hcontains
  obtain ⟨u, hask, hu, -⟩ := ask_of_waiting x.number_eq x.fits x.answer_eq x.answer_datagrams
    hfirst x.waiting
  have htexts : List.Forall₂ HasText (more.map textDatagram) (more.map receivedText) := by
    rw [List.forall₂_map_left_iff, List.forall₂_map_right_iff]
    exact List.forall₂_same.2 hmore
  have hroom := Nat.le_trans (ConsoleLine.length_more_le x.number x.password command) x.fits
  obtain ⟨v, hfinish, -⟩ := finish_of_waiting hwelcome
    (List.forall_mem_map.2 hne : ∀ t ∈ (first :: more).map receivedText, t ≠ "")
    hroom x.ending_eq x.ending_datagrams htexts hasText_nil hu
  refine ⟨v, ?_⟩
  rw [execute_of_password x.password_eq, bind_of_ok hask,
    askAgain_of_fresh (isPrefixOf_receivedText x.notExpired), pure_bind]
  exact hfinish

end CommandExchange

end GameQuery
