import GameQuery.Proofs.CommandAnswer

namespace GameQuery

/-!
# Commands with challenge numbers

A GoldSrc server takes a command only with a challenge number that it has given out. `Obeys` says
how it deals with one command: it may have to be asked for a number, it may refuse a stored number
once, and it answers with an empty text or with any number of texts. The output is exactly the
texts, and nothing that belongs to the command is left to be mistaken for the answer to a later
request.
-/

/-- A server answers a line with some datagrams, and nothing but time passes between them. -/
def Answers (world : World) (peer : SocketAddress) (history : List Event) (line : ConsoleLine)
    (answer : List (List UInt8)) : Prop :=
  ∃ arrivals, world.react history .udp peer line.bytes = .ok arrivals ∧
    Arrival.datagrams arrivals = some answer

/-- What has happened when a line has gone out and a datagram has come. -/
def exchanged (peer : SocketAddress) (line : ConsoleLine) (datagram : List UInt8)
    (history : List Event) : List Event :=
  .received .udp peer datagram :: .sent .udp peer line.bytes :: history

/-- The datagrams that have been sent, the earliest first. -/
def sentDatagrams (history : List Event) : List (List UInt8) :=
  history.reverse.filterMap fun
    | .sent .udp _ bytes => some bytes
    | _ => none

open Dialog GoldSrcSession

/-- How a client comes by a challenge number: it uses the one it has, or it has none or may not use
it again and asks for one. -/
inductive Numbered (world : World) (peer : SocketAddress) (isHltv : Bool) :
    Option UInt32 → List Event → UInt32 → List Event → Prop
  | stored (number : UInt32) (before : List Event) (h : isHltv = false) :
    Numbered world peer isHltv (some number) before number before
  | asked {stored : Option UInt32} {before : List Event} {number : UInt32} {datagram : List UInt8}
    {text : String} (hstored : stored = none ∨ isHltv = true)
    (hanswer : Answers world peer before .challenge [datagram]) (htext : HasText datagram text)
    (hban : isBan text = false) (hnumber : lastNumber text = some number) :
    Numbered world peer isHltv stored before number (exchanged peer .challenge datagram before)

/-- What a server gives out for a command: an empty text, or some texts and then, asked for more,
an empty one. -/
inductive Served (world : World) (peer : SocketAddress) (password command : String)
    (number : UInt32) : List Event → List String → List Event → Prop
  | nothing {before : List Event} {datagram : List UInt8}
    (hanswer : Answers world peer before (.exec number password command) [datagram])
    (htext : HasText datagram "") :
    Served world peer password command number before []
      (exchanged peer (.exec number password command) datagram before)
  | texts {before : List Event} {datagram ending : List UInt8} {more : List (List UInt8)}
    {text : String} {texts : List String}
    (hanswer : Answers world peer before (.exec number password command) (datagram :: more))
    (htext : HasText datagram text) (htexts : List.Forall₂ HasText more texts)
    (hne : ∀ t ∈ text :: texts, t ≠ "") (hwelcome : IsWelcome text)
    (hmore : Answers world peer (exchanged peer (.exec number password command) datagram before)
      (.more number password) [ending])
    (hending : HasText ending "") :
    Served world peer password command number before (text :: texts)
      ((more ++ [ending]).reverse.map (.received .udp peer) ++
        .sent .udp peer (ConsoleLine.more number password).bytes ::
          exchanged peer (.exec number password command) datagram before)

/-- The server has no more use for the challenge number. -/
def IsExpired (text : String) : Prop := badChallenge.isPrefixOf text.toList = true

/-- A server obeys a command, if need be after it has refused the number that came with it. -/
inductive Obeys (world : World) (peer : SocketAddress) (isHltv : Bool) (password command : String) :
    Option UInt32 → List Event → Option UInt32 → UInt32 → List String → List Event → Prop
  | first {stored : Option UInt32} {before asked after : List Event} {number : UInt32}
    {texts : List String} (hnumber : Numbered world peer isHltv stored before number asked)
    (hserved : Served world peer password command number asked texts after)
    (hfresh : ∀ text ∈ texts.head?, ¬ IsExpired text) :
    Obeys world peer isHltv password command stored before none number texts after
  | again {stored : Option UInt32} {before asked renewed after : List Event} {old number : UInt32}
    {datagram : List UInt8} {text : String} {texts : List String}
    (hold : Numbered world peer isHltv stored before old asked)
    (hrefusal : Answers world peer asked (.exec old password command) [datagram])
    (htext : HasText datagram text) (hexpired : IsExpired text)
    (hnumber : Numbered world peer isHltv none
      (exchanged peer (.exec old password command) datagram asked) number renewed)
    (hserved : Served world peer password command number renewed texts after) :
    Obeys world peer isHltv password command stored before (some old) number texts after

/-- The lines that a client sends for a command. It asks for a number first or not, and `refused`
is a number with which the command had to be sent in vain. -/
def commandLines (asks : Bool) (refused : Option UInt32) (number : UInt32)
    (password command : String) (texts : List String) : List ConsoleLine :=
  (if asks then [.challenge] else []) ++
    (refused.toList.flatMap fun old => [.exec old password command, .challenge]) ++
      .exec number password command :: if texts = [] then [] else [.more number password]

section Steps

variable {world : World} {peer : SocketAddress} {isHltv : Bool} {password command : String}
  {stored refused : Option UInt32} {before asked after : List Event} {number : UInt32}
  {texts : List String} {w : GoldSrcSession × Network}

/-! ## What is sent -/

theorem sentDatagrams_exchanged (line : ConsoleLine) (datagram : List UInt8) :
    sentDatagrams (exchanged peer line datagram before) = sentDatagrams before ++ [line.bytes] := by
  simp [sentDatagrams, exchanged]

theorem sentDatagrams_received (datagrams : List (List UInt8)) :
    sentDatagrams (datagrams.map (.received .udp peer) ++ before) = sentDatagrams before := by
  simp [sentDatagrams, ← List.map_reverse, List.filterMap_map]

theorem Numbered.sent (h : Numbered world peer isHltv stored before number asked) :
    sentDatagrams asked = sentDatagrams before ++
      (if stored.isNone || isHltv then [ConsoleLine.challenge.bytes] else []) := by
  cases h with
  | stored number before h => simp [h]
  | asked hstored =>
    rw [sentDatagrams_exchanged]
    rcases hstored with rfl | rfl <;> simp

theorem Served.sent (h : Served world peer password command number before texts after) :
    sentDatagrams after = sentDatagrams before ++
      (.exec number password command :: if texts = [] then [] else [.more number password]).map
        ConsoleLine.bytes := by
  cases h with
  | nothing => exact sentDatagrams_exchanged _ _
  | texts =>
    rw [sentDatagrams_received]
    simp [sentDatagrams, exchanged]

theorem Obeys.sent
    (h : Obeys world peer isHltv password command stored before refused number texts after) :
    sentDatagrams after = sentDatagrams before ++
      (commandLines (stored.isNone || isHltv) refused number password command texts).map
        ConsoleLine.bytes := by
  have hasks (asks : Bool) : ((if asks then [.challenge] else []).map ConsoleLine.bytes) =
      if asks then [ConsoleLine.challenge.bytes] else [] := by cases asks <;> rfl
  cases h with
  | first hnumber hserved =>
    rw [hserved.sent, hnumber.sent, commandLines, List.map_append, List.map_append, hasks]
    simp
  | again hold hrefusal _ _ hnumber hserved =>
    rw [hserved.sent, hnumber.sent, sentDatagrams_exchanged, hold.sent, commandLines,
      List.map_append, List.map_append, hasks]
    simp

/-! ## What the client makes of it -/

theorem newChallenge_of_waiting {datagram : List UInt8} {text : String}
    (hanswer : Answers world peer before .challenge [datagram]) (htext : HasText datagram text)
    (hban : isBan text = false) (hnumber : lastNumber text = some number)
    (h : IsWaiting peer world before [] w) :
    ∃ v, newChallenge w = .ok number v ∧
      IsWaiting peer world (exchanged peer .challenge datagram before) [] v ∧
      SameSession { w.1 with challenge := some number } v.1 := by
  obtain ⟨arrivals, hreact, hdatagrams⟩ := hanswer
  obtain ⟨u, hsend, hu, hsame⟩ := sendLine_of_waiting (by decide) hreact hdatagrams h
  obtain ⟨v, hconsole, ⟨c, hc, hv⟩, hsame'⟩ := consoleText_of_waiting htext hu
  refine ⟨({ v.1 with challenge := some number }, v.2), ?_, ⟨c, hc, hv⟩, ?_⟩
  · rw [newChallenge, bind_of_ok hsend, bind_of_ok hconsole]
    simp only [hban, hnumber]
    rfl
  · have hboth := hsame.trans hsame'
    exact ⟨hboth.password, rfl, hboth.isHltv, hboth.timeout⟩

theorem challengeNumber_of_numbered (h : Numbered world peer w.1.isHltv w.1.challenge before
    number asked) (hw : IsWaiting peer world before [] w) :
    ∃ v, challengeNumber w = .ok number v ∧ IsWaiting peer world asked [] v ∧
      SameSession { w.1 with challenge := some number } v.1 := by
  generalize hstored : w.1.challenge = stored at h
  rw [challengeNumber, state_bind]
  cases h with
  | stored _ _ h =>
    refine ⟨w, ?_, hw, ?_⟩
    · simp only [hstored, h]
      rfl
    · exact ⟨rfl, hstored, rfl, rfl⟩
  | asked hneeded hanswer htext hban hnumber =>
    obtain ⟨v, hnew, hv⟩ := newChallenge_of_waiting hanswer htext hban hnumber hw
    refine ⟨v, ?_, hv⟩
    rw [hstored]
    rcases hneeded with rfl | hltv
    · exact hnew
    · cases stored with
      | none => exact hnew
      | some old => simpa only [hltv, if_true] using hnew

/-- A command that is obeyed at once: its first text, and what comes of it. -/
theorem ask_of_served {u : GoldSrcSession × Network}
    (h : Served world peer password command number asked texts after)
    (hfits : (ConsoleLine.exec number password command).bytes.length ≤ requestRoom)
    (hnumber : challengeNumber w = .ok number u) (hu : IsWaiting peer world asked [] u) :
    ∃ t, ask password command w = .ok (number, texts.headD "") t ∧
      ∃ v, finish number password (texts.headD "") t = .ok (String.intercalate " " texts) v ∧
        IsWaiting peer world after [] v ∧ SameSession u.1 v.1 := by
  cases h with
  | nothing hanswer htext =>
    obtain ⟨arrivals, hreact, hdatagrams⟩ := hanswer
    obtain ⟨t, hask, ht⟩ := ask_of_waiting hnumber hfits hreact hdatagrams htext hu
    refine ⟨t, hask, t, ?_, ht⟩
    have hwelcome : IsWelcome "" := ⟨by decide, by decide⟩
    rw [List.headD_nil, finish, bind_of_ok (checkText_of_isWelcome hwelcome t)]
    rfl
  | texts hanswer htext htexts hne hwelcome hmore hending =>
    obtain ⟨arrivals, hreact, hdatagrams⟩ := hanswer
    obtain ⟨t, hask, ht, hsame⟩ := ask_of_waiting hnumber hfits hreact hdatagrams htext hu
    obtain ⟨arrivals', hreact', hdatagrams'⟩ := hmore
    have hroom := Nat.le_trans (ConsoleLine.length_more_le number password command) hfits
    obtain ⟨v, hfinish, hv, hsame'⟩ :=
      finish_of_waiting hwelcome hne hroom hreact' hdatagrams' htexts hending ht
    exact ⟨t, hask, v, hfinish, hv, hsame.trans hsame'⟩

end Steps

namespace GoldSrcSession

/-- What comes of a command that a server obeys, and the session afterwards. -/
theorem execute_of_obeys {world : World} {peer : SocketAddress} {before after : List Event}
    {password command : String} {refused : Option UInt32} {number : UInt32} {texts : List String}
    {w : GoldSrcSession × Network} (hpassword : w.1.password = some password)
    (hqueue : IsWaiting peer world before [] w)
    (hfits : ∀ n ∈ number :: refused.toList,
      (ConsoleLine.exec n password command).bytes.length ≤ requestRoom)
    (h : Obeys world peer w.1.isHltv password command w.1.challenge before refused number texts
      after) :
    ∃ v, execute command w = .ok (String.intercalate " " texts) v ∧
      IsWaiting peer world after [] v ∧
      SameSession { w.1 with challenge := some number } v.1 := by
  cases h with
  | first hnumber hserved hfresh =>
    obtain ⟨u, hchallenge, hu, hsame⟩ := challengeNumber_of_numbered hnumber hqueue
    obtain ⟨t, hask, v, hfinish, hv, hsame'⟩ :=
      ask_of_served hserved (hfits number List.mem_cons_self) hchallenge hu
    have hnew : badChallenge.isPrefixOf (texts.headD "").toList = false := by
      cases texts with
      | nil => rfl
      | cons text texts => exact Bool.eq_false_iff.2 (hfresh text rfl)
    refine ⟨v, ?_, hv, hsame.trans hsame'⟩
    rw [execute_of_password hpassword, bind_of_ok hask, askAgain_of_fresh hnew, pure_bind]
    exact hfinish
  | @again asked renewed _ old _ datagram text _ hold hrefusal htext hexpired hnumber hserved =>
    obtain ⟨u, hchallenge, hu, hfirst⟩ := challengeNumber_of_numbered hold hqueue
    obtain ⟨arrivals, hreact, hdatagrams⟩ := hrefusal
    obtain ⟨v, hask, ⟨c, hc, hv⟩, hrefused⟩ :=
      ask_of_waiting hchallenge (hfits old (by simp)) hreact hdatagrams htext hu
    -- The client gives up the number and starts over.
    let again : GoldSrcSession × Network := ({ v.1 with challenge := none },
      v.2.logLine .info ("rcon: challenge " ++ toString old ++ " expired"))
    have hwaiting : IsWaiting peer world
        (exchanged peer (.exec old password command) datagram asked) [] again :=
      ⟨c, hc, hv.transport, hv.peer, hv.world, hv.history, hv.datagrams⟩
    have hsession := hfirst.trans hrefused
    rw [← show again.1.isHltv = w.1.isHltv from hsession.isHltv] at hnumber
    obtain ⟨u', hchallenge', hu', hrenewed⟩ := challengeNumber_of_numbered hnumber hwaiting
    obtain ⟨t, hask', v', hfinish, hv', hserved⟩ :=
      ask_of_served hserved (hfits number List.mem_cons_self) hchallenge' hu'
    refine ⟨v', ?_, hv', ?_⟩
    · have hretry : askAgain password command (old, text) v = .ok (number, texts.headD "") t :=
        (congrFun (if_pos hexpired) v).trans hask'
      rw [execute_of_password hpassword, bind_of_ok hask, bind_of_ok hretry]
      exact hfinish
    · have hend := hrenewed.trans hserved
      exact ⟨hend.password.trans hsession.password, hend.challenge,
        hend.isHltv.trans hsession.isHltv, hend.timeout.trans hsession.timeout⟩

/-- The output of a command is exactly what a server that obeys gives out for it: its texts with
spaces in between, or nothing. The client asks for a challenge number if it has none or if the
server is an HLTV proxy, and once more if the number is refused; then the command goes out a second
time. It asks for more output only if there is any. No answer is left in the queue. -/
theorem output_of_obeys {world : World} {peer : SocketAddress} {before after : List Event}
    {password command : String} {refused : Option UInt32} {number : UInt32} {texts : List String}
    {w : GoldSrcSession × Network} (hpassword : w.1.password = some password)
    (hqueue : IsWaiting peer world before [] w)
    (hfits : ∀ n ∈ number :: refused.toList,
      (ConsoleLine.exec n password command).bytes.length ≤ requestRoom)
    (h : Obeys world peer w.1.isHltv password command w.1.challenge before refused number texts
      after) :
    ∃ v, execute command w = .ok (String.intercalate " " texts) v ∧
      IsWaiting peer world after [] v ∧
      sentDatagrams v.2.history = sentDatagrams w.2.history ++
        (commandLines (w.1.challenge.isNone || w.1.isHltv) refused number password command
          texts).map ConsoleLine.bytes ∧
      v.1.challenge = some number ∧ v.1.password = some password := by
  obtain ⟨v, hexecute, hv, hsame⟩ := execute_of_obeys hpassword hqueue hfits h
  refine ⟨v, hexecute, hv, ?_, hsame.challenge, hsame.password.trans hpassword⟩
  obtain ⟨_, _, hwaiting⟩ := hqueue
  obtain ⟨_, _, hdone⟩ := hv
  rw [hwaiting.history, hdone.history]
  exact h.sent

/-! ## A number that is refused -/

section Refused

def gameServer : SocketAddress := .v4 ⟨⟨192, 0, 2, 1⟩, 27015⟩

/-- The answer to a request for a challenge number. -/
def numberDatagram : List UInt8 :=
  leBytes 4 wholeHeader.toUInt32.toNat ++ textBytes "challenge rcon 7\n"

/-- A world in which the number 5 is refused, and a command with the number 7 has two texts. -/
def refusingWorld : World where
  connect _ _ _ := none
  react _ _ _ bytes := .ok <|
    if bytes = ConsoleLine.challenge.bytes then [.delay 20, .data numberDatagram]
    else if bytes = (ConsoleLine.exec 5 "secret" "users").bytes then
      [.data (textDatagram "Bad challenge.\n".toList)]
    else if bytes = (ConsoleLine.exec 7 "secret" "users").bytes then
      [.data (textDatagram "ann\n".toList), .data (textDatagram "bob\n".toList)]
    else [.data (textDatagram [])]
  resolve _ := none
  sessionId _ := 0

def outdated : GoldSrcSession × Network :=
  ({ query := some {
      channel :=
        { socket := { transport := .udp, peer := gameServer }, buffer := .clamp queryBufferSize }
      reassembler := { framing := .goldSrc } }
     password := some "secret"
     challenge := some 5 }, { world := refusingWorld })

theorem output_of_obeys_refused :
    (outdated.1.password = some "secret" ∧ IsWaiting gameServer refusingWorld [] [] outdated ∧
        (∀ n ∈ [7, 5], (ConsoleLine.exec n "secret" "users").bytes.length ≤ requestRoom) ∧
        ∃ after, Obeys refusingWorld gameServer outdated.1.isHltv "secret" "users"
          outdated.1.challenge [] (some 5) 7 ["ann", "bob"] after) ∧
      ∃ v, execute "users" outdated = .ok "ann bob" v := by
  have hwaiting : IsWaiting gameServer refusingWorld [] [] outdated :=
    ⟨_, rfl, rfl, rfl, rfl, rfl, rfl⟩
  have hfits : ∀ n ∈ [7, 5],
      (ConsoleLine.exec n "secret" "users").bytes.length ≤ requestRoom :=
    List.forall_mem_cons.2 ⟨by decide, List.forall_mem_cons.2 ⟨by decide, nofun⟩⟩
  have hrefusal : HasText (textDatagram "Bad challenge.\n".toList) "Bad challenge." :=
    ⟨by decide, by decide +kernel⟩
  have hnumber : HasText numberDatagram "challenge rcon 7" := ⟨by decide, by decide +kernel⟩
  have hann : HasText (textDatagram "ann\n".toList) "ann" := ⟨by decide, by decide +kernel⟩
  have hbob : HasText (textDatagram "bob\n".toList) "bob" := ⟨by decide, by decide +kernel⟩
  have hasked (h : List Event) : Answers refusingWorld gameServer h .challenge [numberDatagram] :=
    ⟨_, rfl, rfl⟩
  have hold (h : List Event) : Answers refusingWorld gameServer h (.exec 5 "secret" "users")
      [textDatagram "Bad challenge.\n".toList] := ⟨_, rfl, rfl⟩
  have hnew (h : List Event) : Answers refusingWorld gameServer h (.exec 7 "secret" "users")
      [textDatagram "ann\n".toList, textDatagram "bob\n".toList] := ⟨_, rfl, rfl⟩
  have hmore (h : List Event) : Answers refusingWorld gameServer h (.more 7 "secret")
      [textDatagram []] := ⟨_, rfl, rfl⟩
  have hseven : lastNumber "challenge rcon 7" = some 7 := by decide
  have hexpired : IsExpired "Bad challenge." := by
    unfold IsExpired
    decide
  have hobeys : Obeys refusingWorld gameServer outdated.1.isHltv "secret" "users"
      outdated.1.challenge [] (some 5) 7 ["ann", "bob"] _ :=
    .again (.stored 5 [] rfl) (hold _) hrefusal hexpired
      (.asked (.inl rfl) (hasked _) hnumber (by decide) hseven)
      (.texts (hnew _) hann (.cons hbob .nil) (by decide) ⟨by decide, by decide⟩ (hmore _)
        hasText_nil)
  obtain ⟨v, hexecute, -⟩ := output_of_obeys rfl hwaiting hfits hobeys
  exact ⟨⟨rfl, hwaiting, hfits, _, hobeys⟩, v, hexecute⟩

end Refused

end GoldSrcSession

end GameQuery
