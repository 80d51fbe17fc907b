import GameQuery.Proofs.BoundSessions
import GameQuery.Proofs.CommandRun

namespace GameQuery

/-!
# Commands that are refused

A GoldSrc server refuses a command in a text like any other: the text tells of a ban, or of a bad
password, or of a challenge number that has expired. `Course` reads off the events how often a
command has gone out, and what the answers were. If there is output, then the last answer is neither
a ban nor a bad password; but it is a refusal of the number, and the output starts with it, exactly
if the server has refused two numbers for the command.
-/

open Dialog

namespace GoldSrcSession

/-! ## Attempts -/

/-- A text that refuses a command. -/
def IsRefusal (text : String) : Prop :=
  isBan text = true ∨ badPassword.isPrefixOf text.toList = true ∨ IsExpired text

/-- A text has come, and nothing else has happened. -/
def Gave (peer : SocketAddress) (text : String) (events : List Event) : Prop :=
  ∃ datagrams, QueryChannel.Waited .goldSrc peer [] datagrams (.ok (.console text)) events

/-- Time has passed, and nothing has come that is a reply. -/
def KeptSilent (peer : SocketAddress) (events : List Event) : Prop :=
  ∃ datagrams, QueryChannel.Waited .goldSrc peer [] datagrams (.error .timeout) events

/-- How a client has come by a number: it has kept one, or the server has given one to it. -/
inductive Obtained (peer : SocketAddress) (number : UInt32) : List Event → Prop
  | kept : Obtained peer number []
  | given {text : String} {events : List Event} (hgave : Gave peer text events)
    (hban : isBan text = false) (hnumber : lastNumber text = some number) :
    Obtained peer number (events ++ [.sent .udp peer ConsoleLine.challenge.bytes])

/-- A text answers a command. The silence of an HLTV proxy is taken for an empty text. -/
inductive AnsweredBy (peer : SocketAddress) (isHltv : Bool) : String → List Event → Prop
  | text {text : String} {events : List Event} (h : Gave peer text events) :
    AnsweredBy peer isHltv text events
  | silence {events : List Event} (hltv : isHltv = true) (h : KeptSilent peer events) :
    AnsweredBy peer isHltv "" events

/-- A command has gone out with a number, and a text has answered it. -/
inductive Attempted (peer : SocketAddress) (isHltv : Bool) (password command : String) :
    UInt32 × String → List Event → Prop
  | mk {number : UInt32} {text : String} {before after : List Event}
    (hnumber : Obtained peer number before) (hanswer : AnsweredBy peer isHltv text after) :
    Attempted peer isHltv password command (number, text)
      (after ++ .sent .udp peer (ConsoleLine.exec number password command).bytes :: before)

/-- How a command goes out: once, and once more with another number if the server refuses the
first one. -/
inductive Course (peer : SocketAddress) (isHltv : Bool) (password command : String) :
    Option (UInt32 × String) → UInt32 × String → List Event → Prop
  | once {last : UInt32 × String} {events : List Event}
    (h : Attempted peer isHltv password command last events) (hfresh : ¬ IsExpired last.2) :
    Course peer isHltv password command none last events
  | again {first last : UInt32 × String} {before after : List Event}
    (h : Attempted peer isHltv password command first before) (hexpired : IsExpired first.2)
    (h' : Attempted peer isHltv password command last after) :
    Course peer isHltv password command (some first) last (after ++ before)

/-- Nothing happens behind the answer to a command, or the client asks for more of it, and takes
what comes. -/
def Continued (peer : SocketAddress) (number : UInt32) (password : String) (events : List Event) :
    Prop :=
  events = [] ∨ ∃ receipts, (∀ e ∈ receipts, e.IsReceipt) ∧
    events = receipts ++ [.sent .udp peer (ConsoleLine.more number password).bytes]

/-- What a client makes of waiting for a text. -/
def Listened (peer : SocketAddress) : Except ClientError String → List Event → Prop
  | .ok text, events => Gave peer text events
  | .error e, events => e = .timeout → KeptSilent peer events

/-- The socket of a session goes to a peer, and the session knows whether it is an HLTV proxy. -/
structure IsClientOf (peer : SocketAddress) (own : Option Nat) (isHltv : Bool)
    (s : GoldSrcSession) : Prop extends IsBoundTo peer own s where
  isHltv : s.isHltv = isHltv

variable {peer : SocketAddress} {own : Option Nat} {isHltv : Bool} {s : GoldSrcSession}

theorem IsClientOf.withQuery {c : QueryChannel} (h : s.IsClientOf peer own isHltv)
    (hc : c.IsBoundTo peer .goldSrc own) :
    IsClientOf peer own isHltv { s with query := some c } := by
  refine ⟨⟨?_, h.timeout⟩, h.isHltv⟩
  rintro _ ⟨⟩
  exact hc

theorem IsClientOf.withCredentials (h : s.IsClientOf peer own isHltv) (password : Option String)
    (challenge : Option UInt32) : IsClientOf peer own isHltv { s with password, challenge } :=
  ⟨⟨h.query, h.timeout⟩, h.isHltv⟩

theorem learns_sent (line : ConsoleLine) : Learns (IsClientOf peer own isHltv)
    (fun _ new => new = [.sent .udp peer line.bytes]) (sendLine line) :=
  (QueryChannel.learns_send rfl).on (fun _ _ hs hc => hs.query _ hc)
    fun _ _ _ hs _ hc => hs.withQuery hc

theorem consoleText_listens (h : s.IsClientOf peer own isHltv) (n : Network) :
    Ends consoleText (s, n) fun r v => v.1.IsClientOf peer own isHltv ∧
      ∃ new, v.2.history = new ++ n.history ∧ (∀ e ∈ new, e.IsReceipt) ∧ Listened peer r new := by
  have hreply : Ends (on queryPart (QueryChannel.reply none)) (s, n) fun r v =>
      v.1.IsClientOf peer own isHltv ∧ ∃ new, v.2.history = new ++ n.history ∧
        (∀ e ∈ new, e.IsReceipt) ∧ (r = .error .dropped ∨
          ∃ datagrams, QueryChannel.Waited .goldSrc peer [] datagrams r new) := by
    cases hquery : s.query with
    | none => exact ends_on_none hquery ⟨h, [], rfl, List.forall_mem_nil _, .inl rfl⟩
    | some c =>
      have hends := QueryChannel.reply_ends none (h.query c hquery) n
      refine Ends.on (p := queryPart) hquery (hends.imp ?_)
      intro r v hv
      obtain ⟨hv, datagrams, hwaited⟩ := hv
      obtain ⟨new, hnew, hwaited⟩ := hwaited.exists_new
      exact ⟨h.withQuery hv, new, hnew, hwaited.isReceipt, .inr ⟨datagrams, hwaited⟩⟩
  refine hreply.bind ?_ ?_
  · intro reply v hv
    obtain ⟨hv, new, hnew, hreceipts, hwaited⟩ := hv
    obtain ⟨datagrams, hwaited⟩ := hwaited.resolve_left nofun
    cases reply with
    | console text => exact ends_pure ⟨hv, new, hnew, hreceipts, datagrams, hwaited⟩
    | _ => exact ends_throw ⟨hv, new, hnew, hreceipts, nofun⟩
  · intro e v hv
    obtain ⟨hv, new, hnew, hreceipts, hwaited⟩ := hv
    refine ⟨hv, new, hnew, hreceipts, ?_⟩
    rintro rfl
    exact hwaited.resolve_left nofun

theorem learns_listened : Learns (IsClientOf peer own isHltv)
    (fun r new => (∀ e ∈ new, e.IsReceipt) ∧ Listened peer r new) (outcome consoleText) := by
  refine fun w hw => Ends.outcome ((consoleText_listens hw w.2).imp ?_)
  intro r v hv
  obtain ⟨hv, new, hnew, hreceipts, hlistened⟩ := hv
  refine ⟨hv, new, hnew, fun e he => Event.IsReceipt.isNumberFree (hreceipts e he), ?_⟩
  rintro _ ⟨⟩
  exact ⟨hreceipts, hlistened⟩

theorem learns_gave : Learns (IsClientOf peer own isHltv) (fun text new => Gave peer text new)
    consoleText := by
  refine fun w hw => (consoleText_listens hw w.2).imp ?_
  intro r v hv
  obtain ⟨hv, new, hnew, hreceipts, hlistened⟩ := hv
  refine ⟨hv, new, hnew, fun e he => Event.IsReceipt.isNumberFree (hreceipts e he), ?_⟩
  rintro text rfl
  exact hlistened

/-! ## One attempt -/

theorem learns_accepted (text : String) : Learns (IsClientOf peer own isHltv)
    (fun number new => (isBan text = false ∧ lastNumber text = some number) ∧ new = [])
    (acceptNumber text) := by
  have hkeep : ∀ number s, IsClientOf peer own isHltv s →
      IsClientOf peer own isHltv { s with challenge := some number } :=
    fun number s hs => hs.withCredentials s.password (some number)
  unfold acceptNumber
  cases hban : isBan text with
  | true => exact learns_throw _
  | false =>
    simp only [Bool.false_eq_true, if_false]
    cases hnumber : lastNumber text with
    | none => exact learns_throw _
    | some number =>
      exact (learns_nothing_modifyState (hkeep number)).after_nothing fun _ =>
        learns_pure ⟨⟨trivial, rfl⟩, rfl⟩

theorem learns_given : Learns (IsClientOf peer own isHltv)
    (fun number new => Obtained peer number new) newChallenge := by
  rw [newChallenge_eq]
  refine (learns_sent .challenge).bind fun _ sent hsent => learns_gave.bind fun text new hgave => ?_
  refine (learns_accepted text).imp ?_
  rintro number _ ⟨⟨hban, hnumber⟩, rfl⟩
  rw [hsent]
  exact .given hgave hban hnumber

theorem learns_obtained : Learns (IsClientOf peer own isHltv)
    (fun number new => Obtained peer number new) challengeNumber := by
  refine learns_read fun s hs => ?_
  split
  · split
    · exact learns_given
    · exact learns_pure .kept
  · exact learns_given

theorem learns_answered : Learns (IsClientOf peer own isHltv)
    (fun text new => AnsweredBy peer isHltv text new) firstText := by
  refine learns_read fun s hs => learns_listened.bind fun r new hr => ?_
  obtain ⟨-, hr⟩ := hr
  split
  · exact learns_pure (.text hr)
  · split
    · next hsilent => exact learns_pure (.silence (hs.isHltv ▸ hsilent.2) (hr hsilent.1))
    · exact learns_throw _

theorem learns_attempted (password command : String) : Learns (IsClientOf peer own isHltv)
    (fun attempt new => Attempted peer isHltv password command attempt new)
    (ask password command) := by
  refine learns_obtained.bind fun number before hnumber => ?_
  refine (learns_sent _).bind fun _ sent hsent => learns_answered.bind fun text after hanswer => ?_
  refine learns_pure ?_
  have hattempt : Attempted peer isHltv password command (number, text)
      (after ++ .sent .udp peer (ConsoleLine.exec number password command).bytes :: before) :=
    .mk hnumber hanswer
  rwa [hsent, List.nil_append, List.append_assoc]

/-! ## All attempts -/

theorem learns_course {password command : String} {first : UInt32 × String} {before : List Event}
    (hfirst : Attempted peer isHltv password command first before) :
    Learns (IsClientOf peer own isHltv)
      (fun last new => ∃ refused, Course peer isHltv password command refused last (new ++ before))
      (askAgain password command first) := by
  have hforget : ∀ s, IsClientOf peer own isHltv s →
      IsClientOf peer own isHltv { s with challenge := none } :=
    fun s hs => hs.withCredentials s.password none
  unfold askAgain
  split
  · next hexpired =>
    refine (learns_nothing_note _ _).after_nothing fun _ => ?_
    refine (learns_nothing_modifyState hforget).after_nothing fun _ => ?_
    exact (learns_attempted password command).imp fun last new hlast =>
      ⟨some first, .again hfirst hexpired hlast⟩
  · next hfresh => exact learns_pure ⟨none, .once hfirst hfresh⟩

theorem learns_welcome (text : String) : Learns (IsClientOf peer own isHltv)
    (fun _ new => IsWelcome text ∧ new = []) (checkText text) := by
  have hforget : ∀ s, IsClientOf peer own isHltv s →
      IsClientOf peer own isHltv { s with password := none } :=
    fun s hs => hs.withCredentials none s.challenge
  unfold checkText
  cases hban : isBan text with
  | true => exact learns_throw ClientError.banned
  | false =>
    simp only [Bool.false_eq_true, if_false]
    split
    · exact (learns_nothing_modifyState hforget).after_nothing fun _ => learns_throw _
    · next hpassword => exact learns_pure ⟨⟨hban, Bool.eq_false_iff.2 hpassword⟩, rfl⟩

/-- The texts of an answer grow by what is received. -/
theorem learns_more (texts : List String) : Learns (IsClientOf peer own isHltv)
    (fun all new => (∀ e ∈ new, e.IsReceipt) ∧ ∃ more, all = more ++ texts) (rest texts) := by
  refine learns_iterate restPass_again
    (fun all new => (∀ e ∈ new, e.IsReceipt) ∧ ∃ more, all = more ++ texts)
    ⟨List.forall_mem_nil _, [], rfl⟩ ?_
  intro all new hall
  obtain ⟨hnew, more, rfl⟩ := hall
  refine learns_listened.bind fun r later hr => ?_
  have hall : ∀ e ∈ later ++ new, e.IsReceipt := List.forall_mem_append.2 ⟨hr.1, hnew⟩
  split
  · next text =>
    split
    · exact learns_pure ⟨hall, more, rfl⟩
    · exact learns_pure ⟨hall, text :: more, rfl⟩
  · split
    · exact learns_pure ⟨hall, more, rfl⟩
    · exact learns_throw _

theorem learns_continued (number : UInt32) (password text : String) :
    Learns (IsClientOf peer own isHltv)
      (fun output new => IsWelcome text ∧ Continued peer number password new ∧
        ∃ more, output = String.intercalate " " (text :: more)) (finish number password text) := by
  refine (learns_welcome text).bind fun _ new hchecked => ?_
  obtain ⟨hwelcome, rfl⟩ := hchecked
  split
  · next hempty =>
    rw [hempty] at hwelcome ⊢
    exact learns_pure ⟨hwelcome, .inl rfl, [], rfl⟩
  · refine (learns_sent _).bind fun _ sent hsent => ?_
    refine (learns_more [text]).bind fun texts new hmore => ?_
    obtain ⟨hreceipts, more, rfl⟩ := hmore
    refine learns_pure ⟨hwelcome, .inr ⟨new, hreceipts, ?_⟩, more.reverse, ?_⟩
    · rw [hsent]
      simp
    · rw [List.reverse_append]
      rfl

theorem isRefusal_iff_of_isWelcome {text : String} (h : IsWelcome text) :
    IsRefusal text ↔ IsExpired text := by
  simp only [IsRefusal, h.1, h.2, Bool.false_eq_true, false_or]

theorem Course.isSome_of_isExpired {password command : String} {refused : Option (UInt32 × String)}
    {last : UInt32 × String} {events : List Event}
    (h : Course peer isHltv password command refused last events) (hexpired : IsExpired last.2) :
    refused.isSome = true := by
  cases h with
  | once h hfresh => exact absurd hexpired hfresh
  | again => rfl

/-- A command that has output has been let through with its last answer, and the output starts with
this answer. -/
theorem learns_executed (password command : String) : Learns (IsClientOf peer own isHltv)
    (fun output new => ∃ refused last recent later more, new = later ++ recent ∧
      Course peer isHltv password command refused last recent ∧
      Continued peer last.1 password later ∧ IsWelcome last.2 ∧
      output = String.intercalate " " (last.2 :: more))
    (do
      let first ← ask password command
      let next ← askAgain password command first
      finish next.1 password next.2) := by
  refine (learns_attempted password command).bind fun first before hfirst => ?_
  refine (learns_course hfirst).bind fun last again hcourse => ?_
  refine (learns_continued last.1 password last.2).imp ?_
  intro output later htold
  obtain ⟨hwelcome, hlater, more, houtput⟩ := htold
  obtain ⟨refused, hcourse⟩ := hcourse
  exact ⟨refused, last, _, later, more, List.append_assoc .., hcourse, hlater, hwelcome, houtput⟩

/-- A command that has been refused is reported as executed if and only if the server has refused
two numbers for it, and tells neither of a ban nor of a bad password the second time. -/
theorem execute_reports_refusal_iff (h : s.IsBoundTo peer own) (command : String) (n : Network) :
    Ends (execute command) (s, n) fun r v => ∀ output, r = .ok output →
      ∃ password refused last recent later more, s.password = some password ∧
        v.2.history = later ++ (recent ++ n.history) ∧
        Course peer s.isHltv password command refused last recent ∧
        Continued peer last.1 password later ∧
        output = String.intercalate " " (last.2 :: more) ∧ IsWelcome last.2 ∧
        (IsRefusal last.2 ↔ refused.isSome ∧ IsExpired last.2) := by
  have hclient : s.IsClientOf peer own s.isHltv := ⟨h, rfl⟩
  cases hpassword : s.password with
  | none =>
    refine ends_state_bind ?_
    simp only [hpassword]
    exact ends_throw nofun
  | some password =>
    have hexecuted := learns_executed password command (s, n) hclient
    refine Ends.congr (hexecuted.imp ?_) (execute_of_password hpassword)
    intro r v hv output houtput
    obtain ⟨-, new, hnew, -, hr⟩ := hv
    obtain ⟨refused, last, recent, later, more, rfl, hcourse, hlater, hwelcome, hmore⟩ :=
      hr output houtput
    refine ⟨password, refused, last, recent, later, more, rfl, ?_, hcourse, hlater, hmore,
      hwelcome, ?_⟩
    · rw [hnew, List.append_assoc]
    · rw [isRefusal_iff_of_isWelcome hwelcome]
      exact ⟨fun hexpired => ⟨hcourse.isSome_of_isExpired hexpired, hexpired⟩, And.right⟩

section Twice

/-- A world in which no number lasts. -/
def fleetingWorld : World where
  connect _ _ _ := none
  react _ _ _ bytes := .ok <|
    if bytes = ConsoleLine.challenge.bytes then [.data numberDatagram]
    else if bytes = (ConsoleLine.exec 7 "secret" "users").bytes then
      [.data (textDatagram badChallenge)]
    else [.data (textDatagram [])]
  resolve _ := none
  sessionId _ := 0

/-- A client that has a password and no number. -/
def numberless : GoldSrcSession × Network :=
  ({ outdated.1 with challenge := none }, { world := fleetingWorld })

/-- The server refuses the command twice, and its second refusal is the output. -/
theorem second_refusal_is_output :
    (Ends (execute "users") numberless fun r v => r = .ok "Bad challenge." ∧
      v.2.history = exchanged gameServer (.more 7 "secret") (textDatagram [])
        (exchanged gameServer (.exec 7 "secret" "users") (textDatagram badChallenge)
          (exchanged gameServer .challenge numberDatagram
            (exchanged gameServer (.exec 7 "secret" "users") (textDatagram badChallenge)
              (exchanged gameServer .challenge numberDatagram []))))) ∧
      HasText (textDatagram badChallenge) "Bad challenge." ∧ IsRefusal "Bad challenge." := by
  refine ⟨by decide +kernel, ⟨by decide, by decide +kernel⟩, .inr (.inr ?_)⟩
  unfold IsExpired
  decide

theorem execute_reports_refusal_iff_twice : numberless.1.IsBoundTo gameServer none ∧
    ∃ v, execute "users" numberless = .ok "Bad challenge." v ∧
      ∃ password refused last recent later more, some "secret" = some password ∧
        v.2.history = later ++ recent ∧
        Course gameServer false password "users" refused last recent ∧
        Continued gameServer last.1 password later ∧
        "Bad challenge." = String.intercalate " " (last.2 :: more) ∧ IsWelcome last.2 ∧
        (IsRefusal last.2 ↔ refused.isSome ∧ IsExpired last.2) := by
  have hbound : numberless.1.IsBoundTo gameServer none := by
    refine ⟨?_, rfl⟩
    rintro c ⟨⟩
    exact ⟨rfl, rfl, rfl, rfl⟩
  have hrun : Ends (execute "users") numberless fun r _ => r = .ok "Bad challenge." := by
    decide +kernel
  have htold := execute_reports_refusal_iff hbound "users" numberless.2
  refine ⟨hbound, ?_⟩
  cases h : execute "users" numberless with
  | error e v => cases hrun.of_eq_error h
  | ok output v =>
    obtain rfl : output = "Bad challenge." := Except.ok.inj (hrun.of_eq_ok h)
    obtain ⟨password, refused, last, recent, later, more, hpassword, hhistory, htold⟩ :=
      htold.of_eq_ok h _ rfl
    replace hhistory := hhistory.trans (congrArg (later ++ ·) (List.append_nil recent))
    exact ⟨v, rfl, password, refused, last, recent, later, more, hpassword, hhistory, htold⟩

end Twice

end GoldSrcSession

end GameQuery
