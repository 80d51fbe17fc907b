import GameQuery.Proofs.CommandAnswer
import GameQuery.Proofs.Reassembly

namespace GameQuery

/-!
# What an onlooker knows

Someone who sees the datagrams of a GoldSrc client, and is told when a program sets a password or
gives the socket up, knows which password and which challenge number belong to the socket. A `Watch`
is what such an onlooker knows. It takes the replies apart as the client does, and it draws
conclusions only from the first reply to a request for a challenge number and to a command.
-/

/-- What happens to a client: an event of the network, or what a program does with it. -/
inductive Deed where
  | event (e : Event)
  | login (password : String)
  | logout
  deriving DecidableEq, Repr

def Deed.event? : Deed → Option Event
  | event e => some e
  | login _ | logout => none

/-- What a client that waits for a reply makes of a datagram, given the fragments that have come. -/
def QueryChannel.digest (r : Reassembler) (datagram : List UInt8) :
    Except CodecError (Option Reply) × Reassembler :=
  match headerOf datagram with
  | none => (.error .malformed, r)
  | some header =>
    if header = wholeHeader then ((Reply.decode datagram).map some, r)
    else if header = fragmentHeader then
      match r.push Bzip2.unpacker datagram with
      | (.error e, r) => (.error e, r)
      | (.ok none, r) => (.ok none, r)
      | (.ok (some whole), r) => ((Reply.decode whole).map some, r)
    else (.error (.badHeader header), r)

/-- What a client may have asked. -/
inductive Question where
  | number
  | command
  deriving DecidableEq, Repr

structure Watch where
  /-- Whom the socket is bound to, if there is one. -/
  peer : Option SocketAddress := none
  /-- The password that has been set since the socket was opened, unless it has been refused. -/
  password : Option String := none
  /-- The latest challenge number that has come over the socket. -/
  number : Option UInt32 := none
  /-- The question to which the next reply is the answer, and the fragments of that reply. -/
  awaited : Option (Question × Reassembler) := none

namespace Watch

/-- The question in a datagram, if it is a line for the console that has an answer of interest. -/
def question? (m : Watch) (bytes : List UInt8) : Option Question :=
  if bytes = ConsoleLine.challenge.bytes then some .number
  else
    match m.password, m.number with
    | some password, some number =>
      if (ConsoleLine.exec number password "").bytes.isPrefixOf bytes then some .command else none
    | _, _ => none

/-- The next reply is the answer to what is sent. -/
def send (m : Watch) (bytes : List UInt8) : Watch :=
  { m with awaited := (m.question? bytes).map (·, { framing := .goldSrc }) }

/-- What the answer to a question tells. `refuses` says which texts refuse the password. -/
def learn (refuses : String → Bool) (m : Watch) : Question → Reply → Watch
  | .number, .console text =>
    if GoldSrcSession.isBan text then m
    else { m with number := (GoldSrcSession.lastNumber text).or m.number }
  | .command, .console text => if refuses text then { m with password := none } else m
  | _, _ => m

theorem peer_learn (refuses : String → Bool) (m : Watch) (question : Question) (r : Reply) :
    (m.learn refuses question r).peer = m.peer := by
  unfold learn
  split
  · split <;> rfl
  · split <;> rfl
  · rfl

def receive (refuses : String → Bool) (m : Watch) (datagram : List UInt8) : Watch :=
  match m.awaited with
  | none => m
  | some (question, r) =>
    match QueryChannel.digest r (datagram.take maxDatagramSize) with
    | (.error _, _) => { m with awaited := none }
    | (.ok none, r) => { m with awaited := some (question, r) }
    | (.ok (some reply), r) =>
      if QueryChannel.isLogLine .goldSrc reply then { m with awaited := some (question, r) }
      else learn refuses { m with awaited := none } question reply

def see (refuses : String → Bool) (m : Watch) : Deed → Watch
  | .event (.connected .udp peer none) => { peer := some peer }
  | .event (.connected .udp _ (some _)) => {}
  | .event (.sent .udp _ bytes) => m.send bytes
  | .event (.received .udp _ datagram) => m.receive refuses datagram
  | .event _ => m
  | .login password => { m with password := some password }
  | .logout => {}

end Watch

/-- What an onlooker knows after some deeds, the latest first. -/
def watch (refuses : String → Bool) : List Deed → Watch
  | [] => {}
  | deed :: earlier => (watch refuses earlier).see refuses deed

/-! ## Credentials -/

/-- A datagram that carries a password. -/
def IsCommandDatagram (bytes : List UInt8) : Prop :=
  requestStart ++ Text.Utf8.encode (String.ofList ConsoleLine.commandStart) <+: bytes

/-- A datagram goes to the peer of the socket and carries the password and the number that belong
to it. -/
structure Watch.Allows (m : Watch) (peer : SocketAddress) (bytes : List UInt8) : Prop where
  peer : m.peer = some peer
  line : ∃ password number, m.password = some password ∧ m.number = some number ∧
    (bytes = (ConsoleLine.more number password).bytes ∨
      ∃ command, bytes = (ConsoleLine.exec number password command).bytes)

/-- Whenever a password is sent, it belongs to the socket, and so does the number with it. -/
def KeepsCredentials (refuses : String → Bool) (trace : List Deed) : Prop :=
  ∀ earlier peer bytes, .event (.sent .udp peer bytes) :: earlier <:+ trace →
    IsCommandDatagram bytes → (watch refuses earlier).Allows peer bytes

variable {refuses : String → Bool} {trace : List Deed}

theorem keepsCredentials_nil : KeepsCredentials refuses [] := by
  intro earlier peer bytes h
  cases List.eq_nil_of_suffix_nil h

theorem keepsCredentials_cons {deed : Deed} : KeepsCredentials refuses (deed :: trace) ↔
    KeepsCredentials refuses trace ∧ ∀ peer bytes, deed = .event (.sent .udp peer bytes) →
      IsCommandDatagram bytes → (watch refuses trace).Allows peer bytes := by
  constructor
  · intro h
    constructor
    · exact fun earlier peer bytes hsuffix =>
        h earlier peer bytes (hsuffix.trans (List.suffix_cons _ _))
    · rintro peer bytes rfl
      exact h trace peer bytes (List.suffix_refl _)
  · rintro ⟨htrace, hdeed⟩ earlier peer bytes hsuffix
    rcases List.suffix_cons_iff.1 hsuffix with heq | hsuffix
    · obtain ⟨hd, rfl⟩ := List.cons.inj heq
      exact hdeed peer bytes hd.symm
    · exact htrace earlier peer bytes hsuffix

/-! ## Requests -/

theorem isCommandDatagram_more (number : UInt32) (password : String) :
    IsCommandDatagram (ConsoleLine.more number password).bytes :=
  (List.prefix_append_right_inj requestStart).2 (List.prefix_append _ _)

theorem ConsoleLine.more_isPrefix_exec (number : UInt32) (password command : String) :
    (more number password).bytes <+: (exec number password command).bytes :=
  (List.prefix_append_right_inj requestStart).2 (List.prefix_append _ _)

theorem isCommandDatagram_exec (number : UInt32) (password command : String) :
    IsCommandDatagram (ConsoleLine.exec number password command).bytes :=
  (isCommandDatagram_more number password).trans
    (ConsoleLine.more_isPrefix_exec number password command)

theorem not_isCommandDatagram_challenge : ¬ IsCommandDatagram ConsoleLine.challenge.bytes := by
  unfold IsCommandDatagram
  decide

theorem IsCommandDatagram.ne_challenge {bytes : List UInt8} (h : IsCommandDatagram bytes) :
    bytes ≠ ConsoleLine.challenge.bytes := by
  rintro rfl
  exact not_isCommandDatagram_challenge h

theorem Request.write_of_not_console {r : Request} (hr : ∀ line, r ≠ .console line) :
    ∃ bytes, r.write = Writer.bytes bytes ∧ ¬ IsCommandDatagram bytes ∧
      bytes ≠ ConsoleLine.challenge.bytes := by
  -- The byte behind the header tells the requests apart.
  have hkind : ∃ kind rest, r.write = Writer.bytes (requestStart ++ kind :: rest) ∧
      kind ≠ 0x72 ∧ kind ≠ 0x63 := by
    cases r with
    | info r =>
      obtain ⟨_ | challenge⟩ := r
      · exact ⟨0x54, _, Writer.bytes_bind_bytes InfoRequest.start [], by decide, by decide⟩
      · exact ⟨0x54, _, Writer.bytes_bind_bytes InfoRequest.start _, by decide, by decide⟩
    | players r =>
      exact ⟨0x55, _, Writer.bytes_bind_bytes PlayersRequest.start _, by decide, by decide⟩
    | rules r =>
      exact ⟨0x56, _, Writer.bytes_bind_bytes RulesRequest.start _, by decide, by decide⟩
    | console line => exact absurd rfl (hr line)
  obtain ⟨kind, rest, hwrite, hcommand, hchallenge⟩ := hkind
  refine ⟨_, hwrite, fun h => ?_, fun h => ?_⟩
  · rw [IsCommandDatagram, ConsoleLine.encode_commandStart, List.prefix_append_right_inj,
      List.cons_prefix_cons] at h
    exact hcommand h.1.symm
  · rw [ConsoleLine.bytes, ConsoleLine.encode_challengeText, List.append_cancel_left_eq,
      List.cons.injEq] at h
    exact hchallenge h.1

namespace Watch

variable {m : Watch} {number : UInt32} {password : String}

theorem question?_challenge : m.question? ConsoleLine.challenge.bytes = some .number := if_pos rfl

theorem question?_eq_none {bytes : List UInt8} (hcommand : ¬ IsCommandDatagram bytes)
    (hchallenge : bytes ≠ ConsoleLine.challenge.bytes) : m.question? bytes = none := by
  rw [question?, if_neg hchallenge]
  split
  · next password number _ _ =>
    rw [if_neg]
    rw [List.isPrefixOf_iff_prefix]
    exact fun h => hcommand ((isCommandDatagram_exec number password "").trans h)
  · rfl

theorem question?_exec (hpassword : m.password = some password) (hnumber : m.number = some number)
    (command : String) :
    m.question? (ConsoleLine.exec number password command).bytes = some .command := by
  have hne := (isCommandDatagram_exec number password command).ne_challenge
  have hprefix : (ConsoleLine.exec number password "").bytes <+:
      (ConsoleLine.exec number password command).bytes := by
    have hempty : Text.Utf8.encode "" = [] := by decide
    simp only [ConsoleLine.bytes, hempty, List.append_nil, ← List.append_assoc]
    exact List.prefix_append _ _
  simp only [question?, hne, if_false, hpassword, hnumber,
    List.isPrefixOf_iff_prefix.2 hprefix, if_true]

theorem question?_more (hpassword : m.password = some password) (hnumber : m.number = some number) :
    m.question? (ConsoleLine.more number password).bytes = none := by
  have hne := (isCommandDatagram_more number password).ne_challenge
  have hshort : ¬ (ConsoleLine.exec number password "").bytes <+:
      (ConsoleLine.more number password).bytes := by
    intro h
    have hlength := h.length_le
    simp only [ConsoleLine.bytes, List.length_append, List.length_cons] at hlength
    omega
  rw [← List.isPrefixOf_iff_prefix] at hshort
  simp only [question?, hne, if_false, hpassword, hnumber, hshort, Bool.false_eq_true]

end Watch

/-! ## Replies -/

/-- What an onlooker knows after some more events. -/
def Watch.after (refuses : String → Bool) (m : Watch) (new : List Event) : Watch :=
  new.foldr (fun e m => m.see refuses (.event e)) m

theorem watch_append (new : List Event) :
    watch refuses (new.map .event ++ trace) = (watch refuses trace).after refuses new := by
  induction new with
  | nil => rfl
  | cons e new ih => exact congrArg (Watch.see refuses · (.event e)) ih

/-- Something is received over a socket, or nothing comes in time. -/
def Event.IsReceipt : Event → Prop
  | .received .udp _ _ | .timedOut .. => True
  | _ => False

/-- Who waits for nothing learns nothing. -/
theorem Watch.after_of_not_awaited {m : Watch} (hm : m.awaited = none) {new : List Event}
    (hnew : ∀ e ∈ new, e.IsReceipt) : m.after refuses new = m := by
  induction new with
  | nil => rfl
  | cons e new ih =>
    obtain ⟨he, hnew⟩ := List.forall_mem_cons.1 hnew
    change (m.after refuses new).see refuses (.event e) = m
    rw [ih hnew]
    unfold Event.IsReceipt at he
    split at he
    · simp only [see, receive, hm]
    · rfl
    · exact he.elim

theorem keepsCredentials_receipts {new : List Event} (hnew : ∀ e ∈ new, e.IsReceipt)
    (h : KeepsCredentials refuses trace) : KeepsCredentials refuses (new.map .event ++ trace) := by
  induction new with
  | nil => exact h
  | cons e new ih =>
    obtain ⟨he, hnew⟩ := List.forall_mem_cons.1 hnew
    refine keepsCredentials_cons.2 ⟨ih hnew, ?_⟩
    rintro peer bytes ⟨⟩
    exact he.elim

open Dialog

namespace QueryChannel

theorem accept_eq (datagram : List UInt8) (c : QueryChannel) (n : Network) :
    accept datagram (c, n) =
      match digest c.reassembler datagram with
      | (.ok reply, reassembler) => .ok reply ({ c with reassembler }, n)
      | (.error e, reassembler) => .error (.ofCodec e) ({ c with reassembler }, n) := by
  unfold accept digest
  cases headerOf datagram with
  | none => rfl
  | some header =>
    simp only
    split
    · cases Reply.decode datagram <;> rfl
    · split
      · rw [state_bind]
        cases c.reassembler.push Bzip2.unpacker datagram with
        | mk content r =>
          rcases content with e | _ | whole
          · rfl
          · rfl
          · change (some <$> ofCodec (Reply.decode whole)) _ = _
            simp only
            cases Reply.decode whole <;> rfl
      · rfl

/-- A channel to the same GoldSrc server. -/
structure SamePeer (c d : QueryChannel) : Prop where
  transport : d.socket.transport = c.socket.transport
  peer : d.socket.peer = c.socket.peer
  framing : d.reassembler.framing = c.reassembler.framing

theorem SamePeer.trans {c d e : QueryChannel} (h : c.SamePeer d) (h' : d.SamePeer e) :
    c.SamePeer e :=
  ⟨h'.transport.trans h.transport, h'.peer.trans h.peer, h'.framing.trans h.framing⟩

theorem digest_framing (r : Reassembler) (datagram : List UInt8) :
    (digest r datagram).2.framing = r.framing := by
  have hpush : (r.push Bzip2.unpacker datagram).2.framing = r.framing :=
    r.framing_apply Bzip2.unpacker (.push datagram)
  unfold digest
  split
  · rfl
  · split
    · rfl
    · split
      · split <;> next h => simpa only [h] using hpush
      · rfl

/-- What an onlooker makes of the datagrams in which a client receives a reply. -/
structure Overheard (refuses : String → Bool) (new : List Event) (r : Except ClientError Reply) :
    Prop where
  receipts : ∀ e ∈ new, e.IsReceipt
  learns : ∀ (m : Watch) question, m.awaited = some (question, { framing := .goldSrc }) →
    match r with
    | .ok reply => m.after refuses new =
        Watch.learn refuses { m with awaited := none } question reply
    | .error _ => ∃ awaited, m.after refuses new = { m with awaited }

/-- The datagrams so far have left some fragments, and the reply is still to come. -/
structure Overhearing (refuses : String → Bool) (new : List Event) (r : Reassembler) : Prop where
  receipts : ∀ e ∈ new, e.IsReceipt
  waits : ∀ (m : Watch) question, m.awaited = some (question, { framing := .goldSrc }) →
    m.after refuses new = { m with awaited := some (question, r) }

theorem Overhearing.cons {new : List Event} {r : Reassembler} (h : Overhearing refuses new r)
    (peer : SocketAddress) (bytes : List UInt8) :
    (∀ e ∈ Event.received .udp peer bytes :: new, e.IsReceipt) ∧
      ∀ (m : Watch) question, m.awaited = some (question, { framing := .goldSrc }) →
        m.after refuses (.received .udp peer bytes :: new) =
          Watch.receive refuses { m with awaited := some (question, r) } bytes := by
  constructor
  · exact List.forall_mem_cons.2 ⟨trivial, h.receipts⟩
  · intro m question hm
    exact congrArg (Watch.receive refuses · bytes) (h.waits m question hm)

theorem Overhearing.fails {new history old : List Event} {r : Reassembler}
    (h : Overhearing refuses new r) {e : ClientError}
    (hhistory : history = new ++ old ∨
      ∃ peer wait, history = .timedOut .udp peer wait :: (new ++ old)) :
    ∃ new', history = new' ++ old ∧ Overheard refuses new' (.error e) := by
  rcases hhistory with rfl | ⟨peer, wait, rfl⟩
  · exact ⟨new, rfl, h.receipts, fun m question hm => ⟨_, h.waits m question hm⟩⟩
  · refine ⟨.timedOut .udp peer wait :: new, rfl, ?_, fun m question hm => ?_⟩
    · exact List.forall_mem_cons.2 ⟨trivial, h.receipts⟩
    · exact ⟨_, h.waits m question hm⟩

theorem Overhearing.digest {new : List Event} {r : Reassembler} (h : Overhearing refuses new r)
    (peer : SocketAddress) (bytes : List UInt8) :
    match digest r (bytes.take maxDatagramSize) with
    | (.error _, _) =>
      ∀ e, Overheard refuses (.received .udp peer bytes :: new) (.error e)
    | (.ok none, r') => Overhearing refuses (.received .udp peer bytes :: new) r'
    | (.ok (some reply), r') =>
      if isLogLine .goldSrc reply then Overhearing refuses (.received .udp peer bytes :: new) r'
      else Overheard refuses (.received .udp peer bytes :: new) (.ok reply) := by
  obtain ⟨hreceipts, hwaits⟩ := h.cons peer bytes
  simp only [Watch.receive] at hwaits
  split
  · next hdigest =>
    rw [hdigest] at hwaits
    exact fun e => ⟨hreceipts, fun m question hm => ⟨none, hwaits m question hm⟩⟩
  · next hdigest =>
    rw [hdigest] at hwaits
    exact ⟨hreceipts, hwaits⟩
  · next reply r' hdigest =>
    rw [hdigest] at hwaits
    simp only at hwaits
    split
    · next hlog =>
      simp only [hlog, if_true] at hwaits
      exact ⟨hreceipts, hwaits⟩
    · next hlog =>
      simp only [hlog, Bool.false_eq_true, if_false] at hwaits
      exact ⟨hreceipts, hwaits⟩

theorem receive_ends (timeout : Option Nat) {d : QueryChannel} (m : Network)
    (hudp : d.channel.socket.transport = .udp) :
    Ends (on channelPart (DatagramChannel.receive timeout)) (d, m) fun r v =>
      d.SamePeer v.1 ∧ v.1.reassembler = d.reassembler ∧
        match r with
        | .ok datagram => ∃ peer bytes, datagram = bytes.take maxDatagramSize ∧
            v.2.history = .received .udp peer bytes :: m.history
        | .error _ => v.2.history = m.history ∨
            ∃ peer wait, v.2.history = .timedOut .udp peer wait :: m.history := by
  refine Ends.on rfl (((DatagramChannel.laterOf_receive timeout (d.channel, m)).and
    (DatagramChannel.receive_ends timeout (d.channel, m))).imp ?_)
  rintro r v ⟨hlater, hr⟩
  refine ⟨⟨hlater.transport, hlater.peer, rfl⟩, rfl, ?_⟩
  simp only [hudp] at hr
  cases r with
  | ok datagram =>
    obtain ⟨bytes, rfl, hhistory⟩ := hr
    exact ⟨_, bytes, rfl, hhistory⟩
  | error e =>
    refine hr.2.imp_right ?_
    rintro ⟨wait, hwait⟩
    exact ⟨_, wait, hwait⟩

theorem replyPass_overheard (timeout : Option Nat) {d : QueryChannel} {m : Network}
    {new old : List Event} (hudp : d.channel.socket.transport = .udp)
    (hgoldSrc : d.reassembler.framing = .goldSrc) (hold : m.history = new ++ old)
    (hover : Overhearing refuses new d.reassembler) :
    Ends (replyPass timeout) (d, m) fun r v => d.SamePeer v.1 ∧ ∃ new, v.2.history = new ++ old ∧
      match r with
      | .ok (.again _) => Overhearing refuses new v.1.reassembler
      | .ok (.done reply) => Overheard refuses new (.ok reply)
      | .error e => Overheard refuses new (.error e) := by
  refine (receive_ends timeout m hudp).bind ?_ ?_
  · rintro datagram ⟨v, m'⟩ ⟨hsame, hreassembler, peer, bytes, rfl, hhistory⟩
    have hdigest := hover.digest peer bytes
    have hframing := digest_framing d.reassembler (bytes.take maxDatagramSize)
    have haccept := accept_eq (bytes.take maxDatagramSize) v m'
    simp only at hreassembler hhistory
    rw [hold] at hhistory
    rw [hreassembler] at haccept
    cases hd : digest d.reassembler (bytes.take maxDatagramSize) with
    | mk content r =>
      rw [hd] at hdigest hframing haccept
      have hsame' : d.SamePeer { v with reassembler := r } :=
        ⟨hsame.transport, hsame.peer, hframing⟩
      rcases content with e | _ | reply
      · exact ends_of_error (bind_of_error haccept _) ⟨hsame', _, hhistory, hdigest _⟩
      · exact ends_bind_of_ok haccept ⟨hsame', _, hhistory, hdigest⟩
      · refine ends_bind_of_ok haccept (ends_state_bind ?_)
        have hgoldSrc' : r.framing = .goldSrc := hframing.trans hgoldSrc
        simp only [hgoldSrc'] at hdigest ⊢
        split
        · next hlog =>
          rw [if_pos hlog] at hdigest
          exact ends_pure ⟨hsame', _, hhistory, hdigest⟩
        · next hlog =>
          rw [if_neg hlog] at hdigest
          exact ends_pure ⟨hsame', _, hhistory, hdigest⟩
  · rintro e v ⟨hsame, -, hhistory⟩
    rw [hold] at hhistory
    exact ⟨hsame, hover.fails hhistory⟩

/-- However a reply comes, in one datagram or in fragments, an onlooker overhears it. -/
theorem reply_overheard (refuses : String → Bool) (timeout : Option Nat) {c : QueryChannel}
    (n : Network) (hudp : c.socket.transport = .udp)
    (hgoldSrc : c.reassembler.framing = .goldSrc) :
    Ends (reply timeout) (c, n) fun r v => c.SamePeer v.1 ∧
      ∃ new, v.2.history = new ++ n.history ∧ Overheard refuses new r := by
  refine ends_modifyState_bind (ends_iterate replyPass_shortens
    (fun _ w => c.SamePeer w.1 ∧
      ∃ new, w.2.history = new ++ n.history ∧ Overhearing refuses new w.1.reassembler) ?_ ?_)
  · rintro - ⟨d, m⟩ ⟨hsame, new, hnew, hover⟩
    refine (replyPass_overheard timeout (hsame.transport.trans hudp)
      (hsame.framing.trans hgoldSrc) hnew hover).imp ?_
    rintro (e | ⟨_ | reply⟩) v ⟨hsame', hv⟩
    · exact ⟨hsame.trans hsame', hv⟩
    · exact ⟨hsame.trans hsame', hv⟩
    · exact ⟨hsame.trans hsame', hv⟩
  · refine ⟨⟨rfl, rfl, rfl⟩, [], rfl, List.forall_mem_nil _, fun m question hm => ?_⟩
    have hclear : c.reassembler.clear = { framing := .goldSrc } := by
      rw [Reassembler.clear, hgoldSrc]
    change m = { m with awaited := some (question, c.reassembler.clear) }
    rw [hclear, ← hm]

end QueryChannel

end GameQuery
