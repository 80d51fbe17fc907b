import GameQuery.Proofs.Onlooker

namespace GameQuery

/-!
# Passwords stay with their sockets

A GoldSrc client sends its password in the clear. It knows about the password and the challenge
number exactly what an onlooker knows: `Faithful` says so of a session, and every step of a dialog
keeps it. Hence a password never goes to another peer than the one it was set for, nor with a
number of another socket, and after a refusal it is not sent again.
-/

open Dialog

/-! ## Dialogs with a record -/

/-- After a dialog, its outcome, the deeds up to then and the state of the client satisfy `Q`. -/
def Records {σ α : Type} (d : Dialog σ α) (trace : List Deed) (w : σ × Network)
    (Q : Except ClientError α → List Deed → σ → Prop) : Prop :=
  Ends d w fun r v => ∃ new, v.2.history = new ++ w.2.history ∧ Q r (new.map .event ++ trace) v.1

section Records

variable {σ τ α β : Type} {d : Dialog σ α} {trace : List Deed} {w : σ × Network}
  {P Q : Except ClientError α → List Deed → σ → Prop}
  {R : Except ClientError β → List Deed → σ → Prop}

theorem Records.imp (h : Records d trace w P) (hPQ : ∀ r t s, P r t s → Q r t s) :
    Records d trace w Q :=
  Ends.imp h fun _ _ ⟨new, hnew, hP⟩ => ⟨new, hnew, hPQ _ _ _ hP⟩

theorem Records.congr {d' : Dialog σ α} (h : Records d trace w Q) (hd : d' w = d w) :
    Records d' trace w Q := by
  rwa [Records, Ends, hd]

theorem records_pure {a : α} (h : Q (.ok a) trace w.1) : Records (pure a) trace w Q :=
  ends_pure ⟨[], rfl, h⟩

theorem records_throw {e : ClientError} (h : Q (.error e) trace w.1) :
    Records (throw e : Dialog σ α) trace w Q := ends_throw ⟨[], rfl, h⟩

/-- What is recorded after some new events, if they go on from there. -/
theorem Records.after {v : σ × Network} {new : List Event} (hnew : v.2.history = new ++ w.2.history)
    (h : Records d (new.map .event ++ trace) v Q) :
    Ends d v fun r u => ∃ new, u.2.history = new ++ w.2.history ∧
      Q r (new.map .event ++ trace) u.1 := by
  refine Ends.imp h ?_
  rintro r u ⟨new', hnew', hQ⟩
  refine ⟨new' ++ new, ?_, ?_⟩
  · rw [hnew', hnew, List.append_assoc]
  · rwa [List.map_append, List.append_assoc]

theorem Records.bind {f : α → Dialog σ β} (h : Records d trace w Q)
    (hok : ∀ a t v, Q (.ok a) t v.1 → Records (f a) t v R)
    (herror : ∀ e t s, Q (.error e) t s → R (.error e) t s) : Records (d >>= f) trace w R := by
  refine Ends.bind h ?_ ?_
  · rintro a v ⟨new, hnew, hQ⟩
    exact (hok a _ v hQ).after hnew
  · rintro e v ⟨new, hnew, hQ⟩
    exact ⟨new, hnew, herror e _ _ hQ⟩

theorem records_throw_bind {e : ClientError} {f : α → Dialog σ β} (h : R (.error e) trace w.1) :
    Records ((throw e : Dialog σ α) >>= f) trace w R := ends_throw ⟨[], rfl, h⟩

theorem records_state_bind {f : σ → Dialog σ β} (h : Records (f w.1) trace w R) :
    Records (state >>= f) trace w R := ends_state_bind h

theorem records_modifyState_bind {g : σ → σ} {f : Unit → Dialog σ β}
    (h : Records (f ()) trace (g w.1, w.2) R) : Records (modifyState g >>= f) trace w R :=
  ends_modifyState_bind h

theorem records_note_bind {level : LogLevel} {text : String} {f : Unit → Dialog σ β}
    (h : Records (f ()) trace (w.1, w.2.logLine level text) R) :
    Records (note level text >>= f) trace w R := ends_bind_of_ok rfl h

theorem Records.outcome_bind {f : Except ClientError α → Dialog σ β} (h : Records d trace w Q)
    (hf : ∀ r t v, Q r t v.1 → Records (f r) t v R) :
    Records (Dialog.outcome d >>= f) trace w R := by
  refine Ends.outcome_bind h ?_
  rintro r v ⟨new, hnew, hQ⟩
  exact (hf r _ v hQ).after hnew

theorem records_iterate {size : β → σ → Nat} {body : β → Dialog σ (Pass β α)}
    (smaller : ∀ {b w b' w'}, body b w = .ok (.again b') w' → size b' w'.1 < size b w.1) {b : β}
    (I : List Deed → σ → Prop)
    (hpass : ∀ b t w, I t w.1 → Records (body b) t w fun r t s =>
      match r with
      | .ok (.again _) => I t s
      | .ok (.done a) => Q (.ok a) t s
      | .error e => Q (.error e) t s)
    (h : I trace w.1) : Records (iterate size body smaller b) trace w Q := by
  refine ends_iterate smaller (fun _ v => ∃ new, v.2.history = new ++ w.2.history ∧
    I (new.map .event ++ trace) v.1) ?_ ⟨[], rfl, h⟩
  rintro b v ⟨new, hnew, hI⟩
  refine Ends.imp ((hpass b _ v hI).after hnew) ?_
  rintro (e | b' | a) u hu <;> exact hu

end Records

/-! ## Sessions that know what an onlooker knows -/

namespace GoldSrcSession

/-- The first text of an answer refuses the password. What tells of a ban does not. -/
def refusesPassword (text : String) : Bool := !isBan text && badPassword.isPrefixOf text.toList

/-- The socket of a session, if there is one, goes to a peer. -/
def IsBound (peer : Option SocketAddress) (s : GoldSrcSession) : Prop :=
  ∀ c, s.query = some c →
    c.socket.transport = .udp ∧ c.reassembler.framing = .goldSrc ∧ peer = some c.socket.peer

/-- A session has its peer, its password and its number as an onlooker knows them, and has kept
its passwords to itself. -/
structure Faithful (trace : List Deed) (s : GoldSrcSession) : Prop where
  keeps : KeepsCredentials refusesPassword trace
  password : s.password = (watch refusesPassword trace).password
  number : ∀ n, s.challenge = some n → (watch refusesPassword trace).number = some n
  bound : s.IsBound (watch refusesPassword trace).peer

variable {s v : GoldSrcSession} {trace t : List Deed} {n : Network}

theorem faithful_login (h : s.Faithful trace) (password : String) :
    { s with password := some password }.Faithful (.login password :: trace) where
  keeps := keepsCredentials_cons.2 ⟨h.keeps, nofun⟩
  password := rfl
  number := h.number
  bound := h.bound

theorem faithful_logout (h : KeepsCredentials refusesPassword trace) :
    { s with query := none, password := none, challenge := none }.Faithful (.logout :: trace) where
  keeps := keepsCredentials_cons.2 ⟨h, nofun⟩
  password := rfl
  number := nofun
  bound := nofun

theorem Faithful.setTimeout (h : s.Faithful trace) (timeout : Option Nat) :
    (s.setTimeout timeout).Faithful trace where
  keeps := h.keeps
  password := h.password
  number := h.number
  bound c hc := by
    obtain ⟨d, hd, rfl⟩ := Option.map_eq_some_iff.1 hc
    exact h.bound d hd

/-- A session stays faithful when an onlooker learns nothing. -/
theorem Faithful.of_watch (h : s.Faithful trace) (hsame : SameSession s v)
    (hkeeps : KeepsCredentials refusesPassword t)
    (hbound : v.IsBound (watch refusesPassword t).peer)
    (hwatch : ∃ awaited, watch refusesPassword t = { watch refusesPassword trace with awaited }) :
    v.Faithful t := by
  obtain ⟨awaited, hwatch⟩ := hwatch
  constructor
  · exact hkeeps
  · rw [hsame.password, h.password, hwatch]
  · rw [hsame.challenge, hwatch]
    exact h.number
  · exact hbound

/-! ## Datagrams -/

theorem Faithful.sent {peer : SocketAddress} {bytes : List UInt8} (h : s.Faithful trace)
    (hallowed : IsCommandDatagram bytes → (watch refusesPassword trace).Allows peer bytes) :
    s.Faithful (.event (.sent .udp peer bytes) :: trace) where
  keeps := by
    refine keepsCredentials_cons.2 ⟨h.keeps, ?_⟩
    rintro peer' bytes' ⟨⟩
    exact hallowed
  password := h.password
  number := h.number
  bound := h.bound

theorem records_send {r : Request} {bytes : List UInt8} (hwrite : r.write = Writer.bytes bytes)
    (h : s.Faithful trace)
    (hallowed : ∀ peer, (watch refusesPassword trace).peer = some peer →
      IsCommandDatagram bytes → (watch refusesPassword trace).Allows peer bytes) :
    Records (.on queryPart (QueryChannel.send r)) trace (s, n) fun r t v =>
      SameSession s v ∧ v.Faithful t ∧
        (r = .ok () → watch refusesPassword t = (watch refusesPassword trace).send bytes) := by
  cases hquery : s.query with
  | none =>
    exact ends_on_none (p := queryPart) hquery ⟨[], rfl, .refl s, h, nofun⟩
  | some c =>
    obtain ⟨hudp, hgoldSrc, hpeer⟩ := h.bound c hquery
    replace hudp : c.channel.socket.transport = .udp := hudp
    have hsend := DatagramChannel.sendRequest_ends bytes (c.channel, n)
    rw [← hwrite] at hsend
    refine Ends.on (p := queryPart) hquery (Ends.on rfl
      (((DatagramChannel.laterOf_sendRequest r.write (c.channel, n)).and hsend).imp ?_))
    rintro r v ⟨hlater, hv⟩
    have hsame : SameSession s { s with query := some { c with channel := v.1 } } :=
      ⟨rfl, rfl, rfl, rfl⟩
    have hbound : IsBound (watch refusesPassword trace).peer
        { s with query := some { c with channel := v.1 } } := by
      rintro d ⟨⟩
      exact ⟨hlater.transport.trans hudp, hgoldSrc, hpeer.trans (congrArg some hlater.peer.symm)⟩
    have hfaithful := h.of_watch hsame h.keeps hbound ⟨_, rfl⟩
    -- A request that has no room is not sent; any other is, even if the network refuses it.
    rcases hv with ⟨e, rfl, rfl⟩ | ⟨-, hhistory⟩
    · exact ⟨[], rfl, hsame, hfaithful, nofun⟩
    · rw [hudp] at hhistory
      exact ⟨[_], hhistory, hsame, hfaithful.sent (hallowed _ hpeer), fun _ => rfl⟩

theorem records_request {r : Request} (hr : ∀ line, r ≠ .console line) (h : s.Faithful trace) :
    Records (.on queryPart (QueryChannel.send r)) trace (s, n) fun r t v =>
      v.Faithful t ∧ (r = .ok () → (watch refusesPassword t).awaited = none) := by
  obtain ⟨bytes, hwrite, hcommand, hchallenge⟩ := Request.write_of_not_console hr
  refine (records_send hwrite h fun _ _ hbytes => absurd hbytes hcommand).imp ?_
  rintro r t v ⟨-, hfaithful, hwatch⟩
  refine ⟨hfaithful, fun hr => ?_⟩
  rw [hwatch hr, Watch.send, Watch.question?_eq_none hcommand hchallenge]
  rfl

theorem records_reply (h : s.Faithful trace) :
    Records (.on queryPart (QueryChannel.reply none)) trace (s, n) fun r t v =>
      SameSession s v ∧ v.IsBound (watch refusesPassword trace).peer ∧
        ∃ new, t = new.map .event ++ trace ∧ QueryChannel.Overheard refusesPassword new r := by
  cases hquery : s.query with
  | none =>
    refine ends_on_none (p := queryPart) hquery ⟨[], rfl, .refl s, h.bound, [], rfl, nofun, ?_⟩
    exact fun m question _ => ⟨_, rfl⟩
  | some c =>
    obtain ⟨hudp, hgoldSrc, hpeer⟩ := h.bound c hquery
    refine Ends.on (p := queryPart) hquery
      ((QueryChannel.reply_overheard refusesPassword none n hudp hgoldSrc).imp ?_)
    rintro r v ⟨hsame, new, hnew, hoverheard⟩
    refine ⟨new, hnew, ⟨rfl, rfl, rfl, rfl⟩, ?_, new, rfl, hoverheard⟩
    rintro d ⟨⟩
    exact ⟨hsame.transport.trans hudp, hsame.framing.trans hgoldSrc,
      hpeer.trans (congrArg some hsame.peer.symm)⟩

theorem records_reply_of_not_awaited (h : s.Faithful trace)
    (hawaited : (watch refusesPassword trace).awaited = none) :
    Records (.on queryPart (QueryChannel.reply none)) trace (s, n) fun _ t v =>
      SameSession s v ∧ v.Faithful t ∧ watch refusesPassword t = watch refusesPassword trace := by
  refine (records_reply h).imp ?_
  rintro r t v ⟨hsame, hbound, new, rfl, hoverheard⟩
  have hwatch : watch refusesPassword (new.map .event ++ trace) = watch refusesPassword trace := by
    rw [watch_append, Watch.after_of_not_awaited hawaited hoverheard.receipts]
  refine ⟨hsame, h.of_watch hsame ?_ ?_ ⟨_, hwatch⟩, hwatch⟩
  · exact keepsCredentials_receipts hoverheard.receipts h.keeps
  · rwa [hwatch]

/-! ## Commands -/

theorem records_sendLine {line : ConsoleLine} (h : s.Faithful trace)
    (hallowed : ∀ peer, (watch refusesPassword trace).peer = some peer →
      IsCommandDatagram line.bytes → (watch refusesPassword trace).Allows peer line.bytes) :
    Records (sendLine line) trace (s, n) fun r t v =>
      SameSession s v ∧ v.Faithful t ∧
        (r = .ok () → watch refusesPassword t = (watch refusesPassword trace).send line.bytes) :=
  records_send line.write_eq h hallowed

/-- A text has come, and an onlooker has learned from it as the answer to a question. -/
structure Heard (question : Question) (text : String) (trace t : List Deed)
    (s v : GoldSrcSession) : Prop where
  same : SameSession s v
  keeps : KeepsCredentials refusesPassword t
  bound : v.IsBound (watch refusesPassword t).peer
  learns : watch refusesPassword t = Watch.learn refusesPassword
    { watch refusesPassword trace with awaited := none } question (.console text)

theorem records_consoleText {question : Question} (h : s.Faithful trace)
    (hawaited : (watch refusesPassword trace).awaited = some (question, { framing := .goldSrc })) :
    Records consoleText trace (s, n) fun r t v =>
      match r with
      | .ok text => Heard question text trace t s v
      | .error _ => SameSession s v ∧ v.Faithful t ∧
          (watch refusesPassword t).number = (watch refusesPassword trace).number := by
  refine (records_reply h).bind ?_ ?_
  · rintro reply t ⟨v, n⟩ ⟨hsame, hbound, new, rfl, hoverheard⟩
    have hkeeps := keepsCredentials_receipts hoverheard.receipts h.keeps
    have hlearns := hoverheard.learns _ question hawaited
    simp only [← watch_append] at hlearns
    have hpeer := congrArg Watch.peer hlearns
    rw [Watch.peer_learn] at hpeer
    replace hbound : v.IsBound (watch refusesPassword (new.map .event ++ trace)).peer := by
      rwa [hpeer]
    cases reply with
    | console text => exact records_pure ⟨hsame, hkeeps, hbound, hlearns⟩
    | _ =>
      -- Another kind of reply tells nothing.
      have hnothing : watch refusesPassword (new.map .event ++ trace) =
          { watch refusesPassword trace with awaited := none } := by
        rw [hlearns]
        cases question <;> rfl
      refine records_throw ⟨hsame, h.of_watch hsame hkeeps hbound ⟨none, hnothing⟩, ?_⟩
      rw [hnothing]
  · rintro e t v ⟨hsame, hbound, new, rfl, hoverheard⟩
    have hkeeps := keepsCredentials_receipts hoverheard.receipts h.keeps
    obtain ⟨awaited, hwatch⟩ := hoverheard.learns _ question hawaited
    rw [← watch_append] at hwatch
    refine ⟨hsame, h.of_watch hsame hkeeps ?_ ⟨awaited, hwatch⟩, ?_⟩
    · rwa [hwatch]
    · rw [hwatch]

/-- Keeps the number in a text. -/
def acceptNumber (text : String) : Dialog GoldSrcSession UInt32 := do
  if isBan text then throw .banned
  match lastNumber text with
  | none => throw (.packet .malformed)
  | some number =>
    Dialog.modifyState fun s => { s with challenge := some number }
    return number

theorem newChallenge_eq : newChallenge = sendLine .challenge >>= fun _ =>
    consoleText >>= acceptNumber := rfl

theorem records_acceptNumber {text : String} (h : s.Faithful trace)
    (hheard : Heard .number text trace t s v) :
    Records (acceptNumber text) t (v, n) fun r t v => v.Faithful t ∧ v.password = s.password ∧
      ∀ number, r = .ok number → (watch refusesPassword t).number = some number := by
  obtain ⟨hsame, hkeeps, hbound, hlearns⟩ := hheard
  unfold acceptNumber
  cases hban : isBan text with
  | true =>
    simp only [Watch.learn, hban, if_true] at hlearns
    exact records_throw_bind
      ⟨h.of_watch hsame hkeeps hbound ⟨none, hlearns⟩, hsame.password, nofun⟩
  | false =>
    simp only [Watch.learn, hban, Bool.false_eq_true, if_false] at hlearns ⊢
    cases hnumber : lastNumber text with
    | none =>
      rw [hnumber] at hlearns
      exact records_throw
        ⟨h.of_watch hsame hkeeps hbound ⟨none, hlearns⟩, hsame.password, nofun⟩
    | some number =>
      rw [hnumber] at hlearns
      have hnew : ∀ number', some number = some number' →
          (watch refusesPassword t).number = some number' := by
        rintro _ ⟨⟩
        rw [hlearns]
        rfl
      refine records_modifyState_bind (records_pure ?_)
      refine ⟨⟨hkeeps, ?_, hnew, hbound⟩, hsame.password, ?_⟩
      · rw [hlearns]
        exact hsame.password.trans h.password
      · exact fun number' heq => hnew number' (congrArg some (Except.ok.inj heq))

theorem records_newChallenge (h : s.Faithful trace) :
    Records newChallenge trace (s, n) fun r t v => v.Faithful t ∧ v.password = s.password ∧
      ∀ number, r = .ok number → (watch refusesPassword t).number = some number := by
  have hsend := records_sendLine (n := n) h fun _ _ hcommand =>
    absurd hcommand not_isCommandDatagram_challenge
  rw [newChallenge_eq]
  refine hsend.bind ?_ ?_
  · rintro ⟨⟩ t ⟨v, n⟩ ⟨hsame, hv, hwatch⟩
    replace hwatch := hwatch rfl
    rw [Watch.send, Watch.question?_challenge] at hwatch
    refine (records_consoleText hv (congrArg Watch.awaited hwatch)).bind ?_ ?_
    · rintro text t' ⟨v', n'⟩ hheard
      refine (records_acceptNumber hv hheard).imp ?_
      rintro r t v ⟨hv, hpassword, hnumber⟩
      exact ⟨hv, hpassword.trans hsame.password, hnumber⟩
    · rintro e t' v' ⟨hsame', hv', -⟩
      exact ⟨hv', hsame'.password.trans hsame.password, nofun⟩
  · rintro e t v ⟨hsame, hv, -⟩
    exact ⟨hv, hsame.password, nofun⟩

theorem records_challengeNumber (h : s.Faithful trace) :
    Records challengeNumber trace (s, n) fun r t v => v.Faithful t ∧ v.password = s.password ∧
      ∀ number, r = .ok number → (watch refusesPassword t).number = some number := by
  refine records_state_bind ?_
  simp only
  split
  · next number hnumber =>
    split
    · exact records_newChallenge h
    · refine records_pure ⟨h, rfl, ?_⟩
      rintro _ ⟨⟩
      exact h.number number hnumber
  · exact records_newChallenge h

/-- What a session is once it has checked the first text of an answer. An onlooker is ahead of
it. -/
def withText (text : String) (s : GoldSrcSession) : GoldSrcSession :=
  if refusesPassword text then { s with password := none } else s

/-- The client has a first text, and an onlooker has drawn a conclusion from it. -/
structure Answered (password : String) (trace : List Deed) (first : UInt32 × String)
    (s : GoldSrcSession) : Prop where
  password : s.password = some password
  number : (watch refusesPassword trace).number = some first.1
  faithful : (s.withText first.2).Faithful trace

theorem Heard.answered {password text : String} {number : UInt32} (h : s.Faithful trace)
    (hheard : Heard .command text trace t s v) (hpassword : s.password = some password)
    (hnumber : (watch refusesPassword trace).number = some number) :
    v.Answered password t (number, text) := by
  obtain ⟨hsame, hkeeps, hbound, hlearns⟩ := hheard
  simp only [Watch.learn] at hlearns
  refine ⟨hsame.password.trans hpassword, ?_, ?_⟩
  · rw [hlearns]
    split
    · exact hnumber
    · exact hnumber
  · rw [withText]
    split at hlearns
    · next hrefused =>
      rw [if_pos hrefused]
      refine ⟨hkeeps, ?_, ?_, hbound⟩
      · rw [hlearns]
      · rw [hlearns]
        exact fun number' hv => h.number number' (hsame.challenge.symm.trans hv)
    · next hrefused =>
      rw [if_neg hrefused]
      exact h.of_watch hsame hkeeps hbound ⟨none, hlearns⟩

theorem records_firstText {password : String} {number : UInt32} (h : s.Faithful trace)
    (hpassword : s.password = some password)
    (hnumber : (watch refusesPassword trace).number = some number)
    (hawaited : (watch refusesPassword trace).awaited = some (.command, { framing := .goldSrc })) :
    Records firstText trace (s, n) fun r t v =>
      match r with
      | .ok text => v.Answered password t (number, text)
      | .error _ => v.Faithful t := by
  refine records_state_bind ((records_consoleText h hawaited).outcome_bind ?_)
  rintro (e | text) t ⟨v, n⟩ hv
  · obtain ⟨hsame, hv, hsame'⟩ := hv
    simp only
    split
    · -- The silence of an HLTV proxy refuses nothing.
      have hwelcome : refusesPassword "" = false := by decide
      refine records_pure ⟨hsame.password.trans hpassword, hsame'.trans hnumber, ?_⟩
      rw [withText, hwelcome]
      exact hv
    · exact records_throw hv
  · exact records_pure (hv.answered h hpassword hnumber)

theorem records_ask {password command : String} (h : s.Faithful trace)
    (hpassword : s.password = some password) :
    Records (ask password command) trace (s, n) fun r t v =>
      match r with
      | .ok first => v.Answered password t first
      | .error _ => v.Faithful t := by
  refine (records_challengeNumber h).bind ?_ fun e t v hv => hv.1
  rintro number t ⟨v, n⟩ ⟨hv, hsame, hnumber⟩
  replace hsame := hsame.trans hpassword
  replace hnumber := hnumber number rfl
  have hwatched := hv.password.symm.trans hsame
  refine (records_sendLine hv ?_).bind ?_ fun e t v hv => hv.2.1
  · exact fun peer hpeer _ => ⟨hpeer, password, number, hwatched, hnumber, .inr ⟨command, rfl⟩⟩
  · rintro ⟨⟩ t' ⟨v', n'⟩ ⟨hsame', hv', hwatch⟩
    replace hwatch := hwatch rfl
    rw [Watch.send, Watch.question?_exec hwatched hnumber] at hwatch
    have hnumber' : (watch refusesPassword t').number = some number := by
      rw [hwatch]
      exact hnumber
    refine (records_firstText hv' (hsame'.password.trans hsame) hnumber'
      (congrArg Watch.awaited hwatch)).bind ?_ fun e t v hv => hv
    exact fun text t v hv => records_pure hv

/-- What refuses a number does not refuse a password. -/
theorem refusesPassword_of_badChallenge {text : String}
    (h : badChallenge.isPrefixOf text.toList = true) : refusesPassword text = false := by
  rw [List.isPrefixOf_iff_prefix] at h
  rw [refusesPassword, Bool.and_eq_false_iff, Bool.eq_false_iff, Bool.eq_false_iff]
  refine .inr fun hpassword => ?_
  rw [List.isPrefixOf_iff_prefix] at hpassword
  rcases List.prefix_or_prefix_of_prefix h hpassword with hprefix | hprefix
  · exact absurd hprefix (by decide)
  · exact absurd hprefix (by decide)

theorem records_askAgain {password command : String} {first : UInt32 × String}
    (h : s.Answered password trace first) :
    Records (askAgain password command first) trace (s, n) fun r t v =>
      match r with
      | .ok first => v.Answered password t first
      | .error _ => v.Faithful t := by
  unfold askAgain
  split
  · next hexpired =>
    -- The text has refused the number, so the password has not been checked at all.
    have hs := h.faithful
    rw [withText, refusesPassword_of_badChallenge hexpired] at hs
    refine records_note_bind (records_modifyState_bind (records_ask ?_ h.password))
    exact ⟨hs.keeps, hs.password, nofun, hs.bound⟩
  · exact records_pure h

theorem records_checkText {password text : String} {number : UInt32}
    (h : s.Answered password trace (number, text)) :
    Records (checkText text) trace (s, n) fun r t v => v.Faithful t ∧
      (r = .ok () → v.password = some password ∧
        (watch refusesPassword t).number = some number) := by
  have hs := h.faithful
  rw [withText] at hs
  unfold checkText
  cases hban : isBan text with
  | true =>
    simp only [refusesPassword, hban, Bool.not_true, Bool.false_and, Bool.false_eq_true,
      if_false] at hs
    exact records_throw_bind ⟨hs, nofun⟩
  | false =>
    simp only [refusesPassword, hban, Bool.not_false, Bool.true_and, Bool.false_eq_true,
      if_false] at hs ⊢
    split at hs
    · next hbad =>
      rw [if_pos hbad]
      exact records_modifyState_bind (records_throw ⟨hs, nofun⟩)
    · next hbad =>
      rw [if_neg hbad]
      exact records_pure ⟨hs, fun _ => ⟨h.password, h.number⟩⟩

theorem records_rest (texts : List String) (h : s.Faithful trace)
    (hawaited : (watch refusesPassword trace).awaited = none) :
    Records (rest texts) trace (s, n) fun _ t v => v.Faithful t := by
  refine records_iterate restPass_again
    (fun t v => v.Faithful t ∧ (watch refusesPassword t).awaited = none) ?_ ⟨h, hawaited⟩
  rintro texts t ⟨v, n⟩ ⟨hv, hawaited⟩
  have hconsole : Records consoleText t (v, n) fun _ t v =>
      v.Faithful t ∧ (watch refusesPassword t).awaited = none := by
    refine (records_reply_of_not_awaited hv hawaited).bind ?_ ?_
    · rintro reply t' ⟨v', n'⟩ ⟨-, hv', hwatch⟩
      rw [← hwatch] at hawaited
      cases reply with
      | console text => exact records_pure ⟨hv', hawaited⟩
      | _ => exact records_throw ⟨hv', hawaited⟩
    · rintro e t' v' ⟨-, hv', hwatch⟩
      exact ⟨hv', hwatch ▸ hawaited⟩
  refine hconsole.outcome_bind ?_
  rintro (e | text) t' ⟨v', n'⟩ hv'
  · simp only
    split
    · exact records_pure hv'.1
    · exact records_throw hv'.1
  · simp only
    split
    · exact records_pure hv'.1
    · exact records_pure hv'

theorem records_finish {password text : String} {number : UInt32}
    (h : s.Answered password trace (number, text)) :
    Records (finish number password text) trace (s, n) fun _ t v => v.Faithful t := by
  refine (records_checkText h).bind ?_ fun e t v hv => hv.1
  rintro ⟨⟩ t ⟨v, n⟩ ⟨hv, hv'⟩
  obtain ⟨hpassword, hnumber⟩ := hv' rfl
  rw [hv.password] at hpassword
  split
  · exact records_pure hv
  · refine (records_sendLine hv ?_).bind ?_ fun e t v hv => hv.2.1
    · exact fun peer hpeer _ => ⟨hpeer, password, number, hpassword, hnumber, .inl rfl⟩
    · rintro ⟨⟩ t' ⟨v', n'⟩ ⟨-, hfaithful, hwatch⟩
      replace hwatch := hwatch rfl
      rw [Watch.send, Watch.question?_more hpassword hnumber] at hwatch
      refine (records_rest [text] hfaithful (congrArg Watch.awaited hwatch)).bind ?_
        fun e t v hv => hv
      exact fun texts t v hv => records_pure hv

/-- Whatever becomes of a command, the session has kept its password to itself. -/
theorem records_execute (h : s.Faithful trace) (command : String) :
    Records (execute command) trace (s, n) fun _ t v => v.Faithful t := by
  cases hpassword : s.password with
  | none =>
    refine records_state_bind ?_
    simp only [hpassword]
    exact records_throw h
  | some password =>
    refine Records.congr ?_ (execute_of_password hpassword)
    refine (records_ask h hpassword).bind ?_ fun e t v hv => hv
    rintro first t ⟨v, n⟩ hv
    refine (records_askAgain hv).bind ?_ fun e t v hv => hv
    rintro ⟨number, text⟩ t' ⟨v', n'⟩ hv'
    exact records_finish hv'

/-! ## Sockets -/

theorem records_openSockets (h : KeepsCredentials refusesPassword trace) (peer : SocketAddress) :
    Records (openSockets peer) trace (s, n) fun _ t v => v.Faithful t := by
  refine records_modifyState_bind ?_
  refine Ends.bind (QueryChannel.connect_ends peer .goldSrc _) ?_ ?_
  · rintro c ⟨v, m⟩ ⟨rfl, hsocket, hreassembler, hhistory⟩
    refine ⟨[_], hhistory, keepsCredentials_cons.2 ⟨h, nofun⟩, rfl, nofun, ?_⟩
    rintro d ⟨⟩
    exact ⟨congrArg Socket.transport hsocket, congrArg Reassembler.framing hreassembler,
      congrArg some (congrArg Socket.peer hsocket).symm⟩
  · rintro e ⟨v, m⟩ ⟨rfl, -, f, hhistory⟩
    exact ⟨[_], hhistory, keepsCredentials_cons.2 ⟨h, nofun⟩, rfl, nofun, nofun⟩

end GoldSrcSession

end GameQuery
