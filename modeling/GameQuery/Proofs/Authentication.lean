import GameQuery.Proofs.FailoverCalls
import GameQuery.Proofs.FrameOrder
import GameQuery.Proofs.ServerMoves

namespace GameQuery

/-!
# Passwords for the console of a Source server

A password goes out over a stream that has just been opened for it, and only the frames that come
over this stream decide on it: an answer with the id of the password, behind one empty value at
most. However else an attempt ends, the session is not authenticated, and no command is sent until
an attempt succeeds.
-/

open Dialog

/-! ## What the console answers -/

namespace Rcon

theorem AreFrames.eq_nil {rs : List Reply} (h : AreFrames [] rs) : rs = [] := by
  generalize hbytes : ([] : List UInt8) = bytes at h
  cases h with
  | nil => rfl
  | cons hframe _ => exact absurd (List.append_eq_nil_iff.1 hbytes.symm).1 hframe.ne_nil

theorem AreFrames.unique {s : List UInt8} {rs qs : List Reply} (hr : AreFrames s rs)
    (hq : AreFrames s qs) : rs = qs := by
  rw [← List.append_nil s] at hq
  obtain ⟨left, rfl, hleft⟩ := hr.of_append hq
  rw [hleft.eq_nil, List.append_nil]

def Reply.IsEmptyValue (r : Reply) : Prop := r.kind = .value ∧ r.body = ""

instance (r : Reply) : Decidable r.IsEmptyValue := inferInstanceAs (Decidable (_ ∧ _))

/-- The frames that accept the password with an id. -/
def Grants (id : Int32) : List Reply → Prop
  | [r] => r.kind = .auth ∧ r.id = id
  | [first, r] => first.IsEmptyValue ∧ r.kind = .auth ∧ r.id = id
  | _ => False

/-- What a client that has sent a password takes for the answer, given all the frames that it has
received. -/
inductive Answered : List Reply → Except ClientError Reply → Prop
  | silence (e : ClientError) : Answered [] (.error e)
  | single {r : Reply} (h : ¬ r.IsEmptyValue) : Answered [r] (.ok r)
  | half {first : Reply} (h : first.IsEmptyValue) (e : ClientError) : Answered [first] (.error e)
  | double {first : Reply} (h : first.IsEmptyValue) (r : Reply) : Answered [first, r] (.ok r)

theorem Answered.grants_of_error {frames : List Reply} {e : ClientError} {id : Int32}
    (h : Answered frames (.error e)) : ¬ Grants id frames := by
  cases h with
  | silence => exact False.elim
  | half hfirst =>
    intro hgrants
    rw [Grants, hfirst.1] at hgrants
    exact nomatch hgrants.1

theorem Answered.grants_of_ok {frames : List Reply} {r : Reply} {id : Int32}
    (h : Answered frames (.ok r)) : Grants id frames ↔ r.kind = .auth ∧ r.id = id := by
  cases h with
  | single => exact Iff.rfl
  | double hfirst => exact and_iff_right hfirst

end Rcon

/-! ## A stream that is opened for a frame -/

/-- A frame has been sent over a stream that was opened for it. Since then nothing has happened but
receptions. -/
structure SentOnNew (peer : SocketAddress) (r : Rcon.Request)
    (after before old history : List Event) : Prop where
  history : history =
    after ++ .sent .tcp peer r.bytes :: .connected .tcp peer none :: (before ++ old)
  receptions : ∀ e ∈ after, e.IsReception peer

/-- Nothing can have come of a frame: none has been sent, or the stream has been shut down. -/
def Barred (old history : List Event) : Prop :=
  (∃ new, history = new ++ old ∧ ∀ peer bytes, .sent .tcp peer bytes ∉ new) ∨
    ∃ peer later, history = .closed peer :: later

section History

variable {peer : SocketAddress} {r : Rcon.Request} {after before old history : List Event}

theorem SentOnNew.not_barred (h : SentOnNew peer r after before old history) :
    ¬ Barred old history := by
  rintro (⟨new, hnew, hnot⟩ | ⟨p, later, hlater⟩)
  · have heq : (after ++ .sent .tcp peer r.bytes :: .connected .tcp peer none :: before) ++ old =
        new ++ old := by
      rw [← hnew, h.history]
      simp
    apply hnot peer r.bytes
    rw [← List.append_cancel_right heq]
    simp
  · have heq := h.history.symm.trans hlater
    cases after with
    | nil => exact nomatch (List.cons.inj heq).1
    | cons e after =>
      have he := h.receptions e List.mem_cons_self
      rw [(List.cons.inj heq).1] at he
      exact he

theorem SentOnNew.unique {after' before' : List Event}
    (h : SentOnNew peer r after before old history)
    (h' : SentOnNew peer r after' before' old history) : after = after' ∧ before = before' := by
  have heq := h.history.symm.trans h'.history
  rcases List.append_eq_append_iff.1 heq with ⟨more, rfl, hmore⟩ | ⟨more, rfl, hmore⟩
  · cases more with
    | nil =>
      have hrest := (List.cons.inj (List.cons.inj hmore).2).2
      exact ⟨(List.append_nil _).symm, List.append_cancel_right hrest⟩
    | cons e more =>
      have he := h'.receptions e (by simp)
      rw [← (List.cons.inj hmore).1] at he
      exact he.elim
  · cases more with
    | nil =>
      have hrest := (List.cons.inj (List.cons.inj hmore).2).2
      exact ⟨List.append_nil _, (List.append_cancel_right hrest).symm⟩
    | cons e more =>
      have he := h.receptions e (by simp)
      rw [← (List.cons.inj hmore).1] at he
      exact he.elim

theorem SentOnNew.of_append {new : List Event}
    (h : SentOnNew peer r after before (new ++ old) history) :
    SentOnNew peer r after (before ++ new) old history :=
  ⟨by rw [h.history, List.append_assoc], h.receptions⟩

theorem Barred.of_append {new : List Event} (h : Barred (new ++ old) history)
    (hnew : ∀ peer bytes, .sent .tcp peer bytes ∉ new) : Barred old history := by
  rcases h with ⟨later, rfl, hlater⟩ | hclosed
  · left
    refine ⟨later ++ new, (List.append_assoc ..).symm, fun p bytes hmem => ?_⟩
    rcases List.mem_append.1 hmem with hmem | hmem
    · exact hlater p bytes hmem
    · exact hnew p bytes hmem
  · exact .inr hclosed

end History

namespace ConsoleChannel

variable {w v : ConsoleChannel × Network} {peer : SocketAddress} {r : Rcon.Request}
  {after before old : List Event} {frames : List Rcon.Reply}

/-- What has been received since a frame was sent over a new stream has come over this stream. -/
theorem InStep.of_sentOnNew (h : InStep v frames)
    (hsent : SentOnNew peer r after before old v.2.history) :
    receivedBytes after <+:
        v.2.world.deliver (.connected .tcp peer none :: (before ++ old)) peer r.bytes ∧
      Rcon.AreFrames (receivedBytes after) frames := by
  obtain ⟨s, -, -, -, hqueue, hframes⟩ := h
  have hquiet : ∀ e ∈ after, e.AsksNothing := fun e he => (hsent.receptions e he).asksNothing
  have hsince : receivedBytes (sinceOpened v.2.history) = receivedBytes after := by
    rw [hsent.history, sinceOpened_append fun e he => (hquiet e he).not_breaks,
      receivedBytes_append]
    rfl
  have hanswer : inAnswer v.2.world.deliver v.2.history =
      v.2.world.deliver (.connected .tcp peer none :: (before ++ old)) peer r.bytes := by
    rw [hsent.history, inAnswer_append hquiet]
    exact List.nil_append _
  rw [hsince] at hqueue hframes
  exact ⟨⟨_, hqueue.trans hanswer⟩, hframes⟩

theorem close_cuts (w : ConsoleChannel × Network) :
    Ends close w fun r v => r = .ok () ∧ v.1.stream = none ∧ v.1.peer = w.1.peer ∧ ∃ closed,
      v.2.history = closed ++ w.2.history ∧ ∀ peer bytes, .sent .tcp peer bytes ∉ closed := by
  obtain ⟨⟨peer, stream, timeout⟩, n⟩ := w
  cases stream with
  | none => exact ⟨rfl, rfl, rfl, [], rfl, nofun⟩
  | some stream => exact ⟨rfl, rfl, rfl, [.closed peer], rfl, by simp⟩

theorem send_barred (r : Rcon.Request) (hw : w.1.stream = none) :
    Ends (send r) w fun o v => ∀ e, o = .error e → Barred w.2.history v.2.history := by
  apply ends_ofCodec_bind
  · intro filled _
    refine (connect_ends hw).bind (fun _ v hv => ?_) ?_
    · refine (transmit_ends filled.bytes hv.isOpen).imp fun o u hu e he => ?_
      subst he
      exact .inr ⟨_, _, hu.2.history⟩
    · rintro e v ⟨-, -, f, hf⟩ _ _
      exact .inl ⟨[_], hf, by simp⟩
  · intro _ _ _ _
    exact .inl ⟨[], rfl, nofun⟩

end ConsoleChannel

namespace SourceSession

open ConsoleChannel

theorem authFrame_inStep {taken : List Rcon.Reply} {w : ConsoleChannel × Network}
    (h : ConsoleChannel.InStep w taken) :
    Ends authFrame w fun r v => ∃ after, (∀ e ∈ after, e.IsReception w.1.peer) ∧
      match r with
      | .ok reply => ConsoleChannel.InStep v (taken ++ [reply]) ∧ Stays w v after
      | .error _ => ConsoleChannel.InStep v taken ∧ Stays w v after ∨ Closes w v after := by
  refine (reply_inStep none h).bind ?_ fun e v hv => hv
  intro reply v hv
  obtain ⟨after, hafter, hv⟩ := hv
  cases reply with
  | none => exact ⟨after, hafter, .inr hv⟩
  | some reply => exact ⟨after, hafter, hv⟩

/-- The frames that are received decide how the wait for an answer ends, unless the stream is shut
down. -/
theorem authAnswer_answered {w : ConsoleChannel × Network} (h : ConsoleChannel.InStep w []) :
    Ends (do
      let first ← authFrame
      if first.kind = .value ∧ first.body = "" then authFrame else return first) w fun r v =>
      (∃ e, r = .error e ∧ ∃ peer later, v.2.history = .closed peer :: later) ∨
        ∃ after frames, (∀ e ∈ after, e.IsReception w.1.peer) ∧
          v.2.history = after ++ w.2.history ∧ ConsoleChannel.InStep v frames ∧
            Rcon.Answered frames r := by
  refine (authFrame_inStep h).bind ?_ ?_
  · intro first v hv
    obtain ⟨after, hafter, hfirst, hstays⟩ := hv
    split
    · next hempty =>
      refine (authFrame_inStep hfirst).imp fun r u hu => ?_
      obtain ⟨more, hmore, hu⟩ := hu
      have hall := hstays.receptions hafter hmore
      cases r with
      | ok reply =>
        obtain ⟨hboth, hstays'⟩ := hu
        exact .inr ⟨_, _, hall, (hstays.trans hstays').history, hboth, .double hempty reply⟩
      | error e =>
        rcases hu with ⟨hfirst', hstays'⟩ | hcloses
        · exact .inr ⟨_, _, hall, (hstays.trans hstays').history, hfirst', .half hempty e⟩
        · exact .inl ⟨e, rfl, _, _, hcloses.history⟩
    · next hempty => exact .inr ⟨_, _, hafter, hstays.history, hfirst, .single hempty⟩
  · intro e v hv
    obtain ⟨after, hafter, ⟨hnothing, hstays⟩ | hcloses⟩ := hv
    · exact .inr ⟨_, _, hafter, hstays.history, hnothing, .silence e⟩
    · exact .inl ⟨e, rfl, _, _, hcloses.history⟩

theorem sameWorld_askPassword (id : Int32) (password : String) :
    Moves SameWorld (askPassword id password) := by
  have hframe : Moves SameWorld authFrame := by
    refine (sameWorld_reply none).bind fun r => ?_
    cases r with
    | none => exact moves_throw _
    | some r => exact moves_pure r
  refine sameWorld_close.bind fun _ => (sameWorld_send _).bind fun _ => hframe.bind fun first => ?_
  split
  · exact hframe
  · exact moves_pure first

/-- What has come of a password that was sent over a new stream: the frames that were received. -/
def Heard (world : World) (peer : SocketAddress) (r : Rcon.Request) (old history : List Event)
    (P : List Rcon.Reply → Prop) : Prop :=
  ∃ after before frames, SentOnNew peer r after before old history ∧
    receivedBytes after <+:
      world.deliver (.connected .tcp peer none :: (before ++ old)) peer r.bytes ∧
    Rcon.AreFrames (receivedBytes after) frames ∧ P frames

theorem askPassword_answered (id : Int32) (password : String) (w : ConsoleChannel × Network) :
    Ends (askPassword id password) w fun r v =>
      (∃ e, r = .error e) ∧ Barred w.2.history v.2.history ∨
        Heard w.2.world w.1.peer (.auth id password) w.2.history v.2.history
          fun frames => Rcon.Answered frames r := by
  have hworld := sameWorld_askPassword id password w
  have hends : Ends (askPassword id password) w fun r v =>
      (∃ e, r = .error e) ∧ Barred w.2.history v.2.history ∨ ∃ after before frames,
        SentOnNew w.1.peer (.auth id password) after before w.2.history v.2.history ∧
          ConsoleChannel.InStep v frames ∧ Rcon.Answered frames r := by
    refine (close_cuts w).bind ?_ fun e v hv => nomatch hv.1
    intro _ v hv
    obtain ⟨-, hstream, hpeer, closed, hclosed, hsilent⟩ := hv
    have hsend := (send_inStep (.auth id password) (.inl ⟨hstream, rfl⟩)).and
      (send_barred (.auth id password) hstream)
    refine hsend.bind ?_ ?_
    · intro _ u hu
      obtain ⟨⟨hstep, hpeer', hhistory⟩, -⟩ := hu
      have hbefore : beforeSend v = .connected .tcp w.1.peer none :: (closed ++ w.2.history) := by
        rw [beforeSend, isConnected, hstream, hpeer, hclosed]
        rfl
      refine (authAnswer_answered hstep).imp fun r x hx => ?_
      rcases hx with ⟨e, he, hshut⟩ | ⟨after, frames, hafter, hlater, hframes, hanswered⟩
      · exact .inl ⟨⟨e, he⟩, .inr hshut⟩
      · right
        refine ⟨after, closed, frames, ⟨?_, ?_⟩, hframes, hanswered⟩
        · rw [hlater, hhistory, hbefore, hpeer]
        · rw [← hpeer, ← hpeer']
          exact hafter
    · intro e u hu
      have hbarred := hu.2 e rfl
      rw [hclosed] at hbarred
      exact .inl ⟨⟨e, rfl⟩, hbarred.of_append hsilent⟩
  refine (hends.and hworld).imp fun r v hv => ?_
  obtain ⟨hbarred | ⟨after, before, frames, hsent, hstep, hanswered⟩, hworld⟩ := hv
  · exact .inl hbarred
  · obtain ⟨hdelivered, hframes⟩ := hstep.of_sentOnNew hsent
    rw [hworld] at hdelivered
    exact .inr ⟨after, before, frames, hsent, hdelivered, hframes, hanswered⟩

/-- How an attempt ends, given the answer that was received to the password. -/
def Judged (world : World) (peer : SocketAddress) (password : String) (old : List Event)
    (r : Except ClientError Bool) (s : SourceSession) (history : List Event) : Prop :=
  (s.authenticated = true ↔ r = .ok true) ∧
    ((∃ e, r = .error e) ∧ Barred old history ∨
      Heard world peer (.auth s.requestId password) old history
        fun frames => r = .ok true ↔ Rcon.Grants s.requestId frames)

theorem Judged.of_barred {world : World} {peer : SocketAddress} {password : String}
    {old history : List Event} {s : SourceSession} {e : ClientError} (hs : s.authenticated = false)
    (h : Barred old history) : Judged world peer password old (.error e) s history := by
  refine ⟨?_, .inl ⟨⟨e, rfl⟩, h⟩⟩
  rw [hs]
  exact iff_of_false nofun nofun

theorem Judged.of_heard {world : World} {peer : SocketAddress} {password : String}
    {old history : List Event} {r : Except ClientError Bool} {s : SourceSession}
    {P : List Rcon.Reply → Prop} (hs : s.authenticated = true ↔ r = .ok true)
    (h : Heard world peer (.auth s.requestId password) old history P)
    (hP : ∀ frames, P frames → (r = .ok true ↔ Rcon.Grants s.requestId frames)) :
    Judged world peer password old r s history := by
  obtain ⟨after, before, frames, hsent, hdelivered, hframes, hframesP⟩ := h
  exact ⟨hs, .inr ⟨after, before, frames, hsent, hdelivered, hframes, hP frames hframesP⟩⟩

theorem Judged.of_append {world : World} {peer : SocketAddress} {password : String}
    {new old history : List Event} {r : Except ClientError Bool} {s : SourceSession}
    (h : Judged world peer password (new ++ old) r s history)
    (hnew : ∀ peer bytes, .sent .tcp peer bytes ∉ new) :
    Judged world peer password old r s history := by
  obtain ⟨hs, ⟨he, hbarred⟩ | ⟨after, before, frames, hsent, hdelivered, hframes⟩⟩ := h
  · exact ⟨hs, .inl ⟨he, hbarred.of_append hnew⟩⟩
  · refine ⟨hs, .inr ⟨after, before ++ new, frames, hsent.of_append, ?_, hframes⟩⟩
    rwa [List.append_assoc]

/-- The latest that a client has done is to send a password over a new stream, and the frames that
it has received since then accept the password. -/
def Granted (peer : SocketAddress) (id : Int32) (password : String) (old history : List Event) :
    Prop :=
  ∃ after before frames, SentOnNew peer (.auth id password) after before old history ∧
    Rcon.AreFrames (receivedBytes after) frames ∧ Rcon.Grants id frames

theorem Judged.granted_iff {world : World} {peer : SocketAddress} {password : String}
    {old history : List Event} {r : Except ClientError Bool} {s : SourceSession}
    (h : Judged world peer password old r s history) :
    r = .ok true ↔ Granted peer s.requestId password old history := by
  obtain ⟨-, ⟨⟨e, rfl⟩, hbarred⟩ | ⟨after, before, frames, hsent, -, hframes, hr⟩⟩ := h
  · refine iff_of_false nofun fun hgranted => ?_
    obtain ⟨after, before, frames, hsent, -⟩ := hgranted
    exact hsent.not_barred hbarred
  · rw [hr]
    constructor
    · exact fun hgrants => ⟨after, before, frames, hsent, hframes, hgrants⟩
    · intro hgranted
      obtain ⟨after', before', frames', hsent', hframes', hgrants⟩ := hgranted
      obtain ⟨rfl, -⟩ := hsent.unique hsent'
      rwa [hframes.unique hframes']

theorem Judged.delivered {world : World} {peer : SocketAddress} {password : String}
    {old history after before : List Event} {r : Except ClientError Bool} {s : SourceSession}
    (h : Judged world peer password old r s history)
    (hsent : SentOnNew peer (.auth s.requestId password) after before old history) :
    receivedBytes after <+: world.deliver (.connected .tcp peer none :: (before ++ old)) peer
      (Rcon.Request.auth s.requestId password).bytes := by
  obtain ⟨-, ⟨-, hbarred⟩ | ⟨after', before', frames, hsent', hdelivered, -⟩⟩ := h
  · exact absurd hbarred hsent.not_barred
  · obtain ⟨rfl, rfl⟩ := hsent.unique hsent'
    exact hdelivered

/-- What has come of a password when the console has answered it, or has not. -/
def AnswerCame (world : World) (peer : SocketAddress) (password : String) (old : List Event)
    (r : Except ClientError Rcon.Reply) (s : SourceSession) (history : List Event) : Prop :=
  s.authenticated = false ∧
    ((∃ e, r = .error e) ∧ Barred old history ∨
      Heard world peer (.auth s.requestId password) old history
        fun frames => Rcon.Answered frames r)

theorem askPassword_onConsole (id : Int32) (password : String) {s : SourceSession}
    {c : ConsoleChannel} (hs : s.console = some c) (n : Network) :
    Ends (.on consolePart (askPassword id password))
      ({ s with authenticated := false, requestId := id }, n) fun r v => v.1.requestId = id ∧
        AnswerCame n.world c.peer password n.history r v.1 v.2.history := by
  have hanswer := askPassword_answered id password (c, n)
  refine (on_console (s := { s with authenticated := false, requestId := id }) hs hanswer).imp ?_
  intro r v hv
  obtain ⟨console, hsession, hanswered⟩ := hv
  rw [hsession]
  exact ⟨rfl, rfl, hanswered⟩

theorem AnswerCame.judged_of_error {world : World} {peer : SocketAddress} {password : String}
    {old history : List Event} {s : SourceSession} {e : ClientError}
    (h : AnswerCame world peer password old (.error e) s history) :
    Judged world peer password old (.error e) s history := by
  obtain ⟨hauth, ⟨-, hbarred⟩ | hheard⟩ := h
  · exact .of_barred hauth hbarred
  · refine .of_heard ?_ hheard fun frames hanswered => ?_
    · rw [hauth]
      exact iff_of_false nofun nofun
    · exact iff_of_false nofun hanswered.grants_of_error

/-- An answer of another kind is an error. -/
theorem AnswerCame.judged_of_kind {world : World} {peer : SocketAddress} {password : String}
    {old history : List Event} {s : SourceSession} {reply : Rcon.Reply} {e : ClientError}
    (h : AnswerCame world peer password old (.ok reply) s history) (hkind : reply.kind ≠ .auth) :
    Judged world peer password old (.error e) s history := by
  obtain ⟨hauth, ⟨⟨e, he⟩, -⟩ | hheard⟩ := h
  · exact nomatch he
  · refine .of_heard ?_ hheard fun frames hanswered => ?_
    · rw [hauth]
      exact iff_of_false nofun nofun
    · rw [hanswered.grants_of_ok]
      exact iff_of_false nofun fun h => hkind h.1

/-- The id of the answer decides. -/
theorem AnswerCame.judged_of_id {world : World} {peer : SocketAddress} {password : String}
    {old history : List Event} {s : SourceSession} {reply : Rcon.Reply}
    (h : AnswerCame world peer password old (.ok reply) s history) (hkind : reply.kind = .auth) :
    Judged world peer password old (.ok (decide (reply.id = s.requestId)))
      { s with authenticated := decide (reply.id = s.requestId) } history := by
  obtain ⟨-, ⟨⟨e, he⟩, -⟩ | hheard⟩ := h
  · exact nomatch he
  · refine .of_heard (by simp) hheard fun frames hanswered => ?_
    rw [hanswered.grants_of_ok, and_iff_right hkind]
    simp

/-- Without a socket for the console nothing is sent to it. -/
theorem authenticate_unjudged (peer : SocketAddress) (password : String) {s : SourceSession}
    (hs : s.console = none) (n : Network) :
    Ends (authenticate password) (s, n) fun r v =>
      Judged n.world peer password n.history r v.1 v.2.history := by
  apply ends_network_bind
  apply ends_modifyState_bind
  refine Ends.bind (ends_on_none hs (R := fun r v => v.1.authenticated = false ∧
    v.2 = n ∧ ∃ e, r = .error e) ⟨rfl, rfl, _, rfl⟩) ?_ ?_
  · intro _ v hv
    obtain ⟨-, -, e, he⟩ := hv
    cases he
  · intro e v hv
    obtain ⟨hauth, hn, -⟩ := hv
    rw [hn]
    exact .of_barred hauth (.inl ⟨[], rfl, by simp⟩)

theorem authenticate_judged (password : String) {s : SourceSession} {c : ConsoleChannel}
    (hs : s.console = some c) (n : Network) :
    Ends (authenticate password) (s, n) fun r v =>
      Judged n.world c.peer password n.history r v.1 v.2.history := by
  apply ends_network_bind
  apply ends_modifyState_bind
  refine (askPassword_onConsole _ password hs n).bind ?_ fun e v hv => hv.2.judged_of_error
  intro reply v hv
  obtain ⟨hid, hcame⟩ := hv
  split
  · next hkind => exact ends_throw (hcame.judged_of_kind hkind)
  · next hkind =>
    have hjudged := hcame.judged_of_id (Decidable.not_not.1 hkind)
    rw [← hid]
    apply ends_modifyState_bind
    split
    · exact ends_pure hjudged
    · refine ends_bind_of_ok rfl ?_
      exact ends_pure hjudged

end SourceSession

namespace GameServer

/-! ## A client of a Source server -/

theorem ensureOpen_renews (endpoint : Endpoint) {s : SourceSession} (hs : s.query = none)
    (cache : ServerCache) (n : Network) :
    Ends ensureOpen (⟨⟨endpoint, .source s⟩, cache⟩, n) fun r v => v.2.world = n.world ∧
      (∃ new, v.2.history = new ++ n.history ∧ ∀ peer bytes, .sent .tcp peer bytes ∉ new) ∧
      v.1.engine = .source (if r.isOk then s.renewed endpoint.address else s.disconnected) := by
  have hclosed : (EngineSession.source s).isOpen = false := by
    change s.query.isSome = false
    rw [hs]
    rfl
  have hopen := (EngineSession.openSockets_opens endpoint.address (.source s) n).and
    (EngineSession.openSockets_renews endpoint.address (.source s) n)
  apply ends_state_bind
  change Ends (if (EngineSession.source s).isOpen then pure () else _) _ _
  rw [hclosed, if_neg Bool.false_ne_true]
  apply Ends.on (p := connectionPart) rfl
  apply ends_state_bind
  apply Ends.on (p := Connection.ownerPart) rfl
  refine hopen.imp fun r v hv => ?_
  obtain ⟨⟨-, hworld, failure, ⟨closed, hevents, -, -, hhistory⟩, -⟩, hsession⟩ := hv
  have hengine := hsession.trans (apply_ite EngineSession.source ..).symm
  refine ⟨hworld, ⟨.connected .udp endpoint.address failure :: closed, hhistory, ?_⟩, hengine⟩
  intro peer bytes hsent
  rcases List.mem_cons.1 hsent with hconnected | hold
  · cases hconnected
  · obtain ⟨p, hp⟩ := hevents _ hold
    cases hp

theorem ends_onSource {α : Type} {endpoint : Endpoint} {s : SourceSession} {cache : ServerCache}
    {n : Network} {d : Dialog SourceSession α} (d' : Dialog GoldSrcSession α)
    {P : Except ClientError α → SourceSession → List Event → Prop}
    (h : Ends d (s, n) fun r v => P r v.1 v.2.history) :
    Ends (.on enginePart (EngineSession.byEngine d d')) (⟨⟨endpoint, .source s⟩, cache⟩, n)
      fun r v => ∃ s', v.1.engine = .source s' ∧ P r s' v.2.history := by
  apply Ends.on (p := enginePart) rfl
  apply ends_state_bind
  apply Ends.on (p := EngineSession.sourcePart) rfl
  exact h.imp fun r v hv => ⟨v.1, rfl, hv⟩

/-- The peer of the stream to the console. Without a socket for queries all sockets are opened
again before a password is sent. -/
def consolePeer (endpoint : Endpoint) (s : SourceSession) : SocketAddress :=
  match s.query, s.console with
  | some _, some c => c.peer
  | _, _ => endpoint.address

theorem authenticate_judged (endpoint : Endpoint) (s : SourceSession) (cache : ServerCache)
    (n : Network) (password : String) :
    Ends (authenticate password) (⟨⟨endpoint, .source s⟩, cache⟩, n) fun r v =>
      ∃ s', v.1.engine = .source s' ∧ SourceSession.Judged n.world (consolePeer endpoint s) password
        n.history r s' v.2.history := by
  cases hs : s.query with
  | some query =>
    have hopen : (EngineSession.source s).isOpen = true := by
      change s.query.isSome = true
      rw [hs]
      rfl
    have hensure : ensureOpen (⟨⟨endpoint, .source s⟩, cache⟩, n) =
        .ok () (⟨⟨endpoint, .source s⟩, cache⟩, n) := by
      rw [ensureOpen, state_bind]
      change (if (EngineSession.source s).isOpen then pure () else _ : Dialog GameServer Unit) _ = _
      rw [if_pos hopen]
      rfl
    apply ends_bind_of_ok hensure
    cases hconsole : s.console with
    | some c =>
      have hpeer : consolePeer endpoint s = c.peer := by
        rw [consolePeer, hs, hconsole]
      rw [hpeer]
      exact ends_onSource _ (SourceSession.authenticate_judged password hconsole n)
    | none => exact ends_onSource _ (SourceSession.authenticate_unjudged _ password hconsole n)
  | none =>
    have hpeer : consolePeer endpoint s = endpoint.address := by
      rw [consolePeer, hs]
    rw [hpeer]
    refine (ensureOpen_renews endpoint hs cache n).bind ?_ ?_
    · intro _ v hv
      obtain ⟨⟨⟨endpoint', owner⟩, cache'⟩, m⟩ := v
      obtain ⟨hworld, ⟨new, hhistory, hquiet⟩, hsession⟩ := hv
      obtain rfl : owner = .source (s.renewed endpoint.address) := hsession
      have hjudged := SourceSession.authenticate_judged password
        (s := s.renewed endpoint.address) rfl m
      refine (ends_onSource _ hjudged).imp fun r v hv => ?_
      obtain ⟨s', hs', hv⟩ := hv
      rw [hworld, hhistory] at hv
      exact ⟨s', hs', .of_append hv hquiet⟩
    · intro e v hv
      obtain ⟨-, ⟨new, hhistory, hquiet⟩, hsession⟩ := hv
      exact ⟨s.disconnected, hsession, .of_barred rfl (.inl ⟨new, hhistory, hquiet⟩)⟩

/-! ## Until the next password is accepted -/

end GameServer

namespace EngineSession

/-- A session with a Source server that takes no commands. -/
def IsRefusing (e : EngineSession) : Prop := ∃ s, e = source s ∧ s.authenticated = false

def KeepsRefusing (w v : EngineSession × Network) : Prop := w.1.IsRefusing → v.1.IsRefusing

instance : Std.Refl KeepsRefusing := ⟨fun _ => id⟩

instance : Trans KeepsRefusing KeepsRefusing KeepsRefusing := ⟨fun h h' => h' ∘ h⟩

theorem keepsRefusing_onQuery {α : Type} (d : Dialog QueryChannel α) :
    Moves KeepsRefusing (on queryPart d) := by
  refine Moves.on (S := fun _ _ => True) (fun _ => ends_of_forall fun _ _ => trivial) ?_
  intro e n t v _ _ hrefusing
  obtain ⟨s, rfl, hs⟩ := hrefusing
  exact ⟨SourceSession.queryPart.put v.1 s, rfl, hs⟩

theorem carries_keepsRefusing : Carries KeepsRefusing where
  quiet _ _ _ _ _ := id
  converse r _ := (keepsRefusing_onQuery _).bind fun _ => keepsRefusing_onQuery _
  setTimeout _ _ timeout h := by
    obtain ⟨s, rfl, hs⟩ := h
    exact ⟨s.setTimeout timeout, rfl, hs⟩
  openSockets peer := by
    intro w
    refine (openSockets_renews peer w.1 w.2).imp fun r v hv h => ?_
    obtain ⟨s, hs, -⟩ := h
    rw [hv, hs]
    split
    · exact ⟨s.renewed peer, rfl, rfl⟩
    · exact ⟨s.disconnected, rfl, rfl⟩

theorem disconnect_refuses {s : SourceSession} (n : Network) :
    Ends disconnect (source s, n) fun _ v => v.1.IsRefusing := by
  obtain ⟨closed, -, -, hdisconnect⟩ := s.disconnect_closes n
  apply ends_state_bind
  apply Ends.on (p := sourcePart) rfl
  exact ends_of_ok hdisconnect ⟨s.disconnected, rfl, rfl⟩

end EngineSession

namespace GameServer

variable {w : GameServer × Network}

theorem execute_of_isRefusing (h : w.1.engine.IsRefusing) (command : String) :
    execute command w = .error .notAuthenticated w := by
  obtain ⟨⟨⟨endpoint, owner⟩, cache⟩, n⟩ := w
  obtain ⟨s, rfl, hs⟩ : owner.IsRefusing := h
  have hexecute : SourceSession.execute command (s, n) = .error .notAuthenticated (s, n) := by
    rw [SourceSession.execute, state_bind, hs]
    rfl
  have hengine : EngineSession.execute command (.source s, n) =
      .error .notAuthenticated (.source s, n) := by
    rw [EngineSession.execute, EngineSession.byEngine, state_bind]
    exact on_of_error rfl hexecute
  exact on_of_error (p := enginePart) (t := EngineSession.source s) rfl hengine

theorem authenticate_refuses (h : w.1.engine.IsRefusing) (password : String) :
    Ends (authenticate password) w fun r v => r ≠ .ok true → v.1.engine.IsRefusing := by
  obtain ⟨⟨⟨endpoint, owner⟩, cache⟩, n⟩ := w
  obtain ⟨s, rfl, -⟩ : owner.IsRefusing := h
  refine (authenticate_judged endpoint s cache n password).imp fun r v hv hr => ?_
  obtain ⟨s', hs', hjudged⟩ := hv
  exact ⟨s', hs', Bool.eq_false_iff.2 fun hauth => hr (hjudged.1.1 hauth)⟩

/-- An operation in which a password is accepted. The players of a server are extended only by a
client that can send commands, so that it sends the password if it has to. -/
def Operation.LogsIn (w : GameServer × Network) : Operation → Prop
  | .authenticate password => ∃ v, GameServer.authenticate password w = .ok true v
  | .updatePlayers (some password) => ∃ u v, GameServer.update .players w = .ok () u ∧
      (u.1.cache.players.getD []).isEmpty = false ∧ u.1.engine.authenticated = false ∧
        GameServer.authenticate password u = .ok true v
  | _ => False

/-- In none of some operations a password is accepted. -/
def NeverLogsIn : List Operation → GameServer × Network → Prop
  | [], _ => True
  | op :: ops, w => ¬ op.LogsIn w ∧ NeverLogsIn ops (op.after w)

theorem updatePlayers_refuses (password : String) (h : w.1.engine.IsRefusing)
    (hnot : ¬ Operation.LogsIn w (.updatePlayers (some password))) :
    Ends (updatePlayers (some password)) w fun _ v => v.1.engine.IsRefusing := by
  have hupdate := onEngine_update EngineSession.carries_keepsRefusing .players w
  cases hplayers : update .players w with
  | error e u => exact ends_of_error (bind_of_error hplayers _) (hupdate.of_eq_error hplayers h)
  | ok _ u =>
    have hu : u.1.engine.IsRefusing := hupdate.of_eq_ok hplayers h
    have hauth : u.1.engine.authenticated = false := by
      obtain ⟨s, hs, hauth⟩ := hu
      rw [hs]
      exact hauth
    apply ends_bind_of_ok hplayers
    apply ends_state_bind
    cases hempty : (u.1.cache.players.getD []).isEmpty with
    | true => exact ends_pure hu
    | false =>
      simp only [Bool.false_eq_true, if_false]
      apply ends_state_bind
      simp only [hauth, Bool.false_eq_true, if_false]
      have hrefuses := authenticate_refuses hu password
      cases hlogin : authenticate password u with
      | error e v =>
        apply ends_of_error (bind_of_error hlogin _)
        exact hrefuses.of_eq_error hlogin nofun
      | ok accepted v =>
        cases accepted with
        | true => exact absurd ⟨u, v, hplayers, hempty, hauth, hlogin⟩ hnot
        | false =>
          apply ends_bind_of_ok hlogin
          refine ends_of_error (bind_of_error rfl _) ?_
          exact hrefuses.of_eq_ok hlogin nofun

theorem perform_refuses (op : Operation) (h : w.1.engine.IsRefusing) (hnot : ¬ op.LogsIn w) :
    Ends op.perform w fun _ v => v.1.engine.IsRefusing := by
  by_cases hop : op.TouchesConsole
  · cases op with
    | authenticate password =>
      apply Ends.discard
      have hrefuses := authenticate_refuses h password
      cases hlogin : authenticate password w with
      | error e v => exact ends_of_error hlogin (hrefuses.of_eq_error hlogin nofun)
      | ok accepted v =>
        refine ends_of_ok hlogin (hrefuses.of_eq_ok hlogin fun haccepted => hnot ⟨v, ?_⟩)
        cases haccepted
        exact hlogin
    | execute command =>
      apply Ends.discard
      exact ends_of_error (execute_of_isRefusing h command) h
    | disconnect =>
      obtain ⟨⟨⟨endpoint, owner⟩, cache⟩, n⟩ := w
      obtain ⟨s, rfl, -⟩ : owner.IsRefusing := h
      exact Ends.on (p := enginePart) rfl (EngineSession.disconnect_refuses n)
    | updatePlayers password =>
      cases password with
      | none => exact hop.elim
      | some password => exact updatePlayers_refuses password h hnot
    | _ => exact hop.elim
  · exact (onEngine_perform EngineSession.carries_keepsRefusing hop w).imp fun _ _ hv => hv h

theorem run_refuses (ops : List Operation) (h : w.1.engine.IsRefusing) (hnot : NeverLogsIn ops w) :
    (run ops w).1.engine.IsRefusing := by
  induction ops generalizing w with
  | nil => exact h
  | cons op ops ih =>
    obtain ⟨hop, hops⟩ := hnot
    exact ih (Operation.after_of_ends (perform_refuses op h hop)) hops

/-- Whatever session there was before: a password is accepted exactly if it was sent over a stream
opened for it, and the frames received over this stream are an answer with the id of the password,
behind one empty value at most. They are the start of what this stream delivers. If it is not
accepted, whether or not there is an error, then every command is refused, and nothing happens,
until another operation has a password accepted. -/
theorem authenticate_iff_granted (endpoint : Endpoint) (s : SourceSession) (cache : ServerCache)
    (n : Network) (password : String) :
    Ends (authenticate password) (⟨⟨endpoint, .source s⟩, cache⟩, n) fun r v =>
      ∃ s', v.1.engine = .source s' ∧
        (r = .ok true ↔ SourceSession.Granted (consolePeer endpoint s) s'.requestId password
          n.history v.2.history) ∧
        (∀ after before,
          SentOnNew (consolePeer endpoint s) (.auth s'.requestId password) after before
              n.history v.2.history → receivedBytes after <+:
            n.world.deliver (.connected .tcp (consolePeer endpoint s) none :: (before ++ n.history))
              (consolePeer endpoint s) (Rcon.Request.auth s'.requestId password).bytes) ∧
        (s'.authenticated = true ↔ r = .ok true) ∧
        (r ≠ .ok true → ∀ ops, NeverLogsIn ops v → ∀ command,
          execute command (run ops v) = .error .notAuthenticated (run ops v)) := by
  refine (authenticate_judged endpoint s cache n password).imp fun r v hv => ?_
  obtain ⟨s', hs', hjudged⟩ := hv
  refine ⟨s', hs', hjudged.granted_iff, fun _ _ => hjudged.delivered, hjudged.1, ?_⟩
  intro hr ops hops command
  have hrefusing : v.1.engine.IsRefusing :=
    ⟨s', hs', Bool.eq_false_iff.2 fun hauth => hr (hjudged.1.1 hauth)⟩
  exact execute_of_isRefusing (run_refuses ops hrefusing hops) command

section Yielding

/-- A server that sends an empty value and accepts any password. -/
def yieldingWorld : World where
  connect _ _ _ := none
  react _ _ _ _ := .ok [.data (Rcon.frameBytes 7 0 [] ++ Rcon.frameBytes 7 2 [])]
  resolve _ := none
  sessionId _ := 7

example : Ends (authenticate "secret")
    (⟨⟨⟨"game.test", [.v4 ⟨⟨192, 0, 2, 1⟩, gamePort⟩], 0, by decide⟩, .source {}⟩, {}⟩,
      { world := yieldingWorld }) fun r v => r = .ok true ∧ v.1.engine.authenticated = true := by
  decide +kernel

end Yielding

end GameServer

end GameQuery
