import GameQuery.Proofs.ConsoleStream

namespace GameQuery

/-!
# Console commands in a history

A console obeys whoever has sent it the right password over the same stream. `AcceptedOn` finds in
the history that a password has been accepted on the stream that is open, and the commands of a
history are authorized if each was sent over such a stream.
-/

namespace Event

/-- A command, or the empty frame behind one. -/
def IsCommand : Event → Prop
  | .sent .tcp _ bytes =>
    Rcon.frameKind bytes = Rcon.Request.execKind.toUInt32.toNat ∨
      Rcon.frameKind bytes = Rcon.Request.terminatorKind.toUInt32.toNat
  | _ => False

/-- The end of a stream, or the start of another one. -/
def Breaks : Event → Prop
  | .connected .tcp _ none | .closed _ => True
  | _ => False

theorem isCommand_exec (peer : SocketAddress) (id : Int32) (command : String) :
    (sent .tcp peer (Rcon.Request.exec id command).bytes).IsCommand :=
  .inl (Rcon.frameKind_frameBytes ..)

theorem isCommand_terminator (peer : SocketAddress) (id : Int32) :
    (sent .tcp peer (Rcon.Request.terminator id).bytes).IsCommand :=
  .inr (Rcon.frameKind_frameBytes ..)

theorem not_isCommand_auth (peer : SocketAddress) (id : Int32) (password : String) :
    ¬ (sent .tcp peer (Rcon.Request.auth id password).bytes).IsCommand := by
  simp only [IsCommand, Rcon.Request.bytes, Rcon.frameKind_frameBytes, Rcon.Request.auth]
  decide

theorem IsReception.not_isCommand {peer : SocketAddress} {e : Event} (h : e.IsReception peer) :
    ¬ e.IsCommand := by
  cases e <;> simp_all [IsReception, IsCommand]

theorem IsReception.not_breaks {peer : SocketAddress} {e : Event} (h : e.IsReception peer) :
    ¬ e.Breaks := by
  cases e <;> simp_all [IsReception, Breaks]

theorem IsOn.not_isCommand {peer : SocketAddress} {e : Event} (h : e.IsOn .udp peer) :
    ¬ e.IsCommand := by
  cases e <;> simp_all [IsOn, IsCommand]

theorem IsOn.not_breaks {transport : Transport} {peer : SocketAddress} {e : Event}
    (h : e.IsOn transport peer) : ¬ e.Breaks := by
  cases e <;> simp_all [IsOn, Breaks]

end Event

/-- On the stream to a peer that is open at the end of a history, a password was sent with an id
and the peer has accepted it: among the frames received there is the answer with the same id. -/
def AcceptedOn (peer : SocketAddress) (id : Int32) (history : List Event) : Prop :=
  ∃ after older password, history =
      after ++ .sent .tcp peer (Rcon.Request.auth id password).bytes ::
        .connected .tcp peer none :: older ∧
    (∀ e ∈ after, ¬ e.Breaks) ∧
    ∃ frames rest earlier r, receivedBytes after = frames ++ rest ∧
      Rcon.AreFrames frames (earlier ++ [r]) ∧ r.kind = .auth ∧ r.id = id

theorem AcceptedOn.append {peer : SocketAddress} {id : Int32} {history new : List Event}
    (h : AcceptedOn peer id history) (hnew : ∀ e ∈ new, ¬ e.Breaks) :
    AcceptedOn peer id (new ++ history) := by
  obtain ⟨after, older, password, rfl, hafter, frames, rest, earlier, r, hbytes, hr⟩ := h
  refine ⟨new ++ after, older, password, (List.append_assoc ..).symm, ?_, frames,
    rest ++ receivedBytes new, earlier, r, ?_, hr⟩
  · intro e he
    rcases List.mem_append.1 he with he | he
    · exact hnew e he
    · exact hafter e he
  · rw [receivedBytes_append, hbytes, List.append_assoc]

/-- Nothing has been accepted yet on a stream that has just been opened. -/
theorem not_acceptedOn_of_breaks {peer : SocketAddress} {id : Int32} {e : Event}
    {history : List Event} (he : e.Breaks) : ¬ AcceptedOn peer id (e :: history) := by
  rintro ⟨after, older, password, heq, hafter, -⟩
  cases after with
  | nil =>
    obtain ⟨rfl, -⟩ := List.cons.inj heq
    exact he
  | cons first after =>
    obtain ⟨rfl, -⟩ := List.cons.inj heq
    exact hafter _ List.mem_cons_self he

/-- What has been added to a history holds no command. -/
def AddsNoCommand (old history : List Event) : Prop :=
  ∃ new, history = new ++ old ∧ ∀ e ∈ new, ¬ e.IsCommand

/-- Whenever a command has been sent since some point of a history, the console had accepted a
password on the stream that the command was sent over. -/
def CommandsAuthorized (old history : List Event) : Prop :=
  ∀ peer bytes older, .sent .tcp peer bytes :: older <:+ history → old <:+ older →
    (Event.sent .tcp peer bytes).IsCommand → ∃ id, AcceptedOn peer id older

/-- A stream has been shut down after a command that was sent since some point of a history. -/
def ClosedUnderCommand (old history : List Event) : Prop :=
  ∃ later peer earlier, history = later ++ .closed peer :: (earlier ++ old) ∧
    ∃ e ∈ earlier, e.IsCommand

section History

variable {old mid history : List Event}

theorem AddsNoCommand.refl (old : List Event) : AddsNoCommand old old :=
  ⟨[], rfl, fun _ he => nomatch he⟩

theorem AddsNoCommand.trans (h : AddsNoCommand old mid) (h' : AddsNoCommand mid history) :
    AddsNoCommand old history := by
  obtain ⟨new, rfl, hnew⟩ := h
  obtain ⟨new', rfl, hnew'⟩ := h'
  refine ⟨new' ++ new, (List.append_assoc ..).symm, fun e he => ?_⟩
  rcases List.mem_append.1 he with he | he
  · exact hnew' e he
  · exact hnew e he

theorem AddsNoCommand.suffix (h : AddsNoCommand old history) : old <:+ history := by
  obtain ⟨new, rfl, -⟩ := h
  exact List.suffix_append new old

theorem AddsNoCommand.not_closedUnderCommand (h : AddsNoCommand old history) :
    ¬ ClosedUnderCommand old history := by
  obtain ⟨new, rfl, hnew⟩ := h
  rintro ⟨later, peer, earlier, heq, e, he, hcommand⟩
  have heq' : new ++ old = (later ++ .closed peer :: earlier) ++ old := by
    rw [heq, List.append_assoc, List.cons_append]
  rw [List.append_cancel_right heq'] at hnew
  exact hnew e (by simp [he]) hcommand

theorem not_closedUnderCommand_of_not_breaks {new : List Event} (h : ∀ e ∈ new, ¬ e.Breaks) :
    ¬ ClosedUnderCommand old (new ++ old) := by
  rintro ⟨later, peer, earlier, heq, -⟩
  have heq' : new ++ old = (later ++ .closed peer :: earlier) ++ old := by
    rw [heq, List.append_assoc, List.cons_append]
  rw [List.append_cancel_right heq'] at h
  exact h (.closed peer) (by simp) trivial

theorem ClosedUnderCommand.suffix (h : ClosedUnderCommand old history) : old <:+ history := by
  obtain ⟨later, peer, earlier, rfl, -⟩ := h
  exact ⟨later ++ .closed peer :: earlier, by simp⟩

theorem not_cons_suffix {e : Event} {older : List Event} (h : old <:+ older) :
    ¬ e :: older <:+ old := by
  intro h'
  have := Nat.le_trans h'.length_le h.length_le
  simp only [List.length_cons] at this
  omega

theorem CommandsAuthorized.refl (old : List Event) : CommandsAuthorized old old :=
  fun _ _ _ hsent hold => absurd hsent (not_cons_suffix hold)

theorem CommandsAuthorized.trans (h : CommandsAuthorized old mid)
    (h' : CommandsAuthorized mid history) (hmid : mid <:+ history) :
    CommandsAuthorized old history := by
  intro peer bytes older hsent hold hcommand
  rcases List.suffix_or_suffix_of_suffix hsent hmid with hle | hle
  · exact h peer bytes older hle hold hcommand
  · rcases List.suffix_cons_iff.1 hle with heq | hle
    · exact h peer bytes older (heq ▸ List.suffix_rfl) hold hcommand
    · exact h' peer bytes older hsent hle hcommand

theorem CommandsAuthorized.cons {peer : SocketAddress} {bytes : List UInt8} {id : Int32}
    (h : AcceptedOn peer id history) :
    CommandsAuthorized history (.sent .tcp peer bytes :: history) := by
  intro peer' bytes' older hsent hold _
  rcases List.suffix_cons_iff.1 hsent with heq | hle
  · cases heq
    exact ⟨id, h⟩
  · exact absurd hle (not_cons_suffix hold)

theorem AddsNoCommand.commandsAuthorized (h : AddsNoCommand old history) :
    CommandsAuthorized old history := by
  obtain ⟨new, rfl, hnew⟩ := h
  intro peer bytes older hsent hold hcommand
  obtain ⟨later, heq⟩ := hsent
  obtain ⟨earlier, rfl⟩ := hold
  have heq' : (later ++ .sent .tcp peer bytes :: earlier) ++ old = new ++ old := by
    rw [← heq, List.append_assoc, List.cons_append]
  rw [← List.append_cancel_right heq'] at hnew
  exact absurd hcommand (hnew _ (by simp))

/-- A command on a stream that has just been opened is not authorized. -/
theorem CommandsAuthorized.not_breaks {peer : SocketAddress} {bytes : List UInt8} {e : Event}
    {older : List Event} (h : CommandsAuthorized old history)
    (hsent : .sent .tcp peer bytes :: e :: older <:+ history) (hold : old <:+ e :: older)
    (hcommand : (Event.sent .tcp peer bytes).IsCommand) : ¬ e.Breaks := by
  intro he
  obtain ⟨id, haccepted⟩ := h peer bytes (e :: older) hsent hold hcommand
  exact not_acceptedOn_of_breaks he haccepted

theorem AddsNoCommand.closedUnderCommand_iff (h : AddsNoCommand old mid)
    (hmid : mid <:+ history) :
    ClosedUnderCommand old history ↔ ClosedUnderCommand mid history := by
  obtain ⟨between, rfl, hquiet⟩ := h
  constructor
  · rintro ⟨later, peer, earlier, rfl, e, he, hcommand⟩
    obtain ⟨new, heq⟩ := hmid
    have heq' : (new ++ between) ++ old = (later ++ .closed peer :: earlier) ++ old := by
      rw [List.append_assoc, heq, List.append_assoc, List.cons_append]
    have hsplit := List.append_cancel_right heq'
    rcases List.append_eq_append_iff.1 hsplit with ⟨rest, rfl, hrest⟩ | ⟨rest, rfl, hrest⟩
    · exact absurd hcommand (hquiet e (by simp [hrest, he]))
    · cases rest with
      | nil =>
        have hbetween : between = .closed peer :: earlier := hrest.symm
        exact absurd hcommand (hquiet e (by simp [hbetween, he]))
      | cons first rest =>
        obtain ⟨rfl, rfl⟩ := List.cons.inj hrest
        rcases List.mem_append.1 he with he | he
        · exact ⟨later, peer, rest, by simp, e, he, hcommand⟩
        · exact absurd hcommand (hquiet e he)
  · rintro ⟨later, peer, earlier, rfl, e, he, hcommand⟩
    exact ⟨later, peer, earlier ++ between, by simp, e, List.mem_append_left _ he, hcommand⟩

end History

end GameQuery
