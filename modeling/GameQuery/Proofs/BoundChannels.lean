import GameQuery.Proofs.FrameReception
import GameQuery.Proofs.ReplyOrigin
import GameQuery.Proofs.ServerFailover
import GameQuery.Proofs.StreamPieces

namespace GameQuery

/-!
# Channels that stay with their peer

A channel goes to the peer it was made for, and waits as long as it has been told. Whatever comes of
what is done with it, it stays so, and nothing that is done for the console sends a challenge number
for queries: `Steady` says both. `Learns` says besides what is known of a value from the events
meanwhile: a reply has come from the peer, and so has a frame.
-/

open Dialog

/-- Nothing is sent in an event that carries a challenge number for queries. -/
def Event.IsNumberFree (e : Event) : Prop :=
  ∀ peer bytes number, e = .sent .udp peer bytes → ¬ CarriesNumber bytes number

/-- What keeps a condition intact and sends no challenge number. -/
def Steady {σ : Type} (P : σ → Prop) (w v : σ × Network) : Prop :=
  P w.1 → P v.1 ∧ ∃ new, v.2.history = new ++ w.2.history ∧ ∀ e ∈ new, e.IsNumberFree

section Steady

variable {σ τ α : Type} {P : σ → Prop} {Q : τ → Prop}

instance : Std.Refl (Steady P) := ⟨fun _ h => ⟨h, [], rfl, List.forall_mem_nil _⟩⟩

instance : Trans (Steady P) (Steady P) (Steady P) where
  trans h h' hP := by
    obtain ⟨hP, new, hnew, hfree⟩ := h hP
    obtain ⟨hP, new', hnew', hfree'⟩ := h' hP
    refine ⟨hP, new' ++ new, ?_, List.forall_mem_append.2 ⟨hfree', hfree⟩⟩
    rw [hnew', hnew, List.append_assoc]

theorem steady_of_ends {d : Dialog σ α} (h : ∀ w, P w.1 → Ends d w fun _ v =>
    P v.1 ∧ ∃ new, v.2.history = new ++ w.2.history ∧ ∀ e ∈ new, e.IsNumberFree) :
    Moves (Steady P) d := by
  intro w
  by_cases hP : P w.1
  · exact (h w hP).imp fun _ _ hv _ => hv
  · exact ends_of_forall fun _ _ hP' => absurd hP' hP

theorem steady_modifyState {f : σ → σ} (hf : ∀ s, P s → P (f s)) :
    Moves (Steady P) (modifyState f) :=
  moves_modifyState fun s _ hs => ⟨hf s hs, [], rfl, List.forall_mem_nil _⟩

theorem steady_note (level : LogLevel) (text : String) : Moves (Steady P) (note level text) :=
  moves_modifyNetwork fun _ _ hs => ⟨hs, [], rfl, List.forall_mem_nil _⟩

theorem steady_on {p : Part σ τ} {d : Dialog τ α} (hd : Moves (Steady Q) d)
    (hget : ∀ s t, P s → p.get? s = some t → Q t)
    (hput : ∀ s t t', P s → p.get? s = some t → Q t' → P (p.put t' s)) :
    Moves (Steady P) (on p d) := by
  refine hd.on fun s n t v ht hv hs => ?_
  obtain ⟨ht', hnew⟩ := hv (hget s t hs ht)
  exact ⟨hput s t v.1 hs ht ht', hnew⟩

end Steady

/-! ## What is learned meanwhile -/

/-- What keeps a condition intact, sends no challenge number, and gives only what can be told from
the events meanwhile. -/
def Learns {σ α : Type} (P : σ → Prop) (A : α → List Event → Prop) (d : Dialog σ α) : Prop :=
  ∀ w, P w.1 → Ends d w fun r v => P v.1 ∧ ∃ new, v.2.history = new ++ w.2.history ∧
    (∀ e ∈ new, e.IsNumberFree) ∧ ∀ a, r = .ok a → A a new

section Learns

variable {σ τ α β : Type} {P : σ → Prop} {Q : τ → Prop} {A A' : α → List Event → Prop}
  {B : β → List Event → Prop} {d : Dialog σ α} {f : α → Dialog σ β}

theorem Learns.steady (h : Learns P A d) : Moves (Steady P) d := by
  refine steady_of_ends fun w hw => (h w hw).imp ?_
  rintro r v ⟨hv, new, hnew, hfree, -⟩
  exact ⟨hv, new, hnew, hfree⟩

theorem learns_of_steady (h : Moves (Steady P) d) : Learns P (fun _ _ => True) d := by
  intro w hw
  refine (h w).imp fun r v hv => ?_
  obtain ⟨hP, new, hnew, hfree⟩ := hv hw
  exact ⟨hP, new, hnew, hfree, fun _ _ => trivial⟩

theorem Learns.imp (h : Learns P A d) (hA : ∀ a new, A a new → A' a new) : Learns P A' d := by
  refine fun w hw => (h w hw).imp ?_
  rintro r v ⟨hv, new, hnew, hfree, ha⟩
  exact ⟨hv, new, hnew, hfree, fun a hr => hA a new (ha a hr)⟩

theorem learns_pure {a : α} (h : A a []) : Learns P A (pure a) := by
  refine fun w hw => ends_pure ⟨hw, [], rfl, List.forall_mem_nil _, ?_⟩
  rintro b ⟨⟩
  exact h

theorem learns_throw (e : ClientError) : Learns P A (throw e) :=
  fun _ hw => ends_throw ⟨hw, [], rfl, List.forall_mem_nil _, nofun⟩

theorem Learns.bind (hd : Learns P A d)
    (hf : ∀ a new, A a new → Learns P (fun b more => B b (more ++ new)) (f a)) :
    Learns P B (d >>= f) := by
  intro w hw
  refine (hd w hw).bind ?_ ?_
  · rintro a v ⟨hv, new, hnew, hfree, ha⟩
    refine (hf a new (ha a rfl) v hv).imp ?_
    rintro r u ⟨hu, more, hmore, hfree', hb⟩
    refine ⟨hu, more ++ new, ?_, List.forall_mem_append.2 ⟨hfree', hfree⟩, hb⟩
    rw [hmore, hnew, List.append_assoc]
  · rintro e v ⟨hv, new, hnew, hfree, -⟩
    exact ⟨hv, new, hnew, hfree, nofun⟩

/-- Nothing is learned from what has been done before. -/
theorem Learns.after (hd : Moves (Steady P) d) (hf : ∀ a, Learns P B (f a))
    (hB : ∀ b more new, B b more → B b (more ++ new)) : Learns P B (d >>= f) :=
  (learns_of_steady hd).bind fun a new _ => (hf a).imp fun b more => hB b more new

theorem learns_state_bind {f : σ → Dialog σ β} (hf : ∀ s, Learns P B (f s)) :
    Learns P B (state >>= f) := fun w hw => ends_state_bind (hf w.1 w hw)

theorem Learns.outcome (h : Learns P A d) :
    Learns P (fun r new => ∀ a, r = .ok a → A a new) (Dialog.outcome d) := by
  refine fun w hw => Ends.outcome ((h w hw).imp ?_)
  rintro r v ⟨hv, new, hnew, hfree, ha⟩
  refine ⟨hv, new, hnew, hfree, ?_⟩
  rintro _ ⟨⟩
  exact ha

theorem Learns.on {p : Part σ τ} {A : α → List Event → Prop} {d : Dialog τ α} (hd : Learns Q A d)
    (hget : ∀ s t, P s → p.get? s = some t → Q t)
    (hput : ∀ s t t', P s → p.get? s = some t → Q t' → P (p.put t' s)) :
    Learns P A (Dialog.on p d) := by
  rintro ⟨s, n⟩ hs
  cases ht : p.get? s with
  | none => exact ends_on_none ht ⟨hs, [], rfl, List.forall_mem_nil _, nofun⟩
  | some t =>
    refine Ends.on ht ((hd (t, n) (hget s t hs ht)).imp ?_)
    rintro r v ⟨hv, hlearned⟩
    exact ⟨hput s t v.1 hs ht hv, hlearned⟩

theorem learns_iterate {size : β → σ → Nat} {body : β → Dialog σ (Pass β α)}
    (smaller : ∀ {b w b' w'}, body b w = .ok (.again b') w' → size b' w'.1 < size b w.1) {b : β}
    (I : β → List Event → Prop) (h : I b [])
    (pass : ∀ b new, I b new → Learns P (fun p more =>
      match p with
      | .again b' => I b' (more ++ new)
      | .done a => A a (more ++ new)) (body b)) : Learns P A (iterate size body smaller b) := by
  intro w hw
  refine ends_iterate smaller (fun b v => P v.1 ∧ ∃ new, v.2.history = new ++ w.2.history ∧
    (∀ e ∈ new, e.IsNumberFree) ∧ I b new) ?_ ⟨hw, [], rfl, List.forall_mem_nil _, h⟩
  rintro b v ⟨hv, new, hnew, hfree, hb⟩
  refine (pass b new hb v hv).imp ?_
  rintro r u ⟨hu, more, hmore, hfree', hp⟩
  have hhistory : u.2.history = (more ++ new) ++ w.2.history := by
    rw [hmore, hnew, List.append_assoc]
  have hall := List.forall_mem_append.2 ⟨hfree', hfree⟩
  rcases r with e | b' | a
  · exact ⟨hu, more ++ new, hhistory, hall, fun _ h => nomatch h⟩
  · exact ⟨hu, more ++ new, hhistory, hall, hp _ rfl⟩
  · refine ⟨hu, more ++ new, hhistory, hall, ?_⟩
    rintro _ ⟨⟩
    exact hp _ rfl

/-- What is known of the events of a dialog can be added to what it keeps. -/
theorem learns_of_steady_of_ends (hd : Moves (Steady P) d)
    (h : ∀ w, P w.1 → Ends d w fun r v => ∀ a, r = .ok a →
      ∃ new, v.2.history = new ++ w.2.history ∧ A a new) : Learns P A d := by
  intro w hw
  refine ((hd w).and (h w hw)).imp ?_
  rintro r v ⟨hsteady, hA⟩
  obtain ⟨hv, new, hnew, hfree⟩ := hsteady hw
  refine ⟨hv, new, hnew, hfree, fun a ha => ?_⟩
  obtain ⟨new', hnew', hA⟩ := hA a ha
  have heq : new' = new := List.append_cancel_right (hnew'.symm.trans hnew)
  rwa [heq] at hA

theorem learns_read {f : σ → Dialog σ β} (hf : ∀ s, P s → Learns P B (f s)) :
    Learns P B (state >>= f) := fun w hw => ends_state_bind (hf w.1 hw w hw)

/-- Nothing happens meanwhile. -/
theorem learns_nothing_modifyState {g : σ → σ} (hg : ∀ s, P s → P (g s)) :
    Learns P (fun _ new => new = []) (modifyState g) :=
  learns_of_steady_of_ends (steady_modifyState hg) fun _ _ _ _ => ⟨[], rfl, rfl⟩

theorem learns_nothing_note (level : LogLevel) (text : String) :
    Learns P (fun _ new => new = []) (note level text) :=
  learns_of_steady_of_ends (steady_note level text) fun _ _ _ _ => ⟨[], rfl, rfl⟩

theorem Learns.after_nothing (hd : Learns P (fun _ new => new = []) d)
    (hf : ∀ a, Learns P B (f a)) : Learns P B (d >>= f) := by
  refine hd.bind fun a new hnew => (hf a).imp fun b more hb => ?_
  rwa [hnew, List.append_nil]

end Learns

/-! ## Query channels -/

theorem Event.IsReceipt.isNumberFree {e : Event} (h : e.IsReceipt) : e.IsNumberFree := by
  rintro p bytes number rfl
  exact h.elim

namespace QueryChannel

variable {peer : SocketAddress} {framing : Framing} {own : Option Nat}

theorem isBoundTo_fresh (peer : SocketAddress) (framing : Framing) (own : Option Nat) :
    ((fresh peer framing).setTimeout own).IsBoundTo peer framing own := ⟨rfl, rfl, rfl, rfl⟩

theorem IsBoundTo.setTimeout {c : QueryChannel} (h : c.IsBoundTo peer framing own)
    (timeout : Option Nat) : (c.setTimeout timeout).IsBoundTo peer framing timeout :=
  ⟨h.transport, h.peer, h.framing, rfl⟩

theorem isNumberFree_receptions (datagrams : List (List UInt8)) :
    ∀ e ∈ receptions peer datagrams, e.IsNumberFree := by
  intro e he
  obtain ⟨datagram, -, rfl⟩ := List.mem_map.1 (List.mem_reverse.1 he)
  nofun

theorem Abandoned.exists_new {datagrams : List (List UInt8)} {old history : List Event}
    (h : Abandoned peer datagrams old history) :
    ∃ new, history = new ++ old ∧ ∀ e ∈ new, e.IsNumberFree := by
  rcases h with rfl | ⟨wait, rfl⟩
  · exact ⟨_, rfl, isNumberFree_receptions datagrams⟩
  · refine ⟨_ :: _, rfl, List.forall_mem_cons.2 ⟨nofun, isNumberFree_receptions datagrams⟩⟩

/-- A reply has come from the peer. -/
theorem learns_reply (timeout : Option Nat) :
    Learns (IsBoundTo peer framing own) (fun reply new => Came framing peer new reply)
      (reply timeout) := by
  refine fun w hw => (reply_ends timeout hw w.2).imp ?_
  rintro r v ⟨hv, datagrams, hwaited⟩
  refine ⟨hv, ?_⟩
  cases r with
  | ok reply =>
    refine ⟨_, hwaited.2, isNumberFree_receptions datagrams, ?_⟩
    rintro _ ⟨⟩
    exact ⟨[], datagrams, [], (List.append_nil _).symm, hwaited.1⟩
  | error e =>
    obtain ⟨new, hnew, hfree⟩ := hwaited.2.2.exists_new
    exact ⟨new, hnew, hfree, fun _ h => nomatch h⟩

/-- A line for the console carries no number. -/
theorem steady_send {r : Request} (hr : r.number? = none) :
    Moves (Steady (IsBoundTo peer framing own)) (send r) := by
  refine steady_of_ends fun w hw => (send_ends r hw w.2).imp ?_
  rintro o v ⟨hv, -, hhistory | ⟨-, hhistory⟩⟩
  · refine ⟨hv, [_], hhistory, List.forall_mem_singleton.2 ?_⟩
    rintro peer' bytes number ⟨⟩ hnumber
    have hsome := Request.number?_of_carriesNumber hnumber
    rw [hr] at hsome
    cases hsome
  · exact ⟨hv, [], hhistory, List.forall_mem_nil _⟩

/-- Who has sent something has sent it to the peer, and only that. -/
theorem learns_send {r : Request} (hr : r.number? = none) : Learns (IsBoundTo peer framing own)
    (fun _ new => new = [.sent .udp peer r.bytes]) (send r) := by
  apply learns_of_steady_of_ends (steady_send hr)
  rintro ⟨c, n⟩ hc
  by_cases hroom : r.bytes.length ≤ requestRoom
  · refine (send_ends r hc n).imp ?_
    rintro o v ⟨-, -, hhistory⟩ u -
    have hsent := hhistory.resolve_right fun hlarge => absurd hroom (Nat.not_le.2 hlarge.1)
    exact ⟨_, hsent, rfl⟩
  · rw [send, Request.write_eq, DatagramChannel.sendRequest_eq, if_neg hroom]
    refine Ends.on (p := channelPart) rfl (ends_throw fun u hu => ?_)
    cases hu

theorem Waited.exists_new {old history : List Event} {datagrams : List (List UInt8)}
    {r : Except ClientError Reply} (h : Waited framing peer old datagrams r history) :
    ∃ new, history = new ++ old ∧ Waited framing peer [] datagrams r new := by
  cases r with
  | ok reply => exact ⟨_, h.2, h.1, (List.append_nil _).symm⟩
  | error e =>
    obtain ⟨hnone, he, rfl | ⟨wait, rfl⟩⟩ := h
    · exact ⟨_, rfl, hnone, he, .inl (List.append_nil _).symm⟩
    · exact ⟨_ :: _, rfl, hnone, he, .inr ⟨wait, by rw [List.append_nil]⟩⟩

theorem Waited.isReceipt {datagrams : List (List UInt8)} {r : Except ClientError Reply}
    {new : List Event} (h : Waited framing peer [] datagrams r new) : ∀ e ∈ new, e.IsReceipt := by
  have hreceptions : ∀ e ∈ receptions peer datagrams ++ [], e.IsReceipt := by
    intro e he
    rw [List.append_nil] at he
    obtain ⟨datagram, -, rfl⟩ := List.mem_map.1 (List.mem_reverse.1 he)
    trivial
  cases r with
  | ok reply => exact h.2 ▸ hreceptions
  | error e =>
    obtain ⟨-, -, rfl | ⟨wait, rfl⟩⟩ := h
    · exact hreceptions
    · exact List.forall_mem_cons.2 ⟨trivial, hreceptions⟩

end QueryChannel

/-! ## Console channels -/

/-- The socket is a stream to a peer. -/
def Socket.IsStreamTo (peer : SocketAddress) (s : Socket) : Prop :=
  s.transport = .tcp ∧ s.peer = peer

section Streams

variable {peer : SocketAddress}

theorem Event.IsReception.isNumberFree {e : Event} (h : e.IsReception peer) : e.IsNumberFree := by
  rintro peer' bytes number rfl
  exact absurd h id

theorem Socket.steady_read (wait count : Nat) :
    Moves (Steady (IsStreamTo peer)) (read wait count) := by
  refine steady_of_ends fun w hw => (read_reception wait count hw.1).imp ?_
  rintro r v ⟨bytes, hv, -⟩
  obtain ⟨new, hnew, hon, -⟩ := hv.history
  exact ⟨⟨hv.transport.trans hw.1, hv.peer.trans hw.2⟩, new, hnew,
    fun e he => (hon e he).isNumberFree⟩

theorem Socket.steady_send (bytes : List UInt8) :
    Moves (Steady (IsStreamTo peer)) (send bytes) := by
  refine steady_of_ends fun w hw => (send_ends bytes w).imp ?_
  rintro r v ⟨htransport, hpeer, -, hhistory, -⟩
  refine ⟨⟨htransport.trans hw.1, hpeer.trans hw.2⟩, [_], hhistory, List.forall_mem_singleton.2 ?_⟩
  rw [hw.1]
  nofun

end Streams

/-- A frame has come from a peer: it is in a stretch of bytes that have been taken off a stream one
after another. -/
def FrameCame (peer : SocketAddress) (recent : List Event) (r : Rcon.Reply) : Prop :=
  ∃ later taken earlier, recent = later ++ (taken ++ earlier) ∧
    (∀ e ∈ taken, e.IsReception peer) ∧ Rcon.IsFrame (receivedBytes taken) r

theorem FrameCame.append {peer : SocketAddress} {recent : List Event} {r : Rcon.Reply}
    (h : FrameCame peer recent r) (new : List Event) : FrameCame peer (new ++ recent) r := by
  obtain ⟨later, taken, earlier, rfl, hr⟩ := h
  exact ⟨new ++ later, taken, earlier, (List.append_assoc ..).symm, hr⟩

theorem FrameCame.after {peer : SocketAddress} {recent : List Event} {r : Rcon.Reply}
    (h : FrameCame peer recent r) (old : List Event) : FrameCame peer (recent ++ old) r := by
  obtain ⟨later, taken, earlier, rfl, hr⟩ := h
  exact ⟨later, taken, earlier ++ old, by simp only [List.append_assoc], hr⟩

namespace ConsoleChannel

/-- The channel goes to a peer, and so does its stream while it is open. -/
structure IsBoundTo (peer : SocketAddress) (own : Option Nat) (c : ConsoleChannel) : Prop where
  stream : ∀ s, c.stream = some s → s.IsStreamTo peer
  peer : c.peer = peer
  timeout : c.timeout = own

variable {peer : SocketAddress} {own : Option Nat} {c : ConsoleChannel}

theorem IsBoundTo.setTimeout (h : c.IsBoundTo peer own) (timeout : Option Nat) :
    (c.setTimeout timeout).IsBoundTo peer timeout := ⟨h.stream, h.peer, rfl⟩

theorem isBoundTo_of_closed (peer : SocketAddress) (own : Option Nat) :
    IsBoundTo peer own { peer, timeout := own } := ⟨nofun, rfl, rfl⟩

theorem IsBoundTo.stream_cases (h : c.IsBoundTo peer own) : c.stream = none ∨ c.IsOpen := by
  cases hstream : c.stream with
  | none => exact .inl rfl
  | some s =>
    obtain ⟨htcp, hpeer⟩ := h.stream s hstream
    exact .inr ⟨s, hstream, htcp, hpeer.trans h.peer.symm⟩

theorem steady_onStream {α : Type} {d : Dialog Socket α}
    (hd : Moves (Steady (Socket.IsStreamTo peer)) d) :
    Moves (Steady (IsBoundTo peer own)) (on streamPart d) := by
  refine steady_on hd (fun c s hc hs => hc.stream s hs) fun c s s' hc _ hs' => ?_
  refine ⟨?_, hc.peer, hc.timeout⟩
  rintro t ⟨⟩
  exact hs'

theorem steady_close : Moves (Steady (IsBoundTo peer own)) close := by
  refine steady_of_ends ?_
  rintro ⟨⟨peer', stream, timeout⟩, n⟩ ⟨hstream, rfl, rfl⟩
  cases stream with
  | none => exact ⟨⟨hstream, rfl, rfl⟩, [], rfl, List.forall_mem_nil _⟩
  | some s =>
    exact ⟨⟨nofun, rfl, rfl⟩, [.closed peer'], rfl, List.forall_mem_singleton.2 nofun⟩

theorem steady_connect : Moves (Steady (IsBoundTo peer own)) connect := by
  refine steady_of_ends ?_
  rintro ⟨⟨peer', stream, timeout⟩, n⟩ ⟨hstream, rfl, rfl⟩
  cases stream with
  | some s => exact ⟨⟨hstream, rfl, rfl⟩, [], rfl, List.forall_mem_nil _⟩
  | none =>
    refine ends_state_bind ((Socket.connect_ends .tcp peer' _).bind ?_ ?_)
    · rintro s ⟨c, m⟩ ⟨rfl, rfl, hm⟩
      refine ⟨⟨?_, rfl, rfl⟩, [_], hm, List.forall_mem_singleton.2 nofun⟩
      rintro t ⟨⟩
      exact ⟨rfl, rfl⟩
    · rintro e ⟨c, m⟩ ⟨rfl, -, f, hm⟩
      exact ⟨⟨hstream, rfl, rfl⟩, [_], hm, List.forall_mem_singleton.2 nofun⟩

theorem steady_send (r : Rcon.Request) : Moves (Steady (IsBoundTo peer own)) (send r) := by
  refine (moves_ofCodec _).bind fun filled => steady_connect.bind fun _ => ?_
  exact (steady_onStream (Socket.steady_send _)).onError fun _ => steady_close

theorem steady_reply (timeout : Option Nat) :
    Moves (Steady (IsBoundTo peer own)) (reply timeout) :=
  moves_reply Socket.steady_read steady_onStream steady_close timeout

/-- A frame has come from the peer. -/
theorem learns_reply (timeout : Option Nat) : Learns (IsBoundTo peer own)
    (fun r new => ∀ frame, r = some frame → FrameCame peer new frame) (reply timeout) := by
  intro w hw
  have hcame : Ends (reply timeout) w fun r v => ∀ frame, r = .ok (some frame) →
      ∃ new, v.2.history = new ++ w.2.history ∧ FrameCame peer new frame := by
    rcases hw.stream_cases with hclosed | hopen
    · exact ends_of_ok (reply_of_closed timeout (left_eq_none.2 hclosed)) fun _ h => nomatch h
    · refine (reply_ends timeout hopen).imp ?_
      rintro _ v ⟨new, hon, hv⟩ frame rfl
      rw [hw.peer] at hon
      exact ⟨new, hv.1.history, [], new, [], (List.append_nil new).symm, hon, hv.2⟩
  have hmoves : Moves (Steady (IsBoundTo peer own)) (reply timeout) := steady_reply timeout
  refine ((hmoves w).and hcame).imp ?_
  rintro r v ⟨hsteady, hframe⟩
  obtain ⟨hv, new, hnew, hfree⟩ := hsteady hw
  refine ⟨hv, new, hnew, hfree, ?_⟩
  rintro _ rfl frame rfl
  -- Both accounts end in the same history, so they tell of the same events.
  obtain ⟨new', hnew', hcame⟩ := hframe frame rfl
  rwa [List.append_cancel_right (hnew.symm.trans hnew')]

end ConsoleChannel

end GameQuery
