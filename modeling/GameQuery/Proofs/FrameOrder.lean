import GameQuery.Proofs.ConsoleSession
import GameQuery.Proofs.StreamPieces

namespace GameQuery

/-!
# Frames in order

A server owes frames in answer to what it is sent over a stream, and delivers them in order, in
pieces, and as late as it likes (`World.AnswersInOrder`). A client that is in step has received
whole frames off this stream. The next frame it gets is then the first that is still owed, whatever
it has asked for in the meantime.
-/

namespace Rcon

theorem IsFrame.append_inj {f g s t : List UInt8} {r q : Reply} (hf : IsFrame f r)
    (hg : IsFrame g q) (h : f ++ s = g ++ t) : f = g ∧ r = q ∧ s = t := by
  obtain ⟨start, payload, rfl, hstart, hsize, hdecode⟩ := hf
  obtain ⟨start', payload', rfl, hstart', hsize', hdecode'⟩ := hg
  rw [List.append_assoc, List.append_assoc] at h
  obtain ⟨rfl, hrest⟩ := List.append_inj h (hstart.trans hstart'.symm)
  have hlength : payload.length = payload'.length := Except.ok.inj (hsize.symm.trans hsize')
  obtain ⟨rfl, rfl⟩ := List.append_inj hrest hlength
  exact ⟨rfl, Except.ok.inj (hdecode.symm.trans hdecode'), rfl⟩

theorem IsFrame.ne_nil {f : List UInt8} {r : Reply} (h : IsFrame f r) : f ≠ [] := by
  obtain ⟨start, payload, rfl, hstart, -⟩ := h
  intro hnil
  rw [(List.append_eq_nil_iff.1 hnil).1] at hstart
  cases hstart

/-- Frames at the start of some bytes are the first of the frames that the bytes are. -/
theorem AreFrames.of_append {s t : List UInt8} {rs qs : List Reply} (hs : AreFrames s rs)
    (h : AreFrames (s ++ t) qs) : ∃ left, qs = rs ++ left ∧ AreFrames t left := by
  induction hs generalizing qs with
  | nil => exact ⟨qs, rfl, h⟩
  | @cons frame bytes r rs hframe _ ih =>
    rw [List.append_assoc] at h
    generalize hall : frame ++ (bytes ++ t) = all at h
    cases h with
    | nil => exact absurd (List.append_eq_nil_iff.1 hall).1 hframe.ne_nil
    | cons hfirst hrest =>
      obtain ⟨-, rfl, rfl⟩ := hframe.append_inj hfirst hall
      obtain ⟨left, rfl, hleft⟩ := ih hrest
      exact ⟨left, rfl, hleft⟩

end Rcon

/-! ## What is asked over a stream, and what comes of it -/

namespace Event

/-- An event that neither asks for anything over a stream, nor opens or ends one. -/
def AsksNothing : Event → Prop
  | .sent .tcp _ _ | .connected .tcp _ none | .closed _ => False
  | _ => True

theorem AsksNothing.not_breaks {e : Event} (h : e.AsksNothing) : ¬ e.Breaks := by
  cases e with
  | connected transport peer failure =>
    cases transport <;> cases failure <;> simp_all [AsksNothing, Breaks]
  | _ => simp_all [AsksNothing, Breaks]

theorem IsReception.asksNothing {peer : SocketAddress} {e : Event} (h : e.IsReception peer) :
    e.AsksNothing := by
  cases e <;> simp_all [IsReception, AsksNothing]

theorem IsOn.asksNothing {peer : SocketAddress} {e : Event} (h : e.IsOn .udp peer) :
    e.AsksNothing := by
  cases e <;> simp_all [IsOn, AsksNothing]

end Event

theorem receivedBytes_of_isOn_udp {peer : SocketAddress} {new : List Event}
    (h : ∀ e ∈ new, e.IsOn .udp peer) : receivedBytes new = [] := by
  induction new with
  | nil => rfl
  | cons e new ih =>
    obtain ⟨he, hnew⟩ := List.forall_mem_cons.1 h
    cases e <;> simp_all [receivedBytes, Event.IsOn]

/-- What has happened since the stream that is open at the end of a history was opened. -/
def sinceOpened : List Event → List Event
  | [] => []
  | .connected .tcp _ none :: _ | .closed _ :: _ => []
  | e :: history => e :: sinceOpened history

/-- What comes of everything that has been sent over the stream that is open at the end of a
history, the first first. -/
def inAnswer {α : Type} (f : List Event → SocketAddress → List UInt8 → List α) :
    List Event → List α
  | [] => []
  | .connected .tcp _ none :: _ | .closed _ :: _ => []
  | .sent .tcp peer bytes :: history => inAnswer f history ++ f history peer bytes
  | _ :: history => inAnswer f history

section History

variable {α : Type} {f : List Event → SocketAddress → List UInt8 → List α} {new history : List Event}

theorem sinceOpened_cons {e : Event} (h : ¬ e.Breaks) :
    sinceOpened (e :: history) = e :: sinceOpened history := by
  cases e with
  | connected transport peer failure =>
    cases transport <;> cases failure <;> simp_all [sinceOpened, Event.Breaks]
  | closed peer => exact absurd trivial h
  | _ => rfl

theorem sinceOpened_append (h : ∀ e ∈ new, ¬ e.Breaks) :
    sinceOpened (new ++ history) = new ++ sinceOpened history := by
  induction new with
  | nil => rfl
  | cons e new ih =>
    obtain ⟨he, hnew⟩ := List.forall_mem_cons.1 h
    rw [List.cons_append, sinceOpened_cons he, ih hnew, List.cons_append]

theorem inAnswer_cons {e : Event} (h : e.AsksNothing) :
    inAnswer f (e :: history) = inAnswer f history := by
  cases e with
  | connected transport peer failure =>
    cases transport <;> cases failure <;> simp_all [inAnswer, Event.AsksNothing]
  | sent transport peer bytes => cases transport <;> simp_all [inAnswer, Event.AsksNothing]
  | closed peer => exact h.elim
  | _ => rfl

theorem inAnswer_append (h : ∀ e ∈ new, e.AsksNothing) :
    inAnswer f (new ++ history) = inAnswer f history := by
  induction new with
  | nil => rfl
  | cons e new ih =>
    obtain ⟨he, hnew⟩ := List.forall_mem_cons.1 h
    rw [List.cons_append, inAnswer_cons he, ih hnew]

end History

namespace World

/-- The bytes that arrive over a stream in answer to what is sent. -/
def deliver (world : World) (history : List Event) (peer : SocketAddress) (bytes : List UInt8) :
    List UInt8 :=
  match world.react history .tcp peer bytes with
  | .ok arrivals => Arrival.bytes arrivals
  | .error _ => []

/-- Over every stream the frames of the answers arrive in order. Some may be yet to come. -/
def AnswersInOrder (world : World)
    (answer : List Event → SocketAddress → List UInt8 → List Rcon.Reply) : Prop :=
  ∀ history, ∃ late,
    Rcon.AreFrames (inAnswer world.deliver history ++ late) (inAnswer answer history)

end World

/-! ## Nothing changes the world -/

section SameWorld

open Dialog

variable {σ τ α : Type}

def SameWorld (w v : σ × Network) : Prop := v.2.world = w.2.world

instance : Std.Refl (SameWorld (σ := σ)) := ⟨fun _ => rfl⟩

instance : Trans (SameWorld (σ := σ)) SameWorld SameWorld := ⟨fun h h' => h'.trans h⟩

theorem sameWorld_on {p : Part τ σ} {d : Dialog σ α} (hd : Moves SameWorld d) :
    Moves SameWorld (on p d) := hd.on fun _ _ _ _ _ hv => hv

theorem sameWorld_record (e : Event) : Moves SameWorld (record e : Dialog σ Unit) := fun _ => rfl

theorem sameWorld_modifyState (f : σ → σ) : Moves SameWorld (modifyState f) := fun _ => rfl

theorem sameWorld_connect (transport : Transport) (peer : SocketAddress) :
    Moves SameWorld (Socket.connect transport peer : Dialog σ Socket) := by
  refine moves_network.bind fun n => (sameWorld_record _).bind fun _ => ?_
  split
  · exact moves_throw _
  · exact moves_pure _

namespace ConsoleChannel

theorem sameWorld_close : Moves SameWorld close := by
  refine moves_state.bind fun c => ?_
  split
  · exact (sameWorld_record _).bind fun _ => sameWorld_modifyState _
  · exact moves_pure _

theorem sameWorld_send (r : Rcon.Request) : Moves SameWorld (send r) := by
  refine (moves_ofCodec _).bind fun filled => Moves.bind ?_ fun _ => ?_
  · refine moves_state.bind fun c => ?_
    split
    · exact moves_pure _
    · exact (sameWorld_connect _ _).bind fun s => sameWorld_modifyState _
  · refine (sameWorld_on ?_).onError fun _ => sameWorld_close
    exact fun w => (Socket.later_send filled.bytes w).imp fun _ _ hv => hv.world

theorem sameWorld_read (wait count : Nat) : Moves SameWorld (Socket.read wait count) := by
  refine Moves.bind (fun w => (Socket.later_peek wait w).imp fun _ _ hv => hv.world) fun head => ?_
  cases head with
  | none => exact moves_pure _
  | some piece =>
    refine Moves.bind ?_ fun bytes => moves_pure _
    rintro ⟨⟨transport, peer, queue⟩, n⟩
    match queue with
    | .data bytes :: rest => exact rfl
    | [] | .silence :: _ | .delay _ :: _ | .failure _ :: _ | .closed :: _ => exact rfl

theorem sameWorld_reply (timeout : Option Nat) : Moves SameWorld (reply timeout) :=
  moves_reply sameWorld_read sameWorld_on sameWorld_close timeout

end ConsoleChannel

/-- Nothing changes the world, and what holds before holds afterwards. -/
def Keeps (C : σ × Network → Prop) (w v : σ × Network) : Prop := SameWorld w v ∧ (C w → C v)

variable {C : σ × Network → Prop}

instance : Std.Refl (Keeps C) := ⟨fun _ => ⟨rfl, id⟩⟩

instance : Trans (Keeps C) (Keeps C) (Keeps C) where
  trans h h' := ⟨h'.1.trans h.1, fun hC => h'.2 (h.2 hC)⟩

theorem keeps_of_ends {d : Dialog σ α} (hd : Moves SameWorld d)
    (h : ∀ w, C w → Ends d w fun _ v => C v) : Moves (Keeps C) d := by
  intro w
  by_cases hC : C w
  · exact ((hd w).and (h w hC)).imp fun _ _ hv => ⟨hv.1, fun _ => hv.2⟩
  · exact (hd w).imp fun _ _ hv => ⟨hv, fun hC' => absurd hC' hC⟩

end SameWorld

namespace ConsoleChannel

open Dialog

/-- The stream is open, some frames have been received over it and nothing else, and whatever else
has arrived is in its queue. -/
def InStep (w : ConsoleChannel × Network) (taken : List Rcon.Reply) : Prop :=
  ∃ s, w.1.stream = some s ∧ s.transport = .tcp ∧ s.peer = w.1.peer ∧
    receivedBytes (sinceOpened w.2.history) ++ Arrival.bytes s.queue =
      inAnswer w.2.world.deliver w.2.history ∧
    Rcon.AreFrames (receivedBytes (sinceOpened w.2.history)) taken

variable {w v : ConsoleChannel × Network} {taken : List Rcon.Reply} {new : List Event}

theorem InStep.isOpen (h : InStep w taken) : w.1.IsOpen := by
  obtain ⟨s, hs, htcp, hpeer, -⟩ := h
  exact ⟨s, hs, htcp, hpeer⟩

/-- The frames that a server owes are those that have been received and some others. -/
theorem InStep.owed (h : InStep w taken)
    {answer : List Event → SocketAddress → List UInt8 → List Rcon.Reply}
    (hserver : w.2.world.AnswersInOrder answer) :
    ∃ left, inAnswer answer w.2.history = taken ++ left := by
  obtain ⟨s, -, -, -, hqueue, htaken⟩ := h
  obtain ⟨late, hframes⟩ := hserver w.2.history
  rw [← hqueue, List.append_assoc] at hframes
  obtain ⟨left, hleft, -⟩ := htaken.of_append hframes
  exact ⟨left, hleft⟩

/-- What asks for nothing over the stream and receives nothing from it leaves it in step. -/
theorem InStep.later {c : ConsoleChannel} {n m : Network} (h : InStep (c, n) taken)
    (hworld : m.world = n.world) (hhistory : m.history = new ++ n.history)
    (hnew : ∀ e ∈ new, e.AsksNothing) (hnone : receivedBytes new = []) : InStep (c, m) taken := by
  obtain ⟨s, hs, htcp, hpeer, hqueue, htaken⟩ := h
  have hsince : receivedBytes (sinceOpened m.history) = receivedBytes (sinceOpened n.history) := by
    rw [hhistory, sinceOpened_append fun e he => (hnew e he).not_breaks, receivedBytes_append, hnone,
      List.append_nil]
  refine ⟨s, hs, htcp, hpeer, ?_, ?_⟩
  · rw [hsince, hworld, hhistory, inAnswer_append hnew]
    exact hqueue
  · rw [hsince]
    exact htaken

theorem InStep.receives {replies : List Rcon.Reply} (h : InStep w taken) (hstays : Stays w v new)
    (hdrains : Drains w v) (hnew : ∀ e ∈ new, e.IsReception w.1.peer)
    (hreplies : Rcon.AreFrames (receivedBytes new) replies) : InStep v (taken ++ replies) := by
  obtain ⟨s, hs, htcp, hpeer, hqueue, htaken⟩ := h
  obtain ⟨t, ht, htcp', hpeer'⟩ := hstays.isOpen
  obtain ⟨hworld, hbytes⟩ := hdrains.receives hstays hs htcp ht
  have hsince : receivedBytes (sinceOpened v.2.history) =
      receivedBytes (sinceOpened w.2.history) ++ receivedBytes new := by
    rw [hstays.history, sinceOpened_append fun e he => (hnew e he).not_breaks, receivedBytes_append]
  refine ⟨t, ht, htcp', hpeer', ?_, ?_⟩
  · rw [hsince, hworld, hstays.history, inAnswer_append fun e he => (hnew e he).asksNothing, ← hqueue,
      hbytes, List.append_assoc]
  · rw [hsince]
    exact htaken.append hreplies

/-- Receiving gives a whole frame and stays in step, unless the stream is shut down. -/
theorem reply_inStep (timeout : Option Nat) (h : InStep w taken) :
    Ends (reply timeout) w fun r v => ∃ new, (∀ e ∈ new, e.IsReception w.1.peer) ∧
      match r with
      | .ok (some reply) => InStep v (taken ++ [reply]) ∧ Stays w v new
      | .ok none => Closes w v new
      | .error _ => InStep v taken ∧ Stays w v new ∨ Closes w v new := by
  refine ((reply_ends timeout h.isOpen).and (drains_reply timeout w)).imp ?_
  rintro r v ⟨⟨new, hon, hr⟩, hdrains⟩
  refine ⟨new, hon, ?_⟩
  cases r with
  | ok reply =>
    cases reply with
    | none => exact hr
    | some reply => exact ⟨h.receives hr.1 hdrains hon hr.2.areFrames, hr.1⟩
  | error e =>
    rcases hr.2 with ⟨hstays, hnone⟩ | hcloses
    · left
      refine ⟨?_, hstays⟩
      have hframes : Rcon.AreFrames (receivedBytes new) [] := hnone ▸ .nil
      simpa only [List.append_nil] using h.receives hstays hdrains hon hframes
    · exact .inr hcloses

theorem transmit_inStep (bytes : List UInt8) (h : InStep w taken) :
    Ends (onError (.on streamPart (Socket.send bytes)) fun _ => close) w fun r v =>
      match r with
      | .ok _ => InStep v taken ∧ Stays w v [.sent .tcp w.1.peer bytes]
      | .error _ => Closes w v [.sent .tcp w.1.peer bytes] := by
  have hopen := h.isOpen
  obtain ⟨s, hs, htcp, hpeer, hqueue, htaken⟩ := h
  have hsend : Ends (Socket.send bytes) (s, w.2) fun r v => r = .ok () →
      v.2.world = w.2.world ∧ Arrival.bytes v.1.queue =
        Arrival.bytes s.queue ++ w.2.world.deliver w.2.history s.peer bytes := by
    refine ends_state_bind (ends_network_bind (ends_bind_of_ok rfl ?_))
    rw [htcp]
    cases hreact : w.2.world.react w.2.history .tcp s.peer bytes with
    | error f => exact fun hok => nomatch hok
    | ok arrivals =>
      intro _
      simp only [World.deliver, hreact]
      exact ⟨rfl, Arrival.bytes_append s.queue arrivals⟩
  have hon : Ends (.on streamPart (Socket.send bytes)) w fun r v => r = .ok () →
      v.2.world = w.2.world ∧ ∃ t, v.1.stream = some t ∧ Arrival.bytes t.queue =
        Arrival.bytes s.queue ++ w.2.world.deliver w.2.history w.1.peer bytes := by
    refine Ends.on hs (hsend.imp fun r v hv hok => ?_)
    obtain ⟨hworld, hbytes⟩ := hv hok
    exact ⟨hworld, v.1, rfl, hpeer ▸ hbytes⟩
  have hfilled : Ends (onError (.on streamPart (Socket.send bytes)) fun _ => close) w fun r v =>
      r = .ok () → v.2.world = w.2.world ∧ ∃ t, v.1.stream = some t ∧ Arrival.bytes t.queue =
        Arrival.bytes s.queue ++ w.2.world.deliver w.2.history w.1.peer bytes := by
    refine hon.onError (fun _ v hv => hv) fun e v _ => ends_of_forall fun r u => ?_
    cases r <;> exact fun hok => nomatch hok
  refine ((transmit_ends bytes hopen).and hfilled).imp ?_
  rintro (e | _) v ⟨hv, hok⟩
  · exact hv.2
  · obtain ⟨hworld, t, ht, hbytes⟩ := hok rfl
    refine ⟨?_, hv⟩
    obtain ⟨t', ht', htcp', hpeer'⟩ := hv.isOpen
    cases ht.symm.trans ht'
    have hhistory : v.2.history = .sent .tcp w.1.peer bytes :: w.2.history := hv.history
    refine ⟨t, ht, htcp', hpeer', ?_, ?_⟩
    · rw [hhistory, hworld, hbytes, ← List.append_assoc]
      exact congrArg (· ++ _) hqueue
    · rw [hhistory]
      exact htaken

theorem connect_inStep (h : w.1.stream = none) :
    Ends connect w fun o v => v.1.peer = w.1.peer ∧
      match o with
      | .ok _ => InStep v [] ∧ v.2.history = .connected .tcp w.1.peer none :: w.2.history
      | .error _ => v.1.stream = none := by
  obtain ⟨⟨peer, stream, timeout⟩, n⟩ := w
  cases h
  refine ends_state_bind ((Socket.connect_ends .tcp peer _).bind ?_ ?_)
  · rintro s ⟨c, m⟩ ⟨rfl, rfl, hm⟩
    have hm : m.history = .connected .tcp peer none :: n.history := hm
    refine ⟨rfl, ⟨_, rfl, rfl, rfl, ?_, ?_⟩, hm⟩
    · simp only [hm]
      rfl
    · simp only [hm]
      exact .nil
  · rintro e ⟨c, m⟩ ⟨rfl, -⟩
    exact ⟨rfl, rfl⟩

/-- The history in front of a frame that is sent: a stream is opened for it if there is none. -/
def beforeSend (w : ConsoleChannel × Network) : List Event :=
  if w.1.isConnected then w.2.history else .connected .tcp w.1.peer none :: w.2.history

/-- Sending a frame stays in step, or the stream is shut down, or nothing has been sent. -/
theorem send_inStep (r : Rcon.Request) (h : w.1.stream = none ∧ taken = [] ∨ InStep w taken) :
    Ends (send r) w fun o v =>
      match o with
      | .ok _ => InStep v taken ∧ v.1.peer = w.1.peer ∧
          v.2.history = .sent .tcp w.1.peer r.bytes :: beforeSend w
      | .error _ => v.1.stream = none ∨ v = w := by
  refine ends_ofCodec_bind (fun filled hfilled => ?_) fun e _ => .inr rfl
  rw [← encode_request r hfilled]
  have htransmit : ∀ u, InStep u taken → u.1.peer = w.1.peer → u.2.history = beforeSend w →
      Ends (onError (.on streamPart (Socket.send filled.bytes)) fun _ => close) u fun o v =>
        match o with
        | .ok _ => InStep v taken ∧ v.1.peer = w.1.peer ∧
            v.2.history = .sent .tcp w.1.peer filled.bytes :: beforeSend w
        | .error _ => v.1.stream = none ∨ v = w := by
    intro u hu hpeer hhistory
    refine (transmit_inStep filled.bytes hu).imp ?_
    rintro (e | _) v hv
    · exact .inl hv.stream
    · refine ⟨hv.1, hv.2.peer.trans hpeer, ?_⟩
      rw [hv.2.history, hhistory, hpeer]
      rfl
  rcases h with ⟨hnone, rfl⟩ | hstep
  · have hbefore : beforeSend w = .connected .tcp w.1.peer none :: w.2.history := by
      rw [beforeSend, isConnected, hnone]
      rfl
    refine (connect_inStep hnone).bind ?_ fun e u hu => .inl hu.2
    rintro _ u ⟨hpeer, hstep, hhistory⟩
    exact htransmit u hstep hpeer (hhistory.trans hbefore.symm)
  · have hbefore : beforeSend w = w.2.history := by
      obtain ⟨s, hs, -⟩ := hstep
      rw [beforeSend, isConnected, hs]
      rfl
    refine (connect_ends_of_open hstep.isOpen).bind ?_ ?_
    · rintro _ u ⟨-, rfl⟩
      exact htransmit u hstep rfl hbefore.symm
    · rintro e u ⟨he, -⟩
      cases he

/-- If there is a stream, it is in step. -/
def IsClean (w : ConsoleChannel × Network) : Prop := w.1.stream = none ∨ ∃ taken, InStep w taken

theorem keeps_close : Moves (Keeps IsClean) close := by
  refine keeps_of_ends sameWorld_close fun w _ => ?_
  obtain ⟨⟨peer, stream, timeout⟩, n⟩ := w
  cases stream <;> exact .inl rfl

theorem keeps_send (r : Rcon.Request) : Moves (Keeps IsClean) (send r) := by
  refine keeps_of_ends (sameWorld_send r) fun w hw => ?_
  obtain ⟨taken, h⟩ : ∃ taken, w.1.stream = none ∧ taken = [] ∨ InStep w taken := by
    rcases hw with hnone | ⟨taken, hstep⟩
    · exact ⟨[], .inl ⟨hnone, rfl⟩⟩
    · exact ⟨taken, .inr hstep⟩
  refine (send_inStep r h).imp ?_
  rintro (e | _) v hv
  · rcases hv with hnone | rfl
    · exact .inl hnone
    · exact hw
  · exact .inr ⟨taken, hv.1⟩

theorem keeps_reply (timeout : Option Nat) : Moves (Keeps IsClean) (reply timeout) := by
  refine keeps_of_ends (sameWorld_reply timeout) fun w hw => ?_
  rcases hw with hnone | ⟨taken, hstep⟩
  · have hclosed : w.1.isConnected = false := by rw [isConnected, hnone]; rfl
    refine ends_state_bind (ends_network_bind ?_)
    rw [hclosed]
    exact .inl hnone
  · refine (reply_inStep timeout hstep).imp ?_
    rintro r v ⟨new, -, hv⟩
    cases r with
    | ok reply =>
      cases reply with
      | none => exact .inl hv.stream
      | some reply => exact .inr ⟨_, hv.1⟩
    | error e =>
      rcases hv with ⟨hstep, -⟩ | hcloses
      · exact .inr ⟨_, hstep⟩
      · exact .inl hcloses.stream

end ConsoleChannel

end GameQuery
