import GameQuery.Proofs.ConsoleStream

namespace GameQuery

/-!
# Pieces of a stream

The bytes of a stream wait in pieces. Whatever is received over a stream comes off the front of
these bytes (`Drains`), and a frame that has arrived as a whole is received, however it is cut
(`reply_of_brings`).
-/

namespace Arrival

/-- The bytes in the pieces of a queue. -/
def bytes : List Arrival → List UInt8
  | [] => []
  | .data piece :: queue => piece ++ bytes queue
  | _ :: queue => bytes queue

theorem bytes_append (queue arrivals : List Arrival) :
    bytes (queue ++ arrivals) = bytes queue ++ bytes arrivals := by
  fun_induction bytes queue with
  | case1 => rfl
  | case2 piece queue ih => rw [List.cons_append, bytes, ih, List.append_assoc]
  | case3 a queue hne ih =>
    rw [List.cons_append, bytes, ih]
    exact hne

theorem bytes_passDelays (queue : List Arrival) : bytes (passDelays queue).2 = bytes queue := by
  fun_induction passDelays queue with
  | case1 micros queue elapsed rest h ih =>
    rw [h] at ih
    exact ih
  | case2 => rfl

/-- A queue brings some bytes, in pieces that are not empty and with delays between them, and then
goes on with `rest`. -/
inductive Brings : List Arrival → List UInt8 → List Arrival → Prop
  | nil (rest : List Arrival) : Brings rest [] rest
  | data {piece bytes : List UInt8} {queue rest : List Arrival} :
    piece ≠ [] → Brings queue bytes rest → Brings (.data piece :: queue) (piece ++ bytes) rest
  | delay (micros : Nat) {bytes : List UInt8} {queue rest : List Arrival} :
    Brings queue bytes rest → Brings (.delay micros :: queue) bytes rest

namespace Brings

variable {queue arrivals rest : List Arrival} {s t : List UInt8}

theorem append (h : Brings queue s []) (h' : Brings arrivals t rest) :
    Brings (queue ++ arrivals) (s ++ t) rest := by
  generalize hend : ([] : List Arrival) = last at h
  induction h with
  | nil =>
    subst hend
    exact h'
  | data hpiece _ ih =>
    rw [List.cons_append, List.append_assoc]
    exact .data hpiece (ih hend)
  | delay micros _ ih => exact .delay micros (ih hend)

theorem bytes_eq (h : Brings queue s rest) : bytes queue = s ++ bytes rest := by
  induction h with
  | nil => rfl
  | data _ _ ih => rw [bytes, ih, List.append_assoc]
  | delay micros _ ih => exact ih

/-- The first bytes are at the head of the queue, behind some delays. -/
theorem passDelays_eq (h : Brings queue s rest) (hs : s ≠ []) :
    ∃ piece left queue', (passDelays queue).2 = .data piece :: queue' ∧ piece ≠ [] ∧
      s = piece ++ left ∧ Brings queue' left rest := by
  induction h with
  | nil => exact absurd rfl hs
  | data hpiece hrest _ => exact ⟨_, _, _, rfl, hpiece, rfl, hrest⟩
  | delay micros _ ih => exact ih hs

theorem passDelays_of_nil (h : Brings queue [] rest)
    (hrest : rest = [] ∨ ∃ later, rest = .silence :: later) : (passDelays queue).2 = rest := by
  generalize hnil : ([] : List UInt8) = bytes at h
  induction h with
  | nil => rcases hrest with rfl | ⟨later, rfl⟩ <;> rfl
  | data hpiece => simp [hpiece] at hnil
  | delay micros _ ih => exact ih hrest hnil

end Brings

end Arrival

open Dialog

namespace Socket

/-- What has been taken off a stream is what the history says was received. -/
def Drains (w v : Socket × Network) : Prop :=
  w.1.transport = .tcp → ∃ bytes, Reception w v bytes ∧
    Arrival.bytes w.1.queue = bytes ++ Arrival.bytes v.1.queue

theorem drains_of_reception {w v : Socket × Network} {bytes : List UInt8}
    (h : Reception w v bytes) (hqueue : Arrival.bytes w.1.queue = bytes ++ Arrival.bytes v.1.queue) :
    Drains w v := fun _ => ⟨bytes, h, hqueue⟩

theorem Drains.refl (w : Socket × Network) : Drains w w := drains_of_reception (.refl w) rfl

theorem Drains.trans {u v w : Socket × Network} (h : Drains u v) (h' : Drains v w) :
    Drains u w := by
  intro htcp
  obtain ⟨s, hs, hqueue⟩ := h htcp
  obtain ⟨t, ht, hqueue'⟩ := h' (hs.transport.trans htcp)
  refine ⟨s ++ t, hs.trans ht, ?_⟩
  rw [hqueue, hqueue', List.append_assoc]

instance : Std.Refl Drains := ⟨Drains.refl⟩

instance : Trans Drains Drains Drains := ⟨Drains.trans⟩

theorem queue_of_peek (wait : Nat) (w : Socket × Network) :
    Ends (peek wait) w fun _ v => Arrival.bytes v.1.queue = Arrival.bytes w.1.queue := by
  obtain ⟨s, n⟩ := w
  have hbytes := Arrival.bytes_passDelays s.queue
  simp only [Ends, peek]
  cases hqueue : (Arrival.passDelays s.queue).2 with
  | nil => rwa [hqueue] at hbytes
  | cons a rest =>
    rw [hqueue] at hbytes
    cases a <;> exact hbytes

theorem drains_peek (wait : Nat) : Moves Drains (peek wait) := by
  intro w
  by_cases htcp : w.1.transport = .tcp
  · refine ((peek_reception wait htcp).and (queue_of_peek wait w)).imp fun r v hv => ?_
    exact drains_of_reception hv.1.1 hv.2.symm
  · exact ends_of_forall fun r v h => absurd h htcp

theorem drains_takeBytes (count : Nat) : Moves Drains (takeBytes count) := by
  rintro ⟨⟨transport, peer, queue⟩, n⟩
  match queue with
  | .data piece :: rest =>
    intro (htcp : transport = .tcp)
    subst htcp
    refine ⟨piece.take count, ⟨rfl, rfl, rfl, [.received .tcp peer (piece.take count)], rfl, ?_,
      rfl⟩, ?_⟩
    · simp [Event.IsReception]
    · change piece ++ Arrival.bytes rest = _
      split
      · rw [Arrival.bytes, ← List.append_assoc, List.take_append_drop]
      · rw [List.take_of_length_le (by omega)]
  | [] | .silence :: _ | .delay _ :: _ | .failure _ :: _ | .closed :: _ => exact Drains.refl _

theorem drains_read (wait count : Nat) : Moves Drains (read wait count) := by
  refine (drains_peek wait).bind fun head => ?_
  cases head with
  | none => exact moves_pure _
  | some piece => exact (drains_takeBytes count).bind fun bytes => moves_pure _

/-- What has arrived can be read, though perhaps not all at once. -/
theorem read_of_brings (wait : Nat) {count : Nat} {s : Socket} {n : Network} {bytes : List UInt8}
    {rest : List Arrival} (hbytes : bytes ≠ []) (hcount : 0 < count)
    (h : Arrival.Brings s.queue bytes rest) :
    ∃ taken left v, read wait count (s, n) = .ok (some taken) v ∧ taken.length ≤ count ∧
      bytes = taken ++ left ∧ Arrival.Brings v.1.queue left rest := by
  obtain ⟨piece, left, queue, hqueue, hpiece, rfl, hleft⟩ := h.passDelays_eq hbytes
  have hpeek : peek wait (s, n) = .ok (some piece) ({ s with queue := .data piece :: queue },
      n.pass (Arrival.passDelays s.queue).1) := by
    simp only [peek]
    rw [hqueue]
  have hne : piece.take count ≠ [] := by
    rw [Ne, List.take_eq_nil_iff]
    rintro (hzero | hnil)
    · omega
    · exact hpiece hnil
  have hsome : (if (piece.take count).isEmpty then none else some (piece.take count)) =
      some (piece.take count) := by
    rw [if_neg]
    simpa using hne
  refine ⟨piece.take count, piece.drop count ++ left,
    ({ s with queue := if count < piece.length then .data (piece.drop count) :: queue else queue },
      (n.pass (Arrival.passDelays s.queue).1).record
        (.received s.transport s.peer (piece.take count))), ?_, List.length_take_le .., ?_, ?_⟩
  · rw [read, bind_of_ok hpeek, ← hsome]
    rfl
  · rw [← List.append_assoc, List.take_append_drop]
  · change Arrival.Brings (if count < piece.length then _ else _) _ rest
    split
    · next hlt =>
      refine .data ?_ hleft
      simpa using hlt
    · rw [List.drop_of_length_le (by omega)]
      exact hleft

/-- A read finds nothing when the queue is empty or falls silent. -/
theorem read_of_silence (wait count : Nat) {s : Socket} {n : Network} {rest : List Arrival}
    (h : Arrival.Brings s.queue [] rest) (hrest : rest = [] ∨ ∃ queue, rest = .silence :: queue) :
    ∃ v, read wait count (s, n) = .error .timeout v ∧ v.1.queue = rest.tail := by
  have hqueue := h.passDelays_of_nil hrest
  have hpeek : ∃ v, peek wait (s, n) = .error .timeout v ∧ v.1.queue = rest.tail := by
    simp only [peek]
    rw [hqueue]
    rcases hrest with rfl | ⟨queue, rfl⟩ <;> exact ⟨_, rfl, rfl⟩
  obtain ⟨v, hv, hend⟩ := hpeek
  exact ⟨v, by simp only [read, Bind.bind, EStateM.bind, hv], hend⟩

end Socket

namespace ConsoleChannel

open Socket

section Moves

variable {S : Socket × Network → Socket × Network → Prop} [Std.Refl S] [Trans S S S]
  (hread : ∀ wait count, Moves S (Socket.read wait count))
include hread

theorem moves_fill (wait count : Nat) (head : List UInt8) : Moves S (fill wait count head) := by
  refine Moves.iterate (fun h => (fillPass_again h).1) head fun head => ?_
  unfold fillPass
  split
  · exact moves_pure _
  · refine (hread wait _).bind fun bytes => ?_
    cases bytes <;> exact moves_pure _

theorem moves_readFrame (wait : Nat) (head : List UInt8) : Moves S (readFrame wait head) := by
  refine (moves_fill hread wait 4 head).bind fun start => ?_
  cases start with
  | none => exact moves_pure _
  | some start =>
    refine (moves_ofCodec _).bind fun size => (moves_fill hread wait size []).bind fun frame => ?_
    cases frame with
    | none => exact moves_pure _
    | some frame => exact (moves_ofCodec _).map some

/-- Receiving goes along a relation if reading and shutting the stream down do. -/
theorem moves_reply {R : ConsoleChannel × Network → ConsoleChannel × Network → Prop} [Std.Refl R]
    [Trans R R R] (hon : ∀ {α : Type} {d : Dialog Socket α}, Moves S d → Moves R (.on streamPart d))
    (hclose : Moves R close) (timeout : Option Nat) : Moves R (reply timeout) := by
  refine moves_state.bind fun c => moves_network.bind fun n => ?_
  split
  · exact moves_pure none
  · refine Moves.bind ((hon (hread _ 4)).onError ?_) ?_
    · intro e
      unfold closeUnlessTimeout
      split
      · exact moves_pure ()
      · exact hclose
    · rintro (_ | head)
      · exact hclose.bind fun _ => moves_pure none
      · refine Moves.bind ((hon (moves_readFrame hread _ head)).onError fun _ => hclose) ?_
        rintro (_ | reply)
        · exact hclose.bind fun _ => moves_pure none
        · exact moves_pure _

end Moves

/-- What has been taken off the stream of a channel is what the history says was received, unless
the stream has been shut down. -/
def Drains (w v : ConsoleChannel × Network) : Prop :=
  match w.1.stream with
  | none => v.1.stream = none
  | some s => v.1.stream = none ∨ ∃ t, v.1.stream = some t ∧ Socket.Drains (s, w.2) (t, v.2)

theorem Drains.refl (w : ConsoleChannel × Network) : Drains w w := by
  unfold Drains
  split
  · next h => exact h
  · next s h => exact .inr ⟨s, h, .refl _⟩

theorem Drains.trans {u v w : ConsoleChannel × Network} (h : Drains u v) (h' : Drains v w) :
    Drains u w := by
  unfold Drains at h ⊢
  split at h
  · simpa only [Drains, h] using h'
  · rcases h with hv | ⟨t, hv, hdrains⟩
    · left
      simpa only [Drains, hv] using h'
    · have hlast : w.1.stream = none ∨
          ∃ t', w.1.stream = some t' ∧ Socket.Drains (t, v.2) (t', w.2) := by
        simpa only [Drains, hv] using h'
      exact hlast.imp_right fun ⟨t', ht', hdrains'⟩ => ⟨t', ht', hdrains.trans hdrains'⟩

instance : Std.Refl Drains := ⟨Drains.refl⟩

instance : Trans Drains Drains Drains := ⟨Drains.trans⟩

theorem drains_on {α : Type} {d : Dialog Socket α} (hd : Moves Socket.Drains d) :
    Moves Drains (.on streamPart d) := by
  refine hd.on fun c n s v hs hv => ?_
  have hstream : c.stream = some s := hs
  simp only [Drains, hstream]
  exact .inr ⟨v.1, rfl, hv⟩

theorem drains_close : Moves Drains close := by
  intro w
  cases hs : w.1.stream with
  | none =>
    refine (close_ends_of_closed hs).imp ?_
    rintro r v ⟨-, rfl⟩
    exact .refl v
  | some s =>
    obtain ⟨⟨peer, stream, timeout⟩, n⟩ := w
    cases hs
    exact .inl rfl

theorem drains_reply (timeout : Option Nat) : Moves Drains (reply timeout) :=
  moves_reply drains_read drains_on drains_close timeout

/-- Bytes that have arrived fill what is left of a frame. -/
theorem fill_of_brings (wait : Nat) {count : Nat} {head more left : List UInt8} {rest : List Arrival}
    {w : Socket × Network} (hcount : head.length + more.length = count)
    (h : Arrival.Brings w.1.queue (more ++ left) rest) :
    ∃ v, fill wait count head w = .ok (some (head ++ more)) v ∧
      Arrival.Brings v.1.queue left rest := by
  induction hlen : more.length using Nat.strongRecOn generalizing head more w with
  | _ len ih =>
    cases more with
    | nil =>
      have hpass : fillPass wait count head w = .ok (.done (some head)) w := by
        rw [fillPass, if_pos (by simp at hcount; omega)]
        rfl
      refine ⟨w, ?_, h⟩
      rw [List.append_nil]
      exact iterate_of_done (fun h => (fillPass_again h).1) hpass
    | cons b more =>
      have hroom : head.length < count := by
        simp only [List.length_cons] at hcount
        omega
      have hready : b :: more ++ left ≠ [] := by simp
      obtain ⟨taken, left', u, hread, hle, hsplit, hleft⟩ :=
        read_of_brings wait (n := w.2) hready (Nat.sub_pos_of_lt hroom) h
      have hpos := (read_eq_ok hread).1
      have hpass : fillPass wait count head w = .ok (.again (head ++ taken)) u := by
        rw [fillPass, if_neg (by omega), bind_of_ok hread]
        rfl
      -- No more is taken than the frame still needs.
      obtain ⟨more', hmore, rfl⟩ : ∃ more', b :: more = taken ++ more' ∧ left' = more' ++ left := by
        rcases List.append_eq_append_iff.1 hsplit with ⟨a, ha, hl⟩ | ⟨a, ha, hl⟩
        · have : a = [] := by
            have hlength := congrArg List.length ha
            simp only [List.length_append, List.length_cons] at hlength hcount
            rw [← List.length_eq_zero_iff]
            omega
          subst this
          exact ⟨[], by simpa using ha.symm, by simpa using hl.symm⟩
        · exact ⟨a, ha, hl⟩
      have hlength := congrArg List.length hmore
      simp only [List.length_append] at hlength
      have hcount' : (head ++ taken).length + more'.length = count := by
        rw [List.length_append]
        omega
      obtain ⟨v, hfill, hv⟩ := ih more'.length (by omega) hcount' hleft rfl
      refine ⟨v, ?_, hv⟩
      rw [hmore, ← List.append_assoc, ← hfill]
      exact iterate_of_again (fun h => (fillPass_again h).1) hpass

theorem readFrame_of_brings (wait : Nat) {head more left : List UInt8} {rest : List Arrival}
    {r : Rcon.Reply} {w : Socket × Network} (hhead : head.length ≤ 4)
    (hframe : Rcon.IsFrame (head ++ more) r) (h : Arrival.Brings w.1.queue (more ++ left) rest) :
    ∃ v, readFrame wait head w = .ok (some r) v ∧ Arrival.Brings v.1.queue left rest := by
  obtain ⟨start, payload, hsplit, hstart, hsize, hdecode⟩ := hframe
  obtain ⟨tail, rfl, rfl⟩ : ∃ tail, start = head ++ tail ∧ more = tail ++ payload := by
    rcases List.append_eq_append_iff.1 hsplit with ⟨a, ha, hp⟩ | ⟨a, ha, hp⟩
    · exact ⟨a, ha, hp⟩
    · have : a = [] := by
        have hlength := congrArg List.length ha
        rw [List.length_append] at hlength
        rw [← List.length_eq_zero_iff]
        omega
      subst this
      exact ⟨[], by simpa using ha.symm, by simpa using hp.symm⟩
  rw [List.append_assoc] at h
  rw [List.length_append] at hstart
  obtain ⟨u, hfill, hu⟩ := fill_of_brings wait hstart h
  have hnone : ([] : List UInt8).length + payload.length = payload.length := Nat.zero_add _
  obtain ⟨v, hpayload, hv⟩ := fill_of_brings wait hnone hu
  refine ⟨v, ?_, hv⟩
  rw [readFrame, bind_of_ok hfill]
  simp only [hsize]
  change (fill wait payload.length [] >>= _) u = _
  rw [bind_of_ok hpayload]
  simp only [List.nil_append, hdecode]
  rfl

/-- The stream of a channel is open to its peer, and brings some bytes before anything else. -/
def Offers (c : ConsoleChannel) (bytes : List UInt8) (rest : List Arrival) : Prop :=
  ∃ s, c.stream = some s ∧ s.transport = .tcp ∧ s.peer = c.peer ∧
    Arrival.Brings s.queue bytes rest

variable {w v : ConsoleChannel × Network} {bytes : List UInt8} {rest : List Arrival}

/-- Events of a client that has received some bytes over a stream, and nothing else. -/
def Receives (peer : SocketAddress) (bytes : List UInt8) (new : List Event) : Prop :=
  (∀ e ∈ new, e.IsReception peer) ∧ receivedBytes new = bytes

theorem Receives.append {peer : SocketAddress} {s t : List UInt8} {new more : List Event}
    (h : Receives peer s new) (h' : Receives peer t more) : Receives peer (s ++ t) (more ++ new) := by
  constructor
  · intro e he
    rcases List.mem_append.1 he with he | he
    · exact h'.1 e he
    · exact h.1 e he
  · rw [receivedBytes_append, h.2, h'.2]

theorem Drains.receives {new : List Event} {s t : Socket} (h : Drains w v) (hstays : Stays w v new)
    (hs : w.1.stream = some s) (htcp : s.transport = .tcp) (ht : v.1.stream = some t) :
    v.2.world = w.2.world ∧ Arrival.bytes s.queue = receivedBytes new ++ Arrival.bytes t.queue := by
  simp only [Drains, hs, ht] at h
  rcases h with h | ⟨t', ⟨⟩, hdrains⟩
  · cases h
  · obtain ⟨bytes, hreception, hqueue⟩ := hdrains htcp
    obtain ⟨new', hnew', -, rfl⟩ := hreception.history
    have heq : new' ++ w.2.history = new ++ w.2.history := hnew'.symm.trans hstays.history
    rw [← List.append_cancel_right heq]
    exact ⟨hreception.world, hqueue⟩

/-- A frame that has arrived is received, in whatever pieces. -/
theorem reply_of_offers {frame : List UInt8} {r : Rcon.Reply} (timeout : Option Nat)
    (hframe : Rcon.IsFrame frame r) (h : w.1.Offers (frame ++ bytes) rest) :
    ∃ v new, reply timeout w = .ok (some r) v ∧ v.1.Offers bytes rest ∧ Stays w v new ∧
      v.2.world = w.2.world ∧ Receives w.1.peer frame new := by
  obtain ⟨⟨peer, stream, own⟩, n⟩ := w
  obtain ⟨s, rfl, htcp, hpeer, hbrings⟩ := h
  have hopen : (ConsoleChannel.mk peer (some s) own).IsOpen := ⟨s, rfl, htcp, hpeer⟩
  have hne : frame ++ bytes ≠ [] := by
    obtain ⟨start, payload, rfl, hstart, -⟩ := hframe
    intro hnil
    simp only [List.append_eq_nil_iff] at hnil
    simp [hnil.1.1] at hstart
  obtain ⟨taken, left, u, hread, hle, hsplit, hleft⟩ :=
    read_of_brings (n.settings.wait timeout own) (n := n) hne (Nat.succ_pos 3) hbrings
  obtain ⟨more, rfl, rfl⟩ : ∃ more, frame = taken ++ more ∧ left = more ++ bytes := by
    rcases List.append_eq_append_iff.1 hsplit with ⟨a, ha, hl⟩ | ⟨a, ha, hl⟩
    · have hlength := congrArg List.length ha
      have hfour : 4 ≤ frame.length := by
        obtain ⟨start, payload, rfl, hstart, -⟩ := hframe
        rw [List.length_append]
        omega
      have : a = [] := by
        rw [List.length_append] at hlength
        rw [← List.length_eq_zero_iff]
        omega
      subst this
      exact ⟨[], by simpa using ha.symm, by simpa using hl.symm⟩
    · exact ⟨a, ha, hl⟩
  obtain ⟨v, hrest, hv⟩ := readFrame_of_brings (n.settings.wait timeout own) hle hframe hleft
  let c : ConsoleChannel := ⟨peer, some v.1, own⟩
  have hstart : Dialog.on streamPart (Socket.read (n.settings.wait timeout own) 4)
      (ConsoleChannel.mk peer (some s) own, n) = .ok (some taken) (⟨peer, some u.1, own⟩, u.2) :=
    on_of_ok rfl hread
  have hfinish : Dialog.on streamPart (readFrame (n.settings.wait timeout own) taken)
      (ConsoleChannel.mk peer (some u.1) own, u.2) = .ok (some r) (c, v.2) :=
    on_of_ok rfl hrest
  have hreply : reply timeout (ConsoleChannel.mk peer (some s) own, n) = .ok (some r) (c, v.2) := by
    rw [reply, state_bind, network_bind]
    simp only [isConnected, Option.isSome_some, Bool.not_true, Bool.false_eq_true, if_false]
    rw [bind_of_ok (onError_of_ok hstart)]
    simp only
    rw [bind_of_ok (onError_of_ok hfinish)]
    rfl
  obtain ⟨new, hon, hstays, -⟩ := (reply_ends timeout hopen).of_eq_ok hreply
  have hdrains : Drains (⟨peer, some s, own⟩, n) (c, v.2) := (drains_reply timeout _).of_eq_ok hreply
  obtain ⟨hworld, hqueue⟩ := hdrains.receives hstays rfl htcp rfl
  rw [hbrings.bytes_eq, hv.bytes_eq] at hqueue
  refine ⟨(c, v.2), new, hreply, ?_, hstays, hworld, hon, ?_⟩
  · obtain ⟨t, ht, htcp', hpeer'⟩ := hstays.isOpen
    cases ht
    exact ⟨v.1, rfl, htcp', hpeer', hv⟩
  · rw [List.append_assoc] at hqueue
    exact (List.append_cancel_right hqueue).symm

/-- Receiving times out where the stream falls silent between two frames. -/
theorem reply_of_silence (timeout : Option Nat) (h : w.1.Offers [] rest)
    (hrest : rest = [] ∨ ∃ queue, rest = .silence :: queue) :
    ∃ v new s, reply timeout w = .error .timeout v ∧ Stays w v new ∧ v.2.world = w.2.world ∧
      Receives w.1.peer [] new ∧ v.1.stream = some s ∧ s.queue = rest.tail := by
  obtain ⟨⟨peer, stream, own⟩, n⟩ := w
  obtain ⟨s, rfl, htcp, hpeer, hbrings⟩ := h
  have hopen : (ConsoleChannel.mk peer (some s) own).IsOpen := ⟨s, rfl, htcp, hpeer⟩
  obtain ⟨u, hread, hqueue⟩ :=
    read_of_silence (n.settings.wait timeout own) 4 (n := n) hbrings hrest
  let c : ConsoleChannel := ⟨peer, some u.1, own⟩
  have hreply : reply timeout (ConsoleChannel.mk peer (some s) own, n) =
      .error .timeout (c, u.2) := by
    rw [reply, state_bind, network_bind]
    simp only [isConnected, Option.isSome_some, Bool.not_true, Bool.false_eq_true, if_false]
    simp only [Bind.bind, EStateM.bind, onError, Dialog.on, streamPart, hread]
    rfl
  obtain ⟨new, hon, -, hends⟩ := (reply_ends timeout hopen).of_eq_error hreply
  have hstays : Stays (⟨peer, some s, own⟩, n) (c, u.2) new := by
    rcases hends with ⟨hstays, -⟩ | hcloses
    · exact hstays
    · cases hcloses.stream
  have hdrains : Drains (⟨peer, some s, own⟩, n) (c, u.2) :=
    (drains_reply timeout _).of_eq_error hreply
  obtain ⟨hworld, hbytes⟩ := hdrains.receives hstays rfl htcp rfl
  refine ⟨(c, u.2), new, u.1, hreply, hstays, hworld, ⟨hon, ?_⟩, rfl, hqueue⟩
  have htail : Arrival.bytes rest.tail = Arrival.bytes rest := by
    rcases hrest with rfl | ⟨queue, rfl⟩ <;> rfl
  rw [hbrings.bytes_eq, List.nil_append, hqueue, htail] at hbytes
  exact List.append_left_eq_self.1 hbytes.symm

/-- A frame that fits goes out, and its answer waits behind what already waits. -/
theorem send_of_offers {r : Rcon.Request} {arrivals : List Arrival} {more : List UInt8}
    (hfits : (Text.Utf8.encode r.body).length ≤ Rcon.maxBodySize)
    (hreact : w.2.world.react w.2.history .tcp w.1.peer r.bytes = .ok arrivals)
    (hanswer : Arrival.Brings arrivals more rest) (h : w.1.Offers bytes []) :
    ∃ v, send r w = .ok () v ∧ v.1.Offers (bytes ++ more) rest ∧ v.2.world = w.2.world ∧
      Stays w v [.sent .tcp w.1.peer r.bytes] := by
  obtain ⟨⟨peer, stream, own⟩, n⟩ := w
  obtain ⟨s, rfl, htcp, hpeer, hbrings⟩ := h
  have hopen : (ConsoleChannel.mk peer (some s) own).IsOpen := ⟨s, rfl, htcp, hpeer⟩
  have hroom : r.bytes.length ≤ (List.replicate ((Text.Utf8.encode r.body).length +
      Rcon.minFrameSize + 4) (0 : UInt8)).length := by
    rw [List.length_replicate]
    exact Nat.le_of_eq (Rcon.length_frameBytes r.id r.kind (Text.Utf8.encode r.body))
  obtain ⟨filled, hencode, hbytes⟩ := Writer.encode_bytes_of_le hroom
  have hwrite : r.encode (List.replicate ((Text.Utf8.encode r.body).length + Rcon.minFrameSize + 4)
      0) = .ok filled := by
    rw [Rcon.Request.encode, Rcon.Request.write, Rcon.writeFrame_eq, if_neg]
    · exact hencode
    · simp only [Rcon.maxBodySize, Rcon.minFrameSize, Rcon.maxFrameSize] at hfits ⊢
      omega
  have hhere : n.world.react n.history s.transport s.peer r.bytes = .ok arrivals := by
    rw [htcp, hpeer]
    exact hreact
  have hsend : Socket.send r.bytes (s, n) = .ok () ({ s with queue := s.queue ++ arrivals },
      n.record (.sent s.transport s.peer r.bytes)) := by
    rw [Socket.send, state_bind, network_bind]
    simp only [hhere]
    rfl
  rw [htcp, hpeer] at hsend
  let c : ConsoleChannel := ⟨peer, some ⟨.tcp, peer, s.queue ++ arrivals⟩, own⟩
  have hon : Dialog.on streamPart (Socket.send r.bytes) (ConsoleChannel.mk peer (some s) own, n) =
      .ok () (c, n.record (.sent .tcp peer r.bytes)) := on_of_ok rfl hsend
  refine ⟨(c, n.record (.sent .tcp peer r.bytes)), ?_,
    ⟨_, rfl, rfl, rfl, hbrings.append hanswer⟩, rfl, ⟨_, rfl, rfl, rfl⟩, rfl, rfl⟩
  have hconnect : connect (ConsoleChannel.mk peer (some s) own, n) =
      .ok () (ConsoleChannel.mk peer (some s) own, n) := rfl
  simp only [send]
  rw [hwrite, bind_of_ok (show ofCodec (.ok filled) _ = .ok filled _ from rfl),
    bind_of_ok hconnect, hbytes]
  exact onError_of_ok hon

end ConsoleChannel

end GameQuery
