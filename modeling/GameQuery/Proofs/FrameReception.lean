import GameQuery.Proofs.FrameOrder

namespace GameQuery

/-!
# What is heard over a stream

The pieces in which a stream arrives do not matter to a client that reads frames off it: what counts
are the bytes and where a read comes upon something else. `Rcon.Reception` says what one receive
makes of them. A client that sends and receives in any order hears the frames at the start of what
the server has sent since the stream was opened, one after another, and nothing more once it has
lost its place.
-/

/-- What a read over a stream comes upon. -/
inductive StreamItem where
  | byte (b : UInt8)
  | failure (e : ClientError)
  | ended
  deriving DecidableEq, Repr

namespace StreamItem

/-- A read that comes upon no byte fails. Nothing at all is a timeout. -/
inductive Fails : List StreamItem → ClientError → List StreamItem → Prop
  | nothing : Fails [] .timeout []
  | failure (e : ClientError) (rest : List StreamItem) : Fails (.failure e :: rest) e rest

/-- What a read of up to `count` bytes takes off a stream. -/
inductive Takes (count : Nat) :
    List StreamItem → Except ClientError (Option (List UInt8)) → List StreamItem → Prop
  | bytes {taken : List UInt8} (hne : taken ≠ []) (hle : taken.length ≤ count)
    (rest : List StreamItem) : Takes count (taken.map .byte ++ rest) (.ok (some taken)) rest
  | ended (rest left : List StreamItem) : Takes count (.ended :: rest) (.ok none) left
  | failure {items left : List StreamItem} {e : ClientError} (h : Fails items e left) :
    Takes count items (.error e) left

theorem Takes.fails {count : Nat} {items left : List StreamItem} {e : ClientError}
    (h : Takes count items (.error e) left) : Fails items e left := by
  cases h
  assumption

end StreamItem

namespace Arrival

/-- What a queue brings over a stream. An empty piece is taken for the end of the stream. -/
def items : List Arrival → List StreamItem
  | [] => []
  | .data [] :: queue => .ended :: items queue
  | .data (b :: piece) :: queue => (b :: piece).map .byte ++ items queue
  | .silence :: queue => .failure .timeout :: items queue
  | .delay _ :: queue => items queue
  | .failure f :: queue => .failure (.ofFailure f) :: items queue
  | .closed :: queue => .ended :: items queue

theorem items_data {piece : List UInt8} (h : piece ≠ []) (queue : List Arrival) :
    items (.data piece :: queue) = piece.map .byte ++ items queue := by
  cases piece with
  | nil => exact absurd rfl h
  | cons b piece => rfl

theorem items_drop (piece : List UInt8) (count : Nat) (queue : List Arrival) :
    items (if count < piece.length then .data (piece.drop count) :: queue else queue) =
      (piece.drop count).map .byte ++ items queue := by
  split
  · next hlt => exact items_data (by simpa using hlt) queue
  · next hle =>
    rw [List.drop_of_length_le (Nat.not_lt.1 hle)]
    rfl

theorem items_passDelays (queue : List Arrival) : items (passDelays queue).2 = items queue := by
  fun_induction passDelays queue with
  | case1 micros queue elapsed rest h ih =>
    rw [h] at ih
    exact ih
  | case2 => rfl

theorem passDelays_ne_delay (queue rest : List Arrival) (micros : Nat) :
    (passDelays queue).2 ≠ .delay micros :: rest := by
  fun_induction passDelays queue with
  | case1 _ queue elapsed left h ih =>
    rw [h] at ih
    exact ih
  | case2 queue hne => exact fun h => hne micros rest h

end Arrival

namespace Rcon

/-- Bytes at the start of a frame that do not make up the whole of it. -/
def IsUnfinished (bytes : List UInt8) : Prop :=
  bytes.length < 4 ∨ ∃ size, frameSize (bytes.take 4) = .ok size ∧ bytes.length < 4 + size

theorem isUnfinished_payload {start payload : List UInt8} {size : Nat} (hstart : start.length = 4)
    (hsize : frameSize start = .ok size) (hlt : payload.length < size) :
    IsUnfinished (start ++ payload) := by
  refine .inr ⟨size, ?_, ?_⟩
  · rwa [List.take_left' hstart]
  · rw [List.length_append, hstart]
    omega

/-- What a receive makes of what comes over a stream: how it ends, and what is left of the stream
unless that is shut down. -/
inductive Reception : List StreamItem → Except ClientError (Option Reply) →
    Option (List StreamItem) → Prop
  | frame {bytes : List UInt8} {r : Reply} (h : IsFrame bytes r) (rest : List StreamItem) :
    Reception (bytes.map .byte ++ rest) (.ok (some r)) (some rest)
  /-- Nothing has come of a frame in time. -/
  | silence {items rest : List StreamItem} (h : StreamItem.Fails items .timeout rest) :
    Reception items (.error .timeout) (some rest)
  /-- A timeout inside a frame, or another failure anywhere. -/
  | failure {bytes : List UInt8} {items rest : List StreamItem} {e : ClientError}
    (h : IsUnfinished bytes) (hitems : StreamItem.Fails items e rest)
    (hinside : bytes ≠ [] ∨ e ≠ .timeout) :
    Reception (bytes.map .byte ++ items) (.error e) none
  | ended {bytes : List UInt8} (h : IsUnfinished bytes) (rest : List StreamItem) :
    Reception (bytes.map .byte ++ .ended :: rest) (.ok none) none
  | badSize {start : List UInt8} {e : CodecError} (hstart : start.length = 4)
    (h : frameSize start = .error e) (rest : List StreamItem) :
    Reception (start.map .byte ++ rest) (.error (.ofCodec e)) none
  | badBody {start payload : List UInt8} {e : CodecError} (hstart : start.length = 4)
    (hsize : frameSize start = .ok payload.length) (h : Reply.decode payload = .error e)
    (rest : List StreamItem) :
    Reception ((start ++ payload).map .byte ++ rest) (.error (.ofCodec e)) none

end Rcon

open Dialog StreamItem

namespace Socket

theorem peek_items (wait : Nat) (w : Socket × Network) :
    Ends (peek wait) w fun r v =>
      match r with
      | .ok (some piece) => Arrival.items v.1.queue = Arrival.items w.1.queue ∧
          ∃ rest, v.1.queue = .data piece :: rest
      | .ok none => ∃ rest, Arrival.items w.1.queue = .ended :: rest
      | .error e => Fails (Arrival.items w.1.queue) e (Arrival.items v.1.queue) := by
  obtain ⟨s, n⟩ := w
  have hitems := Arrival.items_passDelays s.queue
  simp only [Ends, peek]
  cases hqueue : (Arrival.passDelays s.queue).2 with
  | nil =>
    rw [hqueue] at hitems
    exact hitems ▸ .nothing
  | cons a rest =>
    rw [hqueue] at hitems
    cases a with
    | data piece => exact ⟨hitems, rest, rfl⟩
    | silence => exact hitems ▸ .failure _ _
    | delay micros => exact absurd hqueue (Arrival.passDelays_ne_delay _ _ _)
    | failure f => exact hitems ▸ .failure _ _
    | closed => exact ⟨_, hitems.symm⟩

theorem read_takes (wait : Nat) {count : Nat} (hcount : 0 < count) (w : Socket × Network) :
    Ends (read wait count) w fun r v =>
      Takes count (Arrival.items w.1.queue) r (Arrival.items v.1.queue) := by
  refine (peek_items wait w).bind ?_ fun e v hv => .failure hv
  rintro (_ | piece) v hv
  · obtain ⟨rest, hrest⟩ := hv
    exact hrest ▸ .ended rest _
  · obtain ⟨hitems, rest, hqueue⟩ := hv
    obtain ⟨⟨transport, peer, queue⟩, n⟩ := v
    cases hqueue
    rw [← hitems]
    refine ends_bind_of_ok rfl ?_
    obtain ⟨room, rfl⟩ : ∃ room, count = room + 1 := ⟨count - 1, by omega⟩
    cases piece with
    | nil => exact .ended _ _
    | cons b piece =>
      refine ends_pure ?_
      simp only [Arrival.items_data (List.cons_ne_nil b piece), Arrival.items_drop]
      conv =>
        arg 2
        rw [← List.take_append_drop (room + 1) (b :: piece), List.map_append, List.append_assoc]
      exact .bytes (by simp) (List.length_take_le _ _) _

end Socket

namespace ConsoleChannel

open Socket

/-- Reading on takes the bytes that are missing, or there are fewer of them in front of something
else. -/
theorem fill_items (wait : Nat) {count : Nat} {head : List UInt8} (hhead : head.length ≤ count)
    (w : Socket × Network) :
    Ends (fill wait count head) w fun r v => ∃ taken left,
      Arrival.items w.1.queue = taken.map .byte ++ left ∧
        match r with
        | .ok (some out) => out = head ++ taken ∧ out.length = count ∧
            Arrival.items v.1.queue = left
        | .ok none => (head ++ taken).length < count ∧ ∃ rest, left = .ended :: rest
        | .error e => (head ++ taken).length < count ∧ Fails left e (Arrival.items v.1.queue) := by
  -- What a pass has read and what it leaves are together what was there at first.
  refine ends_iterate (fun h => (fillPass_again h).1)
    (fun head' v => ∃ taken, head' = head ++ taken ∧ head'.length ≤ count ∧
      Arrival.items w.1.queue = taken.map .byte ++ Arrival.items v.1.queue) ?_
    ⟨[], (List.append_nil head).symm, hhead, rfl⟩
  rintro head' v ⟨taken, rfl, hlen, hitems⟩
  unfold fillPass
  split
  · next hcount => exact ⟨taken, _, hitems, rfl, Nat.le_antisymm hlen hcount, rfl⟩
  · next hcount =>
    rw [Nat.not_le] at hcount
    refine (read_takes wait (Nat.sub_pos_of_lt hcount) v).bind ?_ ?_
    · intro out u hu
      generalize Arrival.items v.1.queue = before at hitems hu
      generalize hafter : Arrival.items u.1.queue = after at hu
      cases hu with
      | @bytes more hne hle =>
        refine ⟨taken ++ more, (List.append_assoc ..), ?_, ?_⟩
        · rw [List.length_append]
          omega
        · rw [hitems, hafter, List.map_append, List.append_assoc]
      | ended rest => exact ⟨taken, _, hitems, hcount, _, rfl⟩
    · exact fun e u hu => ⟨taken, _, hitems, hcount, hu.fails⟩

theorem readFrame_items (wait : Nat) {head : List UInt8} (hne : head ≠ []) (hhead : head.length ≤ 4)
    (w : Socket × Network) :
    Ends (readFrame wait head) w fun o v =>
      Rcon.Reception (head.map .byte ++ Arrival.items w.1.queue) o
        (match o with
        | .ok (some _) => some (Arrival.items v.1.queue)
        | _ => none) := by
  -- Some bytes have been read, so whatever fails from here on fails inside the frame.
  have hinside : ∀ more, head ++ more ≠ [] := fun more h => hne (List.append_eq_nil_iff.1 h).1
  refine (fill_items wait hhead w).bind ?_ ?_
  · rintro (_ | start) v ⟨taken, left, hitems, hout⟩
    · obtain ⟨hlt, rest, rfl⟩ := hout
      rw [hitems, ← List.append_assoc, ← List.map_append]
      exact .ended (.inl hlt) rest
    · obtain ⟨rfl, hstart, rfl⟩ := hout
      rw [hitems, ← List.append_assoc, ← List.map_append]
      refine ends_ofCodec_bind (fun size hsize => ?_) fun e he => .badSize hstart he _
      refine (fill_items wait (Nat.zero_le size) v).bind ?_ ?_
      · rintro (_ | payload) u ⟨more, left, hmore, hout⟩
        · obtain ⟨hlt, rest, rfl⟩ := hout
          rw [hmore, ← List.append_assoc, ← List.map_append]
          exact .ended (Rcon.isUnfinished_payload hstart hsize hlt) rest
        · obtain ⟨rfl, hcount, rfl⟩ := hout
          rw [hmore, ← List.append_assoc, ← List.map_append]
          refine Ends.map (ends_ofCodec (fun r hr => ?_) fun e he => ?_)
          · exact .frame ⟨_, _, rfl, hstart, hcount ▸ hsize, hr⟩ _
          · exact .badBody hstart (hcount ▸ hsize) he _
      · rintro e u ⟨more, left, hmore, hlt, hfails⟩
        rw [hmore, ← List.append_assoc, ← List.map_append]
        refine .failure (Rcon.isUnfinished_payload hstart hsize hlt) hfails (.inl ?_)
        exact List.append_assoc head taken more ▸ hinside _
  · rintro e v ⟨taken, left, hitems, hlt, hfails⟩
    rw [hitems, ← List.append_assoc, ← List.map_append]
    exact .failure (.inl hlt) hfails (.inl (hinside taken))

/-- What is left of the stream of a channel, unless it has been shut down. -/
def left (c : ConsoleChannel) : Option (List StreamItem) :=
  c.stream.map fun s => Arrival.items s.queue

theorem close_left (w : ConsoleChannel × Network) :
    Ends close w fun r v => r = .ok () ∧ v.1.left = none := by
  obtain ⟨⟨peer, stream, timeout⟩, n⟩ := w
  cases stream <;> exact ⟨rfl, rfl⟩

theorem on_stream_ends {α : Type} {d : Dialog Socket α} {c : ConsoleChannel} {s : Socket}
    {n : Network} {Q : Except ClientError α → Socket → Prop} (hc : c.stream = some s)
    (hd : Ends d (s, n) fun r v => Q r v.1) :
    Ends (.on streamPart d) (c, n) fun r v => ∃ t, v.1.stream = some t ∧ Q r t :=
  Ends.on hc (hd.imp fun _ v hv => ⟨v.1, rfl, hv⟩)

/-- The first read of a frame. Only a timeout leaves the stream open. -/
theorem readStart_items (wait : Nat) {c : ConsoleChannel} {s : Socket} {n : Network}
    (hc : c.stream = some s) :
    Ends (onError (.on streamPart (Socket.read wait 4)) closeUnlessTimeout) (c, n) fun r v =>
      match r with
      | .ok (some head) => head ≠ [] ∧ head.length ≤ 4 ∧ ∃ t, v.1.stream = some t ∧
          Arrival.items s.queue = head.map .byte ++ Arrival.items t.queue
      | .ok none => ∃ rest, Arrival.items s.queue = .ended :: rest
      | .error e => Rcon.Reception (Arrival.items s.queue) (.error e) v.1.left := by
  refine (on_stream_ends (Q := fun r t => Takes 4 (Arrival.items s.queue) r (Arrival.items t.queue))
    hc (read_takes wait (Nat.succ_pos 3) (s, n))).onError ?_ ?_
  · rintro r v ⟨t, ht, htakes⟩
    generalize Arrival.items s.queue = before at htakes ⊢
    generalize hafter : Arrival.items t.queue = after at htakes
    cases htakes with
    | bytes hne hle => exact ⟨hne, hle, t, ht, by rw [hafter]⟩
    | ended rest => exact ⟨rest, rfl⟩
  · rintro e v ⟨t, ht, htakes⟩
    unfold closeUnlessTimeout
    split
    · next he =>
      subst he
      have hleft : v.1.left = some (Arrival.items t.queue) := by rw [left, ht]; rfl
      exact ends_pure (hleft ▸ .silence htakes.fails)
    · next he =>
      refine (close_left v).imp ?_
      rintro r u ⟨rfl, hu⟩
      have hempty : Rcon.IsUnfinished [] := .inl (Nat.zero_lt_succ 3)
      exact hu ▸ .failure hempty htakes.fails (.inr he)

theorem readRest_items (wait : Nat) {head : List UInt8} (hne : head ≠ []) (hhead : head.length ≤ 4)
    {c : ConsoleChannel} {s : Socket} {n : Network} (hc : c.stream = some s) :
    Ends (onError (.on streamPart (readFrame wait head)) fun _ => close) (c, n) fun o v =>
      Rcon.Reception (head.map .byte ++ Arrival.items s.queue) o
        (match o with
        | .ok none => none
        | _ => v.1.left) := by
  refine (on_stream_ends (Q := fun o t => Rcon.Reception (head.map .byte ++ Arrival.items s.queue) o
    (match o with
    | .ok (some _) => some (Arrival.items t.queue)
    | _ => none)) hc (readFrame_items wait hne hhead (s, n))).onError ?_ ?_
  · rintro (_ | r) v ⟨t, ht, hreception⟩
    · exact hreception
    · have hleft : v.1.left = some (Arrival.items t.queue) := by rw [left, ht]; rfl
      exact hleft ▸ hreception
  · rintro e v ⟨t, ht, hreception⟩
    refine (close_left v).imp ?_
    rintro r u ⟨rfl, hu⟩
    exact hu ▸ hreception

theorem reply_reception (timeout : Option Nat) {w : ConsoleChannel × Network}
    {items : List StreamItem} (hw : w.1.left = some items) :
    Ends (reply timeout) w fun o v => Rcon.Reception items o v.1.left := by
  obtain ⟨⟨peer, stream, own⟩, n⟩ := w
  obtain ⟨s, rfl, rfl⟩ := Option.map_eq_some_iff.1 hw
  refine ends_state_bind (ends_network_bind ?_)
  simp only [isConnected, Option.isSome_some, Bool.not_true, Bool.false_eq_true, if_false]
  refine (readStart_items _ rfl).bind ?_ fun e v hv => hv
  rintro (_ | head) v hv
  · obtain ⟨rest, hrest⟩ := hv
    refine (close_left v).bind ?_ fun e u hu => by cases hu.1
    rintro _ u ⟨-, hu⟩
    have hempty : Rcon.IsUnfinished [] := .inl (Nat.zero_lt_succ 3)
    exact ends_pure (hu ▸ hrest ▸ .ended hempty rest)
  · obtain ⟨hne, hle, t, ht, hitems⟩ := hv
    rw [hitems]
    refine (readRest_items _ hne hle ht).bind ?_ fun e u hu => hu
    rintro (_ | r) u hu
    · refine (close_left u).bind ?_ fun e u' hu' => by cases hu'.1
      rintro _ u' ⟨-, hu'⟩
      exact ends_pure (hu' ▸ hu)
    · exact ends_pure hu

/-! ## A channel in use -/

theorem left_eq_none {c : ConsoleChannel} : c.left = none ↔ c.stream = none := by
  rw [left, Option.map_eq_none_iff]

/-- A closed channel hears nothing, and nothing happens. -/
theorem reply_of_closed (timeout : Option Nat) {w : ConsoleChannel × Network}
    (h : w.1.left = none) : reply timeout w = .ok none w := by
  rw [reply, state_bind, network_bind, isConnected, left_eq_none.1 h]
  rfl

/-- A closed channel opens a new stream for a frame, unless the frame cannot be written. -/
def Reopens (r : Rcon.Request) (w : ConsoleChannel × Network) : Prop :=
  Ends (send r) w fun o v => (∃ e, o = .error e ∧ v = w) ∨ ∃ new failure,
    v.2.history = new ++ .connected .tcp w.1.peer failure :: w.2.history ∧
      (o = .ok () → failure = none ∧ v.1.IsOpen)

theorem send_reopens (r : Rcon.Request) {w : ConsoleChannel × Network} (h : w.1.left = none) :
    Reopens r w := by
  refine ends_ofCodec_bind (fun filled _ => ?_) fun e _ => .inl ⟨_, rfl, rfl⟩
  refine (connect_ends (left_eq_none.1 h)).bind (fun _ v hv => ?_) ?_
  · refine (transmit_ends filled.bytes hv.isOpen).imp ?_
    rintro (e | _) u hu
    · exact .inr ⟨[.closed _, .sent _ _ _], none, (hv.closes hu.2).history, nofun⟩
    · exact .inr ⟨[.sent _ _ _], none, (hv.trans hu).history, fun _ => ⟨rfl, hu.isOpen⟩⟩
  · rintro e v ⟨-, -, f, hf⟩
    exact .inr ⟨[], some f, hf, nofun⟩

/-- What a program does with a channel. -/
inductive Call where
  | send (r : Rcon.Request)
  | reply (timeout : Option Nat)
  | setTimeout (timeout : Option Nat)
  | close

/-- Carries a call out. Only a receive gives anything. -/
def Call.perform : Call → Dialog ConsoleChannel (Option Rcon.Reply)
  | .send r => do
    ConsoleChannel.send r
    return none
  | .reply timeout => ConsoleChannel.reply timeout
  | .setTimeout timeout => do
    modifyState (ConsoleChannel.setTimeout timeout)
    return none
  | .close => do
    ConsoleChannel.close
    return none

/-- A channel and its network after a call, and what has been heard since the stream was opened,
given what had been heard before. -/
def Call.hear (call : Call) (w : ConsoleChannel × Network) (heard : List Rcon.Reply) :
    (ConsoleChannel × Network) × List Rcon.Reply :=
  let heard := if w.1.isConnected then heard else []
  match call.perform w with
  | .ok r v => (v, heard ++ r.toList)
  | .error _ v => (v, heard)

/-- The same for some calls, one after another. -/
def hear (calls : List Call) (w : ConsoleChannel × Network) (heard : List Rcon.Reply) :
    (ConsoleChannel × Network) × List Rcon.Reply :=
  calls.foldl (fun s call => call.hear s.1 s.2) (w, heard)

/-- If the stream is open, what has been heard are the first frames that have come over it. -/
def IsAligned (w : ConsoleChannel × Network) (heard : List Rcon.Reply) : Prop :=
  w.1.left ≠ none → InStep w heard

theorem isAligned_of_closed {w : ConsoleChannel × Network} (h : w.1.stream = none)
    (heard : List Rcon.Reply) : IsAligned w heard := fun hne => absurd (left_eq_none.2 h) hne

theorem perform_aligned (call : Call) {w : ConsoleChannel × Network} {heard : List Rcon.Reply}
    (h : w.1.stream = none ∧ heard = [] ∨ InStep w heard) :
    Ends call.perform w fun o v =>
      match o with
      | .ok r => IsAligned v (heard ++ r.toList)
      | .error _ => IsAligned v heard := by
  cases call with
  | send r =>
    refine (send_inStep r h).bind (fun _ v hv => ?_) ?_
    · exact ends_pure fun _ => (List.append_nil heard).symm ▸ hv.1
    · rintro e v (hv | rfl)
      · exact isAligned_of_closed hv heard
      · rcases h with ⟨hv, -⟩ | h
        · exact isAligned_of_closed hv heard
        · exact fun _ => h
  | reply timeout =>
    rcases h with ⟨hw, rfl⟩ | h
    · exact ends_of_ok (reply_of_closed timeout (left_eq_none.2 hw)) (isAligned_of_closed hw _)
    · refine (reply_inStep timeout h).imp ?_
      rintro (e | _ | r) v ⟨new, -, hv⟩
      · rcases hv with hv | hv
        · exact fun _ => hv.1
        · exact isAligned_of_closed hv.stream heard
      · exact isAligned_of_closed hv.stream _
      · exact fun _ => hv.1
  | setTimeout timeout =>
    refine ends_modifyState_bind (ends_pure ?_)
    rcases h with ⟨hw, -⟩ | ⟨s, hs, htcp, hpeer, hqueue, hframes⟩
    · exact isAligned_of_closed hw _
    · exact fun _ => ⟨s, hs, htcp, hpeer, hqueue, (List.append_nil heard).symm ▸ hframes⟩
  | close =>
    refine (close_left w).bind (fun _ v hv => ?_) fun e v hv => by cases hv.1
    exact ends_pure (isAligned_of_closed (left_eq_none.1 hv.2) _)

theorem hear_aligned (call : Call) {w : ConsoleChannel × Network} {heard : List Rcon.Reply}
    (h : IsAligned w heard) : IsAligned (call.hear w heard).1 (call.hear w heard).2 := by
  have hbefore : w.1.stream = none ∧ (if w.1.isConnected then heard else []) = [] ∨
      InStep w (if w.1.isConnected then heard else []) := by
    rw [isConnected]
    cases hs : w.1.stream with
    | none => exact .inl ⟨rfl, rfl⟩
    | some s => exact .inr (h (by rw [left, hs]; exact Option.some_ne_none _))
  have hcall := perform_aligned call hbefore
  simp only [Ends, Call.hear] at hcall ⊢
  split at hcall <;> next hv => simpa only [hv] using hcall

end ConsoleChannel

namespace Rcon

/-! ## Streams of frames -/

/-- What comes over a stream are frames and, between them, timeouts. -/
inductive Intact : List StreamItem → List (Option Reply) → Prop
  | nil : Intact [] []
  | frame {bytes : List UInt8} {r : Reply} {items : List StreamItem} {rs : List (Option Reply)}
    (h : IsFrame bytes r) (hrest : Intact items rs) :
    Intact (bytes.map .byte ++ items) (some r :: rs)
  | silence {items : List StreamItem} {rs : List (Option Reply)} (hrest : Intact items rs) :
    Intact (.failure .timeout :: items) (none :: rs)

theorem map_byte_injective {s t : List UInt8} (h : s.map StreamItem.byte = t.map .byte) : s = t :=
  (List.map_inj_right fun _ _ => StreamItem.byte.inj).1 h

/-- Bytes in front of something that is no byte are all of the bytes at the start of a stream. -/
theorem eq_append_of_stops {s t : List UInt8} {rest stop : List StreamItem}
    (hstop : ∀ b tail, stop ≠ .byte b :: tail)
    (h : s.map StreamItem.byte ++ rest = t.map .byte ++ stop) : ∃ u, t = s ++ u := by
  rcases List.append_eq_append_iff.1 h with ⟨a, ha, -⟩ | ⟨a, ha, hstop'⟩
  · obtain ⟨s', u, rfl, hs', -⟩ := List.map_eq_append_iff.1 ha
    exact ⟨u, by rw [map_byte_injective hs']⟩
  · obtain ⟨t', u, rfl, ht', rfl⟩ := List.map_eq_append_iff.1 ha
    cases u with
    | nil => exact ⟨[], by simpa using (map_byte_injective ht').symm⟩
    | cons b u => exact absurd hstop' (hstop b _)

theorem eq_nil_of_stops {s : List UInt8} {rest stop : List StreamItem}
    (hstop : ∀ b tail, stop ≠ .byte b :: tail) (h : s.map StreamItem.byte ++ rest = stop) :
    s = [] := by
  obtain ⟨u, hu⟩ := eq_append_of_stops (t := []) hstop h
  exact (List.append_eq_nil_iff.1 hu.symm).1

theorem fails_stops {items rest : List StreamItem} {e : ClientError}
    (h : StreamItem.Fails items e rest) (b : UInt8) (tail : List StreamItem) :
    items ≠ .byte b :: tail := by
  rintro rfl
  cases h

theorem IsFrame.not_isUnfinished {bytes : List UInt8} {r : Reply} (h : IsFrame bytes r)
    (more : List UInt8) : ¬ IsUnfinished (bytes ++ more) := by
  obtain ⟨start, payload, rfl, hstart, hsize, -⟩ := h
  rintro (hlt | ⟨size, hsize', hlt⟩)
  · simp only [List.length_append] at hlt
    omega
  · rw [List.append_assoc, List.take_left' hstart, hsize] at hsize'
    cases hsize'
    simp only [List.length_append] at hlt
    omega

theorem Reception.of_frame {bytes : List UInt8} {r : Reply} {rest : List StreamItem}
    {o : Except ClientError (Option Reply)} {next : Option (List StreamItem)} (h : IsFrame bytes r)
    (hitems : Reception (bytes.map .byte ++ rest) o next) :
    o = .ok (some r) ∧ next = some rest := by
  generalize hall : bytes.map StreamItem.byte ++ rest = items at hitems
  -- The stream starts with a frame, and with nothing of what makes another reception.
  cases hitems with
  | @frame bytes' r' h' rest' =>
    rcases List.append_eq_append_iff.1 hall with ⟨a, ha, rfl⟩ | ⟨a, ha, rfl⟩
    · obtain ⟨s, u, rfl, hs, rfl⟩ := List.map_eq_append_iff.1 ha
      cases map_byte_injective hs
      obtain ⟨-, rfl, hnil⟩ := h.append_inj (t := []) h' (List.append_nil _).symm
      subst hnil
      exact ⟨rfl, rfl⟩
    · obtain ⟨s, u, rfl, hs, rfl⟩ := List.map_eq_append_iff.1 ha
      cases map_byte_injective hs
      obtain ⟨-, rfl, hnil⟩ := h.append_inj (s := []) h' (List.append_nil _)
      subst hnil
      exact ⟨rfl, rfl⟩
  | silence hfails =>
    exact absurd (eq_nil_of_stops (fails_stops hfails) hall) h.ne_nil
  | failure hunfinished hfails hinside =>
    obtain ⟨u, rfl⟩ := eq_append_of_stops (fails_stops hfails) hall
    exact absurd hunfinished (h.not_isUnfinished u)
  | ended hunfinished rest' =>
    obtain ⟨u, rfl⟩ := eq_append_of_stops (by simp) hall
    exact absurd hunfinished (h.not_isUnfinished u)
  | badSize hstart hsize rest' =>
    obtain ⟨start, payload, rfl, hstart', hsize', -⟩ := h
    rw [List.map_append, List.append_assoc] at hall
    cases map_byte_injective (List.append_inj hall (by simp [hstart, hstart'])).1
    cases hsize.symm.trans hsize'
  | badBody hstart hsize hdecode rest' =>
    obtain ⟨start, payload, rfl, hstart', hsize', hdecode'⟩ := h
    rw [List.map_append, List.append_assoc, List.map_append, List.append_assoc] at hall
    obtain ⟨hfirst, hrest⟩ := List.append_inj hall (by simp [hstart, hstart'])
    cases map_byte_injective hfirst
    have hlength := Except.ok.inj (hsize.symm.trans hsize')
    cases map_byte_injective (List.append_inj hrest (by simp [hlength])).1
    cases hdecode.symm.trans hdecode'

/-- A timeout at the start of a stream is passed on, and the stream stays open. -/
theorem Reception.of_silence {rest : List StreamItem} {o : Except ClientError (Option Reply)}
    {next : Option (List StreamItem)} (hitems : Reception (.failure .timeout :: rest) o next) :
    o = .error .timeout ∧ next = some rest := by
  generalize hall : StreamItem.failure .timeout :: rest = items at hitems
  have hstop : ∀ b tail, StreamItem.failure .timeout :: rest ≠ .byte b :: tail := by simp
  cases hitems with
  | frame h => exact absurd (eq_nil_of_stops hstop hall.symm) h.ne_nil
  | silence hfails =>
    subst hall
    cases hfails
    exact ⟨rfl, rfl⟩
  | failure hunfinished hfails hinside =>
    cases eq_nil_of_stops hstop hall.symm
    rw [List.map_nil, List.nil_append] at hall
    subst hall
    cases hfails
    simp at hinside
  | ended =>
    cases eq_nil_of_stops hstop hall.symm
    cases hall
  | badSize hstart =>
    cases eq_nil_of_stops hstop hall.symm
    cases hstart
  | badBody hstart =>
    have hnil := eq_nil_of_stops hstop hall.symm
    rw [(List.append_eq_nil_iff.1 hnil).1] at hstart
    cases hstart

/-- What a client hears of a frame or of a timeout. -/
def heardAs : Option Reply → Except ClientError (Option Reply)
  | some r => .ok (some r)
  | none => .error .timeout

theorem Intact.reception {items : List StreamItem} {r : Option Reply} {rs : List (Option Reply)}
    {o : Except ClientError (Option Reply)} {next : Option (List StreamItem)}
    (h : Intact items (r :: rs)) (hitems : Reception items o next) :
    o = heardAs r ∧ ∃ rest, next = some rest ∧ Intact rest rs := by
  cases h with
  | frame hframe hrest =>
    obtain ⟨rfl, rfl⟩ := hitems.of_frame hframe
    exact ⟨rfl, _, rfl, hrest⟩
  | silence hrest =>
    obtain ⟨rfl, rfl⟩ := hitems.of_silence
    exact ⟨rfl, _, rfl, hrest⟩

end Rcon

namespace ConsoleChannel

/-- Receives as often as there are timeouts to wait for. Errors are answers, too. -/
def replies :
    List (Option Nat) → Dialog ConsoleChannel (List (Except ClientError (Option Rcon.Reply)))
  | [] => return []
  | timeout :: timeouts => do
    let o ← outcome (reply timeout)
    let os ← replies timeouts
    return o :: os

/-- Of frames and timeouts between them nothing is lost. -/
theorem replies_of_intact {timeouts : List (Option Nat)} {rs : List (Option Rcon.Reply)}
    {w : ConsoleChannel × Network} {items : List StreamItem} (hlength : timeouts.length = rs.length)
    (hw : w.1.left = some items) (h : Rcon.Intact items rs) :
    ∃ v, replies timeouts w = .ok (rs.map Rcon.heardAs) v ∧ v.1.left = some [] := by
  induction timeouts generalizing rs w items with
  | nil =>
    cases List.eq_nil_of_length_eq_zero hlength.symm
    cases h
    exact ⟨w, rfl, hw⟩
  | cons timeout timeouts ih =>
    obtain ⟨r, rs, rfl⟩ := List.exists_cons_of_length_eq_add_one hlength.symm
    obtain ⟨o, u, houtcome, hreception⟩ := (reply_reception timeout hw).exists_outcome
    obtain ⟨rfl, rest, hleft, hrest⟩ := h.reception hreception
    obtain ⟨v, hv, hend⟩ := ih (Nat.succ.inj hlength) hleft hrest
    refine ⟨v, ?_, hend⟩
    rw [replies, bind_of_ok houtcome, bind_of_ok hv]
    rfl

theorem hear_run_aligned (calls : List Call) {w : ConsoleChannel × Network}
    {heard : List Rcon.Reply} (h : IsAligned w heard) :
    IsAligned (hear calls w heard).1 (hear calls w heard).2 := by
  induction calls generalizing w heard with
  | nil => exact h
  | cons call calls ih => exact ih (hear_aligned call h)

/-- A client that sends and receives over a channel in any order, closes it and sets its timeout,
never loses its place in a stream. While a stream is open, what has been heard since it was opened
are the first frames of what the server has sent over it. One receive makes of the rest what a
reception says: a timeout in front of a frame leaves the stream open, and whatever else is no frame
shuts it down. Then nothing is heard until a frame that is sent opens another stream. If frames and
timeouts between them are left, all of them are heard. -/
theorem hears_first_frames (peer : SocketAddress) (own : Option Nat) (n : Network)
    (calls : List Call) :
    let s := hear calls ({ peer, timeout := own }, n) []
    IsAligned s.1 s.2 ∧
      (∀ timeout items, s.1.1.left = some items →
        Ends (reply timeout) s.1 fun o v => Rcon.Reception items o v.1.left) ∧
      (s.1.1.left = none → (∀ timeout, reply timeout s.1 = .ok none s.1) ∧ ∀ r, Reopens r s.1) ∧
      ∀ items rs timeouts, s.1.1.left = some items → Rcon.Intact items rs →
        timeouts.length = rs.length →
        ∃ v, replies timeouts s.1 = .ok (rs.map Rcon.heardAs) v ∧ v.1.left = some [] := by
  intro s
  refine ⟨hear_run_aligned calls (isAligned_of_closed rfl []), ?_, ?_, ?_⟩
  · exact fun timeout items hleft => reply_reception timeout hleft
  · exact fun hclosed => ⟨fun timeout => reply_of_closed timeout hclosed,
      fun r => send_reopens r hclosed⟩
  · exact fun items rs timeouts hleft hintact hlength =>
      replies_of_intact hlength hleft hintact

end ConsoleChannel

end GameQuery
