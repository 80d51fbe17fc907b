import GameQuery.Listing.Page
import GameQuery.Proofs.DiscoveryAttempt
import Mathlib.Data.List.Basic

namespace GameQuery

/-!
# The pages of one list

A list of servers is written page after page into buffers of any sizes. `encodeNext` is the encoder
with the list as a state of its own, which also a failed call leaves behind. A buffer has room for
a certain number of addresses besides the sentinel; from this number one can tell what a page holds
and what is left, and from that what all pages together hold.
-/

def Buffer.filledWith (b : Buffer) (s : List UInt8) : Buffer :=
  ⟨b.written ++ s.toArray, b.unused.drop s.length⟩

theorem Buffer.filledWith_nil (b : Buffer) : b.filledWith [] = b := by
  simp [filledWith]

theorem Buffer.filledWith_append (b : Buffer) (s t : List UInt8) :
    b.filledWith (s ++ t) = (b.filledWith s).filledWith t := by
  simp [filledWith]

@[simp] theorem Buffer.length_unused_filledWith (b : Buffer) (s : List UInt8) :
    (b.filledWith s).unused.length = b.unused.length - s.length := List.length_drop

namespace Writer

theorem room_bind {α : Type} (k : Nat → Writer α) (b : Buffer) :
    (room >>= k) b = k b.unused.length b := rfl

theorem bytes_of_le {s : List UInt8} {b : Buffer} (h : s.length ≤ b.unused.length) :
    bytes s b = .ok ((), b.filledWith s) := by
  rw [bytes, Buffer.put_eq, if_pos h]
  rfl

theorem bytes_of_lt {s : List UInt8} {b : Buffer} (h : b.unused.length < s.length) :
    bytes s b = .error .endOfBuffer := by
  rw [bytes, Buffer.put_eq, if_neg (Nat.not_le.2 h)]

/-- The buffer as the encoder leaves it. -/
def filled (b : Buffer) : Filled := ⟨b.written.size, b.toList⟩

theorem bytes_filled (buffer s : List UInt8) :
    (filled ((Buffer.ofList buffer).filledWith s)).bytes = s := by
  simp [filled, Filled.bytes, Buffer.filledWith, Buffer.ofList, Buffer.toList]

end Writer

namespace Page

/-! ## The list as a state -/

/-- Takes addresses off a list and writes them, as long as two of them fit: whether the list has
come to its end, and what is left of the list. -/
def takeAddresses : List SocketAddressV4 → Buffer →
    Except CodecError (Bool × Buffer) × List SocketAddressV4
  | [], b => (.ok (decide (12 ≤ b.unused.length), b), [])
  | a :: rest, b =>
    if b.unused.length < 12 then (.ok (false, b), a :: rest)
    else match writeAddress a b with
      | .ok (_, b) => takeAddresses rest b
      | .error e => (.error e, rest)

/-- Writes the next page over the front of a buffer. A call that fails leaves behind what is left
of the list at that moment. -/
def encodeNext (servers : List SocketAddressV4) (buffer : List UInt8) :
    Except CodecError (Bool × Writer.Filled) × List SocketAddressV4 :=
  match Writer.bytes start (Buffer.ofList buffer) with
  | .error e => (.error e, servers)
  | .ok (_, b) =>
    match takeAddresses servers b with
    | (.error e, rest) => (.error e, rest)
    | (.ok (isEnd, b), rest) =>
      match (if isEnd then writeAddress sentinel else pure ()) b with
      | .error e => (.error e, rest)
      | .ok (_, b) => (.ok (isEnd, Writer.filled b), rest)

theorem writeAddresses_eq (servers : List SocketAddressV4) (b : Buffer) :
    writeAddresses servers b =
      match takeAddresses servers b with
      | (.ok (isEnd, b'), rest) => .ok ((rest, isEnd), b')
      | (.error e, _) => .error e := by
  induction servers generalizing b with
  | nil =>
    rw [writeAddresses, Writer.room_bind, takeAddresses]
    by_cases h : b.unused.length < 12
    · rw [if_pos h, decide_eq_false (Nat.not_le.2 h)]
      rfl
    · rw [if_neg h, decide_eq_true (Nat.not_lt.1 h)]
      rfl
  | cons a rest ih =>
    rw [writeAddresses, Writer.room_bind, takeAddresses]
    by_cases h : b.unused.length < 12
    · rw [if_pos h, if_pos h]
      rfl
    · rw [if_neg h, if_neg h]
      simp only [bind, StateT.bind, Except.bind]
      cases writeAddress a b with
      | error e => rfl
      | ok r => exact ih r.2

theorem encode_eq_encodeNext (servers : List SocketAddressV4) (buffer : List UInt8) :
    encode servers buffer =
      match encodeNext servers buffer with
      | (.ok (isEnd, filled), rest) => .ok ((rest, isEnd), filled)
      | (.error e, _) => .error e := by
  simp only [encode, Writer.fill, write, encodeNext, bind, StateT.bind, Except.bind]
  cases Writer.bytes start (Buffer.ofList buffer) with
  | error e => rfl
  | ok r =>
    simp only [writeAddresses_eq]
    rcases takeAddresses servers r.2 with ⟨e | ⟨isEnd, b⟩, rest⟩
    · rfl
    · cases isEnd with
      | false => rfl
      | true =>
        simp only [if_true, StateT.bind, bind, Except.bind]
        cases writeAddress sentinel b with
        | error e => rfl
        | ok r => rfl

/-! ## What a page holds -/

/-- How many addresses a page in a buffer of this size can have besides the sentinel. -/
def capacity (size : Nat) : Nat := size / 6 - 2

/-- The page that is written into a buffer of this size. -/
def nextPage (servers : List SocketAddressV4) (size : Nat) : List SocketAddressV4 :=
  if servers.length < capacity size then servers ++ [sentinel] else servers.take (capacity size)

theorem nextPage_ne_nil (servers : List SocketAddressV4) {size : Nat} (h : 18 ≤ size) :
    nextPage servers size ≠ [] := by
  have hcapacity : 0 < capacity size := by
    rw [capacity]
    omega
  rw [nextPage]
  split
  · exact List.append_ne_nil_of_right_ne_nil _ (List.cons_ne_nil _ _)
  · next hend =>
    rw [Ne, List.take_eq_nil_iff, ← List.length_eq_zero_iff]
    omega

theorem datagram_concat (page : List SocketAddressV4) (a : SocketAddressV4) :
    datagram (page ++ [a]) = datagram page ++ addressBytes a := by
  simp [datagram]

theorem writeAddress_of_le (a : SocketAddressV4) {b : Buffer} (h : 6 ≤ b.unused.length) :
    writeAddress a b = .ok ((), b.filledWith (addressBytes a)) := by
  have hbytes : writeAddress a = Writer.bytes (addressBytes a) := Writer.bytes_bind_bytes _ _
  rw [hbytes]
  exact Writer.bytes_of_le h

theorem takeAddresses_eq (servers : List SocketAddressV4) (b : Buffer) :
    takeAddresses servers b =
      (.ok (decide (servers.length < b.unused.length / 6 - 1),
        b.filledWith ((servers.take (b.unused.length / 6 - 1)).flatMap addressBytes)),
        servers.drop (b.unused.length / 6 - 1)) := by
  induction servers generalizing b with
  | nil =>
    have hroom : 12 ≤ b.unused.length ↔ 0 < b.unused.length / 6 - 1 := by omega
    simp [takeAddresses, hroom, Buffer.filledWith_nil]
  | cons a rest ih =>
    rw [takeAddresses]
    by_cases h : b.unused.length < 12
    · have hroom : b.unused.length / 6 - 1 = 0 := by omega
      simp [h, hroom, Buffer.filledWith_nil]
    · have hlength : (b.filledWith (addressBytes a)).unused.length = b.unused.length - 6 :=
        Buffer.length_unused_filledWith b _
      have hroom : b.unused.length / 6 - 1 = (b.unused.length - 6) / 6 - 1 + 1 := by omega
      rw [if_neg h, writeAddress_of_le a (by omega)]
      simp only [ih, hlength, hroom, List.take_succ_cons, List.drop_succ_cons,
        List.flatMap_cons, List.length_cons, Nat.add_lt_add_iff_right, Buffer.filledWith_append]

theorem encodeNext_of_lt (servers : List SocketAddressV4) {buffer : List UInt8}
    (h : buffer.length < 6) : encodeNext servers buffer = (.error .endOfBuffer, servers) := by
  rw [encodeNext, Writer.bytes_of_lt h]

/-- A call with room for the header does not fail, and its page can be read. -/
theorem encodeNext_of_le (servers : List SocketAddressV4) {buffer : List UInt8}
    (h : 6 ≤ buffer.length) :
    ∃ filled, encodeNext servers buffer =
        (.ok (decide (servers.length < capacity buffer.length), filled),
          servers.drop (capacity buffer.length)) ∧
      decode filled.bytes = .ok (nextPage servers buffer.length) := by
  have hroom : ((Buffer.ofList buffer).filledWith start).unused.length = buffer.length - 6 :=
    Buffer.length_unused_filledWith _ _
  have hcapacity : (buffer.length - 6) / 6 - 1 = capacity buffer.length := by
    rw [capacity]
    omega
  have hstart : start.length ≤ (Buffer.ofList buffer).unused.length := h
  rw [encodeNext, Writer.bytes_of_le hstart]
  simp only [takeAddresses_eq, hroom, hcapacity, ← Buffer.filledWith_append]
  by_cases hend : servers.length < capacity buffer.length
  · have htake : servers.take (capacity buffer.length) = servers :=
      List.take_of_length_le (Nat.le_of_lt hend)
    have hlength := length_datagram servers
    have hlast : 6 ≤ ((Buffer.ofList buffer).filledWith (datagram servers)).unused.length := by
      rw [Buffer.length_unused_filledWith, hlength]
      simp only [Buffer.ofList]
      rw [capacity] at hend
      omega
    rw [htake, decide_eq_true hend, if_pos rfl, ← datagram, writeAddress_of_le sentinel hlast,
      ← Buffer.filledWith_append]
    refine ⟨_, rfl, ?_⟩
    rw [Writer.bytes_filled, nextPage, if_pos hend, ← datagram_concat, decode_datagram]
  · refine ⟨_, by rw [decide_eq_false hend]; rfl, ?_⟩
    rw [Writer.bytes_filled, nextPage, if_neg hend]
    exact decode_datagram _

/-! ## Successive calls -/

/-- The answers to calls one after another, into the given buffers. -/
def answers : List SocketAddressV4 → List (List UInt8) →
    List (Except CodecError (Bool × Writer.Filled))
  | _, [] => []
  | servers, buffer :: buffers =>
    (encodeNext servers buffer).1 :: answers (encodeNext servers buffer).2 buffers

/-- What is left of the list after these calls. -/
def left (servers : List SocketAddressV4) (buffers : List (List UInt8)) : List SocketAddressV4 :=
  buffers.foldl (fun rest buffer => (encodeNext rest buffer).2) servers

/-- The addresses of the page that a call has written. -/
def addressesOf : Except CodecError (Bool × Writer.Filled) → List SocketAddressV4
  | .ok (_, filled) => (decode filled.bytes).toOption.getD []
  | .error _ => []

/-- The addresses of all pages that are written by some calls, one after another. -/
def sent (servers : List SocketAddressV4) (buffers : List (List UInt8)) : List SocketAddressV4 :=
  (answers servers buffers).flatMap addressesOf

/-- Whether one of the calls has written the last page. -/
def HasEnded (servers : List SocketAddressV4) (buffers : List (List UInt8)) : Prop :=
  ∃ filled, .ok (true, filled) ∈ answers servers buffers

variable {servers : List SocketAddressV4} {buffer : List UInt8} {buffers : List (List UInt8)}

/-- A call that does not write the last page moves addresses from the list to the page; and if there
is room for an address besides the sentinel, it moves one. -/
theorem encodeNext_not_end (h : ∀ filled, (encodeNext servers buffer).1 ≠ .ok (true, filled)) :
    addressesOf (encodeNext servers buffer).1 ++ (encodeNext servers buffer).2 = servers ∧
      (18 ≤ buffer.length → (encodeNext servers buffer).2.length < servers.length) := by
  by_cases hsize : buffer.length < 6
  · rw [encodeNext_of_lt servers hsize]
    exact ⟨rfl, fun hroom => absurd hsize (by omega)⟩
  · obtain ⟨filled, hnext, hdecode⟩ := encodeNext_of_le servers (Nat.not_lt.1 hsize)
    rw [hnext] at h ⊢
    have hend : ¬ servers.length < capacity buffer.length := fun hlt =>
      h filled (by rw [decide_eq_true hlt])
    refine ⟨?_, fun hroom => ?_⟩
    · simp only [addressesOf, hdecode, Except.toOption, Option.getD_some, nextPage, if_neg hend,
        List.take_append_drop]
    · have hcapacity : 0 < capacity buffer.length := by
        rw [capacity]
        omega
      rw [List.length_drop]
      omega

theorem not_hasEnded_cons (h : ¬ HasEnded servers (buffer :: buffers)) :
    (∀ filled, (encodeNext servers buffer).1 ≠ .ok (true, filled)) ∧
      ¬ HasEnded (encodeNext servers buffer).2 buffers := by
  constructor
  · intro filled heq
    refine h ⟨filled, ?_⟩
    rw [answers, heq]
    exact List.mem_cons_self
  · rintro ⟨filled, hmem⟩
    exact h ⟨filled, List.mem_cons_of_mem _ hmem⟩

/-- As long as the last page is not written, the pages and what is left are the whole list. -/
theorem sent_append_left (h : ¬ HasEnded servers buffers) :
    sent servers buffers ++ left servers buffers = servers := by
  induction buffers generalizing servers with
  | nil => rfl
  | cons buffer buffers ih =>
    obtain ⟨hfirst, hrest⟩ := not_hasEnded_cons h
    calc sent servers (buffer :: buffers) ++ left servers (buffer :: buffers)
        = addressesOf (encodeNext servers buffer).1 ++
            (sent (encodeNext servers buffer).2 buffers ++
              left (encodeNext servers buffer).2 buffers) := List.append_assoc _ _ _
      _ = addressesOf (encodeNext servers buffer).1 ++ (encodeNext servers buffer).2 := by
        rw [ih hrest]
      _ = servers := (encodeNext_not_end hfirst).1

/-- As long as the last page is not written, every call with room for an address takes one. -/
theorem countP_le_of_not_hasEnded (h : ¬ HasEnded servers buffers) :
    buffers.countP (18 ≤ ·.length) ≤ servers.length := by
  induction buffers generalizing servers with
  | nil => exact Nat.zero_le _
  | cons buffer buffers ih =>
    obtain ⟨hfirst, hrest⟩ := not_hasEnded_cons h
    obtain ⟨hmoved, hroom⟩ := encodeNext_not_end hfirst
    have hle := ih hrest
    rw [List.countP_cons]
    split
    · next hlarge =>
      have hlt := hroom (of_decide_eq_true hlarge)
      omega
    · have hlength := congrArg List.length hmoved
      rw [List.length_append] at hlength
      omega

/-- Two addresses in buffers with room for no header, for no address, for one and for one, and then
the last page. -/
example :
    (answers [⟨⟨10, 0, 0, 1⟩, 27015⟩, ⟨⟨10, 0, 0, 2⟩, 27015⟩]
      ([5, 17, 23, 18, 18].map fun n => List.replicate n 0)).map addressesOf =
    [[], [], [⟨⟨10, 0, 0, 1⟩, 27015⟩], [⟨⟨10, 0, 0, 2⟩, 27015⟩], [sentinel]] := by
  decide +kernel

theorem left_concat (servers : List SocketAddressV4) (buffers : List (List UInt8))
    (buffer : List UInt8) :
    left servers (buffers ++ [buffer]) = (encodeNext (left servers buffers) buffer).2 := by
  rw [left, List.foldl_concat]
  rfl

/-- One more call after some others. Without room for the header it fails and takes nothing off the
list; otherwise it writes a page that can be read. Up to the last page, all pages together are the
list and the sentinel, and before that they are the front of the list. A call with room for an
address besides the sentinel writes one or ends the list, so there are not many of them. -/
theorem pages_of_calls (servers : List SocketAddressV4) (buffers : List (List UInt8))
    (buffer : List UInt8) :
    (buffer.length < 6 → encode (left servers buffers) buffer = .error .endOfBuffer ∧
      left servers (buffers ++ [buffer]) = left servers buffers) ∧
    (6 ≤ buffer.length → ∃ isEnd filled page,
      encode (left servers buffers) buffer =
        .ok ((left servers (buffers ++ [buffer]), isEnd), filled) ∧
      decode filled.bytes = .ok page ∧
      (18 ≤ buffer.length → isEnd = true ∨ page ≠ []) ∧
      (¬ HasEnded servers buffers →
        if isEnd then sent servers buffers ++ page = servers ++ [sentinel]
        else sent servers buffers ++ page <+: servers)) ∧
    (¬ HasEnded servers buffers → sent servers buffers <+: servers) ∧
    (servers.length < buffers.countP (18 ≤ ·.length) → HasEnded servers buffers) := by
  rw [left_concat]
  refine ⟨fun hsize => ?_, fun hsize => ?_, fun h => ⟨_, sent_append_left h⟩, fun hmany => ?_⟩
  · rw [encode_eq_encodeNext, encodeNext_of_lt _ hsize]
    exact ⟨rfl, rfl⟩
  · obtain ⟨filled, hnext, hdecode⟩ := encodeNext_of_le (left servers buffers) hsize
    rw [encode_eq_encodeNext, hnext]
    refine ⟨_, filled, _, rfl, hdecode, fun hroom => .inr (nextPage_ne_nil _ hroom), fun h => ?_⟩
    have hwhole := sent_append_left h
    by_cases hend : (left servers buffers).length < capacity buffer.length
    · rw [decide_eq_true hend, if_pos rfl, nextPage, if_pos hend, ← List.append_assoc, hwhole]
    · rw [decide_eq_false hend, if_neg Bool.false_ne_true, nextPage, if_neg hend]
      have hfront := (List.prefix_append_right_inj (sent servers buffers)).2
        (List.take_prefix (capacity buffer.length) (left servers buffers))
      rwa [hwhole] at hfront
  · by_contra h
    exact absurd hmany (Nat.not_lt.2 (countP_le_of_not_hasEnded h))

end Page

end GameQuery
