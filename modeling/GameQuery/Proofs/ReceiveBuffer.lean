import GameQuery.Proofs.ReplyOrigin

namespace GameQuery

/-!
# Datagrams that are received whole

A channel sees of the datagram at the head of its queue only what its buffer holds, so a full
buffer may mean that there is more. The buffer is then doubled, up to the size of the largest
datagram, and the channel looks again. `Grows` is what becomes of the buffer in one receive; since
it ends with a buffer that holds the datagram, successive receives give the datagrams as they are.
-/

namespace BufferSize

/-- A buffer is doubled some number of times: as long as a datagram fills it, and as long as it is
not the largest one. -/
structure Grows (datagram : List UInt8) (passes : Nat) (b c : BufferSize) : Prop where
  passes_le : passes ≤ 16
  bytes : c.bytes = min (2 ^ passes * b.bytes) maxDatagramSize
  full : ∀ i < passes, 2 ^ i * b.bytes ≤ datagram.length ∧ 2 ^ i * b.bytes < maxDatagramSize
  room : datagram.length < c.bytes ∨ c.bytes = maxDatagramSize

variable {b c : BufferSize} {datagram : List UInt8} {passes : Nat}

theorem Grows.bytes_le (h : Grows datagram passes b c) : b.bytes ≤ c.bytes := by
  have hmax := b.le_max
  have hpos : b.bytes ≤ 2 ^ passes * b.bytes := Nat.le_mul_of_pos_left _ (Nat.two_pow_pos passes)
  rw [h.bytes]
  omega

/-- The buffer in front of the last doubling is not the largest, which bounds their number. -/
theorem passes_le_of_full
    (h : ∀ i < passes, 2 ^ i * b.bytes ≤ datagram.length ∧ 2 ^ i * b.bytes < maxDatagramSize) :
    passes ≤ 16 := by
  cases passes with
  | zero => exact Nat.zero_le _
  | succ last =>
    have hlast := (h last (Nat.lt_succ_self last)).2
    have hle : 2 ^ last ≤ 2 ^ last * b.bytes := Nat.le_mul_of_pos_right _ b.pos
    have hpow : 2 ^ last < 2 ^ 16 := by
      simp only [maxDatagramSize] at hlast
      omega
    exact (Nat.pow_lt_pow_iff_right (by decide)).1 hpow

theorem grows_zero (h : (datagram.take b.bytes).length < b.bytes ∨ maxDatagramSize ≤ b.bytes) :
    Grows datagram 0 b b where
  passes_le := Nat.zero_le _
  bytes := by
    have := b.le_max
    omega
  full := nofun
  room := by
    have := b.le_max
    rw [List.length_take] at h
    omega

theorem Grows.succ (hfull : b.bytes ≤ datagram.length) (hmax : b.bytes < maxDatagramSize)
    (h : Grows datagram passes b.double c) : Grows datagram (passes + 1) b c := by
  have hdouble : b.double.bytes = min (2 * b.bytes) maxDatagramSize := rfl
  have hpow : ∀ i, 2 ^ (i + 1) * b.bytes = 2 ^ i * (2 * b.bytes) := fun i => by
    rw [Nat.pow_succ, Nat.mul_assoc]
  have hall : ∀ i < passes + 1,
      2 ^ i * b.bytes ≤ datagram.length ∧ 2 ^ i * b.bytes < maxDatagramSize := by
    intro i hi
    cases i with
    | zero => exact ⟨by omega, by omega⟩
    | succ i =>
      obtain ⟨hle, hlt⟩ := h.full i (by omega)
      -- A buffer that is doubled once more has not been cut to the largest size.
      have hge : b.double.bytes ≤ 2 ^ i * b.double.bytes :=
        Nat.le_mul_of_pos_left _ (Nat.two_pow_pos i)
      have hwhole : b.double.bytes = 2 * b.bytes := by omega
      rw [hpow, ← hwhole]
      exact ⟨hle, hlt⟩
  refine ⟨passes_le_of_full hall, ?_, hall, h.room⟩
  have hge : maxDatagramSize ≤ 2 ^ passes * maxDatagramSize :=
    Nat.le_mul_of_pos_left _ (Nat.two_pow_pos passes)
  rw [h.bytes, hpow, hdouble]
  rcases Nat.le_total (2 * b.bytes) maxDatagramSize with hle | hle
  · rw [Nat.min_eq_left hle]
  · have hlarge : 2 ^ passes * maxDatagramSize ≤ 2 ^ passes * (2 * b.bytes) :=
      Nat.mul_le_mul_left _ hle
    rw [Nat.min_eq_right hle]
    omega

theorem fit_grows (b : BufferSize) (datagram : List UInt8) :
    ∃ passes, Grows datagram passes b (b.fit datagram) := by
  fun_induction fit b datagram with
  | case1 b h => exact ⟨0, grows_zero h⟩
  | case2 b h ih =>
    obtain ⟨passes, hgrows⟩ := ih
    rw [List.length_take] at h
    exact ⟨passes + 1, hgrows.succ (by omega) (by omega)⟩

end BufferSize

open Dialog

namespace DatagramChannel

variable {peer : SocketAddress} {world : World} {history : List Event} {c : DatagramChannel}
  {n : Network}

/-- Every call takes the datagram at the head of the queue and leaves those behind it. -/
theorem receives_of_waiting {datagrams later : List (List UInt8)}
    (hsize : ∀ datagram ∈ datagrams, datagram.length ≤ maxDatagramSize)
    {timeouts : List (Option Nat)} (hcalls : timeouts.length = datagrams.length)
    (h : Waiting peer world history (datagrams ++ later) (c.socket, n)) :
    ∃ v, timeouts.mapM receive (c, n) = .ok datagrams v ∧
      Waiting peer world (receptions peer datagrams ++ history) later (v.1.socket, v.2) ∧
      v.1.buffer = datagrams.foldl BufferSize.fit c.buffer := by
  induction datagrams generalizing timeouts history c n with
  | nil =>
    rw [List.eq_nil_of_length_eq_zero hcalls]
    exact ⟨(c, n), rfl, h, rfl⟩
  | cons datagram rest ih =>
    obtain ⟨timeout, others, rfl⟩ := List.exists_cons_of_length_eq_add_one hcalls
    obtain ⟨hfirst, hrest⟩ := List.forall_mem_cons.1 hsize
    obtain ⟨u, hreceive, hu, hbuffer⟩ := receive_take_of_waiting timeout h
    rw [List.take_of_length_le hfirst] at hreceive
    obtain ⟨v, hothers, hv, hlast⟩ := ih hrest (Nat.succ.inj hcalls) hu
    refine ⟨v, ?_, ?_, ?_⟩
    · rw [List.mapM_cons, bind_of_ok hreceive, bind_of_ok hothers]
      rfl
    · simpa [receptions] using hv
    · rw [hlast, hbuffer]
      rfl

/-- A channel with datagrams in its queue, none larger than a datagram can be, gives them as they
are, in their order and one for each call, whatever the size of its buffer is. From one call to the
next the buffer is doubled at most sixteen times: until it has room or is the largest there is. -/
theorem receives_whole_datagrams {datagrams : List (List UInt8)}
    (h : Waiting peer world history datagrams (c.socket, n))
    (hsize : ∀ datagram ∈ datagrams, datagram.length ≤ maxDatagramSize)
    {timeouts : List (Option Nat)} (hcalls : timeouts.length = datagrams.length) :
    ∃ buffers : Nat → BufferSize, buffers 0 = c.buffer ∧
      (∀ k ≤ datagrams.length, ∃ v,
        (timeouts.take k).mapM receive (c, n) = .ok (datagrams.take k) v ∧
        Waiting peer world (receptions peer (datagrams.take k) ++ history) (datagrams.drop k)
          (v.1.socket, v.2) ∧
        v.1.buffer = buffers k) ∧
      ∀ k (hk : k < datagrams.length),
        (∃ passes, BufferSize.Grows datagrams[k] passes (buffers k) (buffers (k + 1))) ∧
        (buffers k).bytes ≤ (buffers (k + 1)).bytes ∧
        (buffers (k + 1)).bytes ≤ maxDatagramSize := by
  refine ⟨fun k => (datagrams.take k).foldl BufferSize.fit c.buffer, rfl, ?_, ?_⟩
  · intro k hk
    have hfront : ∀ datagram ∈ datagrams.take k, datagram.length ≤ maxDatagramSize :=
      fun datagram hd => hsize datagram (List.mem_of_mem_take hd)
    have hcount : (timeouts.take k).length = (datagrams.take k).length := by
      rw [List.length_take, List.length_take, hcalls]
    rw [← List.take_append_drop k datagrams] at h
    exact receives_of_waiting hfront hcount h
  · intro k hk
    have hnext : (datagrams.take (k + 1)).foldl BufferSize.fit c.buffer =
        ((datagrams.take k).foldl BufferSize.fit c.buffer).fit datagrams[k] := by
      rw [List.take_succ_eq_append_getElem hk, List.foldl_append]
      rfl
    obtain ⟨passes, hgrows⟩ :=
      BufferSize.fit_grows ((datagrams.take k).foldl BufferSize.fit c.buffer) datagrams[k]
    rw [← hnext] at hgrows
    exact ⟨⟨passes, hgrows⟩, hgrows.bytes_le, BufferSize.le_max _⟩

section Burst

def burstPeer : SocketAddress := .v4 ⟨⟨192, 0, 2, 1⟩, gamePort⟩

/-- Datagrams that fill a small buffer, make it grow and leave it empty. -/
def burst : List (List UInt8) := [[1, 2], [3, 4, 5, 6, 7, 8, 9], [], [10]]

/-- A world in which everything is answered with the same datagrams. -/
def burstWorld : World where
  connect _ _ _ := none
  react _ _ _ _ := .ok (.delay 20 :: burst.map .data)
  resolve _ := none
  sessionId _ := 0

theorem receives_whole_datagrams_burst : ∃ c w u,
    connect burstPeer 2 ((), { world := burstWorld }) = .ok c w ∧
    send [0] (c, w.2) = .ok () u ∧
    Waiting burstPeer burstWorld u.2.history burst (u.1.socket, u.2) ∧
    (∀ datagram ∈ burst, datagram.length ≤ maxDatagramSize) ∧
    ∃ v, [none, some 5, none, none].mapM receive u = .ok burst v := by
  have hsize : ∀ datagram ∈ burst, datagram.length ≤ maxDatagramSize := by decide
  have hwaiting : Waiting burstPeer burstWorld
      [.sent .udp burstPeer [0], .connected .udp burstPeer none] burst
      ({ transport := .udp, peer := burstPeer, queue := .delay 20 :: burst.map .data },
        { world := burstWorld
          history := [.sent .udp burstPeer [0], .connected .udp burstPeer none] }) :=
    ⟨rfl, rfl, rfl, rfl, rfl⟩
  have hcount : ([none, some 5, none, none] : List (Option Nat)).length = burst.length := rfl
  obtain ⟨buffers, -, hcalls, -⟩ := receives_whole_datagrams
    (c := { socket := _, buffer := .clamp 2 }) hwaiting hsize hcount
  obtain ⟨v, hreceive, -⟩ := hcalls 4 (Nat.le_refl 4)
  exact ⟨_, _, _, rfl, rfl, hwaiting, hsize, v, hreceive⟩

end Burst

end DatagramChannel

end GameQuery
