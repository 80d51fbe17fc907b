import GameQuery.Proofs.CommandAnswer
import GameQuery.Proofs.ReaderInversion

namespace GameQuery

/-!
# Challenge numbers in requests

A request for information, players or rules may carry a challenge number. Whoever reads such a
request finds the number that the client has put there; a line for the console carries none of this
kind.
-/

namespace Request

/-- The byte behind the header. -/
def kind : Request → UInt8
  | info _ => 0x54
  | players _ => 0x55
  | rules _ => 0x56
  | console .challenge => 0x63
  | console _ => 0x72

/-- The challenge number in a request. -/
def number? : Request → Option Int32
  | info r => r.challenge
  | players r => some r.challenge
  | rules r => some r.challenge
  | console _ => none

def bytes : Request → List UInt8
  | info r => InfoRequest.start ++ r.challenge.elim [] fun n => leBytes 4 n.toUInt32.toNat
  | players r => PlayersRequest.start ++ leBytes 4 r.challenge.toUInt32.toNat
  | rules r => RulesRequest.start ++ leBytes 4 r.challenge.toUInt32.toNat
  | console line => line.bytes

theorem write_eq (r : Request) : r.write = Writer.bytes r.bytes := by
  cases r with
  | info r =>
    obtain ⟨_ | number⟩ := r
    · exact Writer.bytes_bind_bytes InfoRequest.start []
    · exact Writer.bytes_bind_bytes InfoRequest.start _
  | players r => exact Writer.bytes_bind_bytes PlayersRequest.start _
  | rules r => exact Writer.bytes_bind_bytes RulesRequest.start _
  | console line => exact line.write_eq

theorem exists_bytes_eq (r : Request) : ∃ rest, r.bytes = requestStart ++ r.kind :: rest := by
  cases r with
  | info r => exact ⟨_, rfl⟩
  | players r => exact ⟨_, rfl⟩
  | rules r => exact ⟨_, rfl⟩
  | console line =>
    cases line with
    | challenge => exact ⟨_, congrArg (requestStart ++ ·) ConsoleLine.encode_challengeText⟩
    | exec number password command =>
      simp only [bytes, ConsoleLine.bytes, ConsoleLine.commandBytes,
        ConsoleLine.encode_commandStart]
      exact ⟨_, rfl⟩
    | more number password =>
      simp only [bytes, ConsoleLine.bytes, ConsoleLine.commandBytes,
        ConsoleLine.encode_commandStart]
      exact ⟨_, rfl⟩

theorem kind_eq_of_bytes_eq {q r : Request} (h : q.bytes = r.bytes) : q.kind = r.kind := by
  obtain ⟨s, hs⟩ := q.exists_bytes_eq
  obtain ⟨t, ht⟩ := r.exists_bytes_eq
  rw [hs, ht, List.append_cancel_left_eq] at h
  exact (List.cons.inj h).1

theorem kind_console (line : ConsoleLine) : (console line).kind ∈ [0x63, 0x72] := by
  cases line with
  | challenge => exact List.mem_cons_self
  | exec | more => exact List.mem_cons_of_mem _ List.mem_cons_self

theorem exists_info {r : Request} (h : r.kind = 0x54) : ∃ request, r = info request := by
  cases r with
  | info request => exact ⟨request, rfl⟩
  | players | rules => exact absurd h (by simp [kind])
  | console line => exact absurd (kind_console line) (by rw [h]; decide)

theorem exists_players {r : Request} (h : r.kind = 0x55) : ∃ request, r = players request := by
  cases r with
  | players request => exact ⟨request, rfl⟩
  | info | rules => exact absurd h (by simp [kind])
  | console line => exact absurd (kind_console line) (by rw [h]; decide)

theorem exists_rules {r : Request} (h : r.kind = 0x56) : ∃ request, r = rules request := by
  cases r with
  | rules request => exact ⟨request, rfl⟩
  | info | players => exact absurd h (by simp [kind])
  | console line => exact absurd (kind_console line) (by rw [h]; decide)

theorem exists_console {r : Request} (h : r.kind ∈ [0x63, 0x72]) : ∃ line, r = console line := by
  cases r with
  | console line => exact ⟨line, rfl⟩
  | info | players | rules => exact absurd h (by simp [kind])

/-- Every request but a line for the console has room. -/
theorem length_bytes_le {r : Request} (hr : ∀ line, r ≠ .console line) :
    r.bytes.length ≤ requestRoom := by
  have hinfo : InfoRequest.start.length = 25 := by decide
  cases r with
  | info r =>
    obtain ⟨_ | number⟩ := r
    · simp [bytes, hinfo, requestRoom]
    · simp [bytes, hinfo, requestRoom]
  | players r => simp [bytes, PlayersRequest.start, requestStart, requestRoom]
  | rules r => simp [bytes, RulesRequest.start, requestStart, requestRoom]
  | console line => exact absurd rfl (hr line)

end Request

/-- A request for information, players or rules with a challenge number. -/
def CarriesNumber (bytes : List UInt8) (number : Int32) : Prop :=
  InfoRequest.decode bytes = .ok { challenge := some number } ∨
    PlayersRequest.decode bytes = .ok { challenge := number } ∨
    RulesRequest.decode bytes = .ok { challenge := number }

section Decode

open Reader

variable {s : List UInt8}

theorem readChallenge_eq_ok_iff {start rest : List UInt8} {number : Int32} :
    readChallenge start s = .ok number rest ↔
      s = start ++ leBytes 4 number.toUInt32.toNat ∧ rest = [] := by
  simp only [readChallenge, bind_eq_ok_iff, literal_eq_ok_iff, i32_eq_ok_iff, finish_eq_ok_iff,
    pure_eq_ok_iff]
  constructor
  · rintro ⟨_, _, rfl, _, _, rfl, _, _, ⟨rfl, rfl⟩, rfl, rfl⟩
    exact ⟨by rw [List.append_nil], rfl⟩
  · rintro ⟨rfl, rfl⟩
    exact ⟨(), _, rfl, number, [], (List.append_nil _).symm, (), _, ⟨rfl, rfl⟩, rfl, rfl⟩

theorem InfoRequest.decode_eq_ok_iff {r : InfoRequest} :
    decode s = .ok r ↔ s = (Request.info r).bytes := by
  simp only [decode, Reader.decode_eq_ok_iff, read, bind_eq_ok_iff, literal_eq_ok_iff,
    atEnd_eq_ok_iff]
  constructor
  · rintro ⟨rest, _, _, rfl, _, t, ⟨rfl, rfl⟩, h⟩
    split at h
    · next hend =>
      obtain ⟨rfl, -⟩ := pure_eq_ok_iff.1 h
      rw [List.isEmpty_iff.1 hend]
      rfl
    · simp only [bind_eq_ok_iff, i32_eq_ok_iff, finish_eq_ok_iff, pure_eq_ok_iff] at h
      obtain ⟨number, _, rfl, _, _, ⟨rfl, rfl⟩, rfl, -⟩ := h
      rw [List.append_nil]
      rfl
  · rintro rfl
    obtain ⟨_ | number⟩ := r
    · exact ⟨[], (), [], rfl, true, [], ⟨rfl, rfl⟩, rfl⟩
    · refine ⟨[], (), _, rfl, false, _, ⟨rfl, rfl⟩, ?_⟩
      simp only [Bool.false_eq_true, if_false, bind_eq_ok_iff, i32_eq_ok_iff, finish_eq_ok_iff,
        pure_eq_ok_iff]
      exact ⟨number, [], (List.append_nil _).symm, (), _, ⟨rfl, rfl⟩, rfl, rfl⟩

/-- For a request that is its challenge number. -/
theorem decode_map_readChallenge_iff {α : Type} {start : List UInt8} {ofNumber : Int32 → α}
    {number : α → Int32} (hnumber : ∀ n, number (ofNumber n) = n)
    (hof : ∀ a, ofNumber (number a) = a) {a : α} :
    Reader.decode (ofNumber <$> readChallenge start) s = .ok a ↔
      s = start ++ leBytes 4 (number a).toUInt32.toNat := by
  simp only [Reader.decode_eq_ok_iff, map_eq_ok_iff, readChallenge_eq_ok_iff]
  constructor
  · rintro ⟨_, n, ⟨rfl, rfl⟩, rfl⟩
    rw [hnumber]
  · intro hs
    exact ⟨[], number a, ⟨hs, rfl⟩, hof a⟩

theorem PlayersRequest.decode_eq_ok_iff {r : PlayersRequest} :
    decode s = .ok r ↔ s = (Request.players r).bytes :=
  decode_map_readChallenge_iff (fun _ => rfl) fun _ => rfl

theorem RulesRequest.decode_eq_ok_iff {r : RulesRequest} :
    decode s = .ok r ↔ s = (Request.rules r).bytes :=
  decode_map_readChallenge_iff (fun _ => rfl) fun _ => rfl

end Decode

/-- The number that is read is the number that has been put there. -/
theorem Request.number?_of_carriesNumber {r : Request} {number : Int32}
    (h : CarriesNumber r.bytes number) : r.number? = some number := by
  rcases h with h | h | h
  · obtain ⟨request, rfl⟩ := exists_info (kind_eq_of_bytes_eq (InfoRequest.decode_eq_ok_iff.1 h))
    cases h.symm.trans (InfoRequest.decode_eq_ok_iff.2 rfl)
    rfl
  · obtain ⟨request, rfl⟩ :=
      exists_players (kind_eq_of_bytes_eq (PlayersRequest.decode_eq_ok_iff.1 h))
    cases h.symm.trans (PlayersRequest.decode_eq_ok_iff.2 rfl)
    rfl
  · obtain ⟨request, rfl⟩ := exists_rules (kind_eq_of_bytes_eq (RulesRequest.decode_eq_ok_iff.1 h))
    cases h.symm.trans (RulesRequest.decode_eq_ok_iff.2 rfl)
    rfl

end GameQuery
