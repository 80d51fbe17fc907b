import GameQuery.Proofs.ReaderInversion
import GameQuery.Number.Single

namespace GameQuery

/-!
# Items at the front of the bytes

An item is what one read operation takes: some bytes, a number, a text, or a fixed start. It is
read together with all the bytes that spell it, the NUL behind a text among them. A failure leaves
every byte in place, also that of a read which has gone over its bytes before it refuses them.
-/

namespace Reader

variable {α β : Type} {r : Reader α} {s rest : List UInt8} {e : CodecError}

/-! ## Failures -/

theorem bind_apply_of_ok {a : α} (h : r s = .ok a rest) (k : α → Reader β) :
    (r >>= k) s = k a rest := by
  simp only [bind, EStateM.bind, h]

theorem bind_apply_of_error (h : r s = .error e rest) (k : α → Reader β) :
    (r >>= k) s = .error e rest := by
  simp only [bind, EStateM.bind, h]

theorem bind_eq_error_iff {k : α → Reader β} :
    (r >>= k) s = .error e rest ↔
      r s = .error e rest ∨ ∃ a t, r s = .ok a t ∧ k a t = .error e rest := by
  simp only [bind, EStateM.bind]
  cases r s <;> simp

theorem map_eq_error_iff {f : α → β} : (f <$> r) s = .error e rest ↔ r s = .error e rest := by
  simp only [Functor.map, EStateM.map]
  cases r s <;> simp

theorem bytes_eq_error_iff {n : Nat} :
    bytes n s = .error e rest ↔ rest = s ∧ e = .endOfBuffer ∧ s.length < n := by
  rw [bytes, splitOff_eq]
  by_cases hn : n ≤ s.length
  · simp [hn]
  · simp [hn, Nat.lt_of_not_le hn, and_comm, eq_comm]

theorem number_eq_error_iff {n : Nat} :
    number n s = .error e rest ↔ rest = s ∧ e = .endOfBuffer ∧ s.length < n :=
  map_eq_error_iff.trans bytes_eq_error_iff

theorem untilNul_eq_error_iff :
    untilNul s = .error e rest ↔ rest = s ∧ e = .endOfBuffer ∧ 0 ∉ s := by
  by_cases hs : 0 ∈ s
  · obtain ⟨head, tail, rfl, hhead⟩ := List.eq_append_cons_of_mem hs
    simp [untilNul, splitAtNul_append hhead]
  · simp [untilNul, splitAtNul_of_notMem hs, hs, and_comm, eq_comm]

/-! ## Reads of several steps -/

/-- Runs `r` on a copy of the bytes, which replaces them only if `r` does not fail. -/
def whole (r : Reader α) : Reader α := fun s =>
  match r s with
  | .ok a rest => .ok a rest
  | .error e _ => .error e s

theorem whole_eq_error_iff : whole r s = .error e rest ↔ rest = s ∧ ∃ t, r s = .error e t := by
  rw [whole]
  cases r s <;> simp [and_comm, eq_comm]

/-- The text that `raw` spells. -/
def utf8 (raw : List UInt8) : Reader String :=
  match Text.Utf8.decode? raw with
  | some text => pure text
  | none => throw .badText

theorem utf8_eq_error_iff {raw : List UInt8} :
    utf8 raw s = .error e rest ↔ rest = s ∧ e = .badText ∧ Text.Utf8.decode? raw = none := by
  rw [utf8]
  cases Text.Utf8.decode? raw with
  | none =>
    constructor
    · intro h
      cases h
      exact ⟨rfl, rfl, rfl⟩
    · rintro ⟨rfl, rfl, -⟩
      rfl
  | some text =>
    constructor
    · intro h
      cases h
    · rintro ⟨-, -, h⟩
      cases h

/-- What is no text is found only after the bytes have been taken, from the copy. -/
theorem whole_utf8_eq_error_iff {r : Reader (List UInt8)} :
    whole (r >>= utf8) s = .error e rest ↔ rest = s ∧ ((∃ t, r s = .error e t) ∨
      e = .badText ∧ ∃ raw t, r s = .ok raw t ∧ Text.Utf8.decode? raw = none) := by
  rw [whole_eq_error_iff]
  simp only [bind_eq_error_iff, utf8_eq_error_iff]
  constructor
  · rintro ⟨hrest, t, h | ⟨raw, t, hraw, -, he, hdecode⟩⟩
    · exact ⟨hrest, .inl ⟨t, h⟩⟩
    · exact ⟨hrest, .inr ⟨he, raw, t, hraw, hdecode⟩⟩
  · rintro ⟨hrest, ⟨t, h⟩ | ⟨he, raw, t, hraw, hdecode⟩⟩
    · exact ⟨hrest, t, .inl h⟩
    · exact ⟨hrest, t, .inr ⟨raw, t, hraw, rfl, he, hdecode⟩⟩

theorem text_eq_whole (n : Nat) : text n = whole (bytes n >>= utf8) := by
  funext s
  simp only [text, whole, bind, EStateM.bind, bytes, utf8]
  cases splitOff n s with
  | none => rfl
  | some parts =>
    dsimp only
    cases Text.Utf8.decode? parts.1 <;> rfl

theorem textUntilNul_eq_whole : textUntilNul = whole (untilNul >>= utf8) := by
  funext s
  simp only [textUntilNul, whole, bind, EStateM.bind, untilNul, utf8]
  cases splitAtNul s with
  | none => rfl
  | some parts =>
    dsimp only
    cases Text.Utf8.decode? parts.1 <;> rfl

theorem text_eq_error_iff {n : Nat} :
    text n s = .error e rest ↔ rest = s ∧ (e = .endOfBuffer ∧ s.length < n ∨
      e = .badText ∧ ∃ raw t, raw.length = n ∧ s = raw ++ t ∧ Text.Utf8.decode? raw = none) := by
  rw [text_eq_whole, whole_utf8_eq_error_iff]
  simp only [bytes_eq_error_iff, bytes_eq_ok_iff, exists_eq_left, and_assoc]

theorem textUntilNul_eq_error_iff :
    textUntilNul s = .error e rest ↔ rest = s ∧ (e = .endOfBuffer ∧ 0 ∉ s ∨
      e = .badText ∧ ∃ raw t, 0 ∉ raw ∧ s = raw ++ 0 :: t ∧ Text.Utf8.decode? raw = none) := by
  rw [textUntilNul_eq_whole, whole_utf8_eq_error_iff]
  simp only [untilNul_eq_error_iff, untilNul_eq_ok_iff, exists_eq_left, and_assoc]

theorem tryCatch_apply (k : CodecError → Reader α) :
    tryCatch r k s =
      match r s with
      | .ok a t => .ok a t
      | .error failure t => k failure t := by
  simp only [tryCatch, tryCatchThe, MonadExceptOf.tryCatch, EStateM.tryCatch]
  cases r s <;> rfl

/-- The end of the buffer may stand for the last NUL because the read that did not find the NUL
has taken nothing. -/
theorem lossyTextOrRest_eq_tryCatch :
    lossyTextOrRest = tryCatch lossyText fun _ => Text.Utf8.decodeLossy <$> Reader.rest := by
  funext s
  rw [tryCatch_apply, lossyTextOrRest, lossyText]
  simp only [Functor.map, EStateM.map, untilNul]
  cases splitAtNul s <;> rfl

/-- Passes over the next `n` bytes. -/
def skip (n : Nat) : Reader Unit := (fun _ => ()) <$> bytes n

theorem literal_eq_error_iff {start : List UInt8} :
    literal start s = .error e rest ↔ rest = s ∧ e = .literalMissing ∧ ¬ start <+: s := by
  by_cases hstart : start <+: s
  · rw [literal, if_pos (List.isPrefixOf_iff_prefix.2 hstart)]
    simp [hstart]
  · rw [literal, if_neg (mt List.isPrefixOf_iff_prefix.1 hstart)]
    constructor
    · intro h
      cases h
      exact ⟨rfl, rfl, hstart⟩
    · rintro ⟨rfl, rfl, -⟩
      rfl

theorem flag_eq_ok_iff {v : Bool} :
    flag s = .ok v rest ↔ ∃ b : UInt8, s = b :: rest ∧ decide (b ≠ 0) = v := by
  rw [flag, map_eq_ok_iff]
  simp only [u8_eq_ok_iff]

theorem u64_eq_ok_iff {v : UInt64} : u64 s = .ok v rest ↔ s = leBytes 8 v.toNat ++ rest :=
  word_eq_ok_iff UInt64.toNat_lt (fun _ => UInt64.ofNat_toNat)
    fun _ hm => UInt64.toNat_ofNat_of_lt' hm

theorem single_eq_ok_iff {v : Single} :
    (Single.mk <$> u32) s = .ok v rest ↔ s = leBytes 4 v.bits.toNat ++ rest := by
  rw [← u32_eq_ok_iff, map_eq_ok_iff]
  constructor
  · rintro ⟨bits, hbits, rfl⟩
    exact hbits
  · intro h
    exact ⟨v.bits, h, rfl⟩

/-! ## Items -/

/-- What one read operation takes. -/
inductive Item where
  | bytes (n : Nat)
  /-- Bytes as an array of their own. -/
  | array (n : Nat)
  | skip (n : Nat)
  | u8 | u16 | u32 | u64 | i32 | single | flag
  | text (n : Nat)
  | untilNul
  | textUntilNul
  | lossyText
  | literal (start : List UInt8)

namespace Item

abbrev Value : Item → Type
  | bytes _ | untilNul => List UInt8
  | array _ => Array UInt8
  | skip _ | literal _ => Unit
  | u8 => UInt8
  | u16 => UInt16
  | u32 => UInt32
  | u64 => UInt64
  | i32 => Int32
  | single => Single
  | flag => Bool
  | text _ | textUntilNul | lossyText => String

def read : (i : Item) → Reader i.Value
  | bytes n => Reader.bytes n
  | array n => List.toArray <$> Reader.bytes n
  | skip n => Reader.skip n
  | u8 => Reader.u8
  | u16 => Reader.u16
  | u32 => Reader.u32
  | u64 => Reader.u64
  | i32 => Reader.i32
  | single => Single.mk <$> Reader.u32
  | flag => Reader.flag
  | text n => Reader.text n
  | untilNul => Reader.untilNul
  | textUntilNul => Reader.textUntilNul
  | lossyText => Reader.lossyText
  | literal start => Reader.literal start

/-- The bytes `taken` are a value of the item and, where it has one, the NUL behind it. -/
def Spells : (i : Item) → (taken : List UInt8) → i.Value → Prop
  | bytes n, taken, v => taken.length = n ∧ taken = v
  | array n, taken, v => taken.length = n ∧ taken.toArray = v
  | skip n, taken, _ => taken.length = n
  | u8, taken, v => taken = [v]
  | u16, taken, v => taken = leBytes 2 v.toNat
  | u32, taken, v => taken = leBytes 4 v.toNat
  | u64, taken, v => taken = leBytes 8 v.toNat
  | i32, taken, v => taken = leBytes 4 v.toUInt32.toNat
  | single, taken, v => taken = leBytes 4 v.bits.toNat
  | flag, taken, v => ∃ b : UInt8, taken = [b] ∧ decide (b ≠ 0) = v
  | text n, taken, v => taken.length = n ∧ taken = Text.Utf8.encode v
  | untilNul, taken, v => 0 ∉ v ∧ taken = v ++ [0]
  | textUntilNul, taken, v => '\x00' ∉ v.toList ∧ taken = Text.Utf8.encode v ++ [0]
  | lossyText, taken, v => ∃ raw, 0 ∉ raw ∧ taken = raw ++ [0] ∧ Text.Utf8.decodeLossy raw = v
  | literal start, taken, _ => taken = start

/-- Why the bytes `s` do not start with the item. -/
def Refuses : Item → (s : List UInt8) → CodecError → Prop
  | bytes n, s, e | array n, s, e | skip n, s, e => e = .endOfBuffer ∧ s.length < n
  | u8, s, e | flag, s, e => e = .endOfBuffer ∧ s.length < 1
  | u16, s, e => e = .endOfBuffer ∧ s.length < 2
  | u32, s, e | i32, s, e | single, s, e => e = .endOfBuffer ∧ s.length < 4
  | u64, s, e => e = .endOfBuffer ∧ s.length < 8
  | untilNul, s, e | lossyText, s, e => e = .endOfBuffer ∧ 0 ∉ s
  | text n, s, e => e = .endOfBuffer ∧ s.length < n ∨
      e = .badText ∧ ∃ raw t, raw.length = n ∧ s = raw ++ t ∧ Text.Utf8.decode? raw = none
  | textUntilNul, s, e => e = .endOfBuffer ∧ 0 ∉ s ∨
      e = .badText ∧ ∃ raw t, 0 ∉ raw ∧ s = raw ++ 0 :: t ∧ Text.Utf8.decode? raw = none
  | literal start, s, e => e = .literalMissing ∧ ¬ start <+: s

theorem read_eq_ok_iff {i : Item} {v : i.Value} :
    i.read s = .ok v rest ↔ ∃ taken, s = taken ++ rest ∧ i.Spells taken v := by
  cases i with
  | bytes n => simp [read, Spells, bytes_eq_ok_iff, and_comm]
  | array n => simp [read, Spells, map_eq_ok_iff, bytes_eq_ok_iff, and_left_comm, and_assoc]
  | skip n => simp [read, Spells, Reader.skip, map_eq_ok_iff, bytes_eq_ok_iff, and_comm]
  | u8 => simp [read, Spells, u8_eq_ok_iff]
  | u16 => simp [read, Spells, u16_eq_ok_iff]
  | u32 => simp [read, Spells, u32_eq_ok_iff]
  | u64 => simp [read, Spells, u64_eq_ok_iff]
  | i32 => simp [read, Spells, i32_eq_ok_iff]
  | single => simp [read, Spells, single_eq_ok_iff]
  | flag => simpa [read, Spells] using flag_eq_ok_iff
  | text n => simp [read, Spells, text_eq_ok_iff, and_comm]
  | untilNul => simp [read, Spells, untilNul_eq_ok_iff, and_comm]
  | textUntilNul => simp [read, Spells, textUntilNul_eq_ok_iff, and_comm]
  | lossyText => simp [read, Spells, lossyText_eq_ok_iff, and_left_comm]
  | literal start => simp [read, Spells, literal_eq_ok_iff]

theorem read_eq_error_iff {i : Item} :
    i.read s = .error e rest ↔ rest = s ∧ i.Refuses s e := by
  cases i with
  | bytes n => exact bytes_eq_error_iff
  | array n => exact map_eq_error_iff.trans bytes_eq_error_iff
  | skip n => exact map_eq_error_iff.trans bytes_eq_error_iff
  | u8 => exact map_eq_error_iff.trans number_eq_error_iff
  | u16 => exact map_eq_error_iff.trans number_eq_error_iff
  | u32 => exact map_eq_error_iff.trans number_eq_error_iff
  | u64 => exact map_eq_error_iff.trans number_eq_error_iff
  | i32 => exact map_eq_error_iff.trans (map_eq_error_iff.trans number_eq_error_iff)
  | single => exact map_eq_error_iff.trans (map_eq_error_iff.trans number_eq_error_iff)
  | flag => exact map_eq_error_iff.trans (map_eq_error_iff.trans number_eq_error_iff)
  | text n => exact text_eq_error_iff
  | untilNul => exact untilNul_eq_error_iff
  | textUntilNul => exact textUntilNul_eq_error_iff
  | lossyText => exact map_eq_error_iff.trans untilNul_eq_error_iff
  | literal start => exact literal_eq_error_iff

theorem read_suffix {i : Item} {v : i.Value} (h : i.read s = .ok v rest) : rest <:+ s := by
  obtain ⟨taken, rfl, -⟩ := read_eq_ok_iff.1 h
  exact List.suffix_append taken rest

/-- No value of the item is spelled without a byte. -/
def TakesBytes (i : Item) : Prop := ∀ v, ¬ i.Spells [] v

/-- Only an item that asks for no byte can be read without one. -/
theorem takesBytes_iff {i : Item} :
    i.TakesBytes ↔ i ∉ [bytes 0, array 0, skip 0, text 0, literal []] := by
  cases i with
  | bytes n => simp [TakesBytes, Spells, eq_comm]
  | array n => simp [TakesBytes, Spells, eq_comm]
  | skip n => simp [TakesBytes, Spells, eq_comm]
  | text n =>
    have hmem : text n ∈ [bytes 0, array 0, skip 0, text 0, literal []] ↔ n = 0 := by simp
    rw [hmem]
    constructor
    · intro h hn
      exact h "" ⟨hn.symm, rfl⟩
    · rintro hn v ⟨hlength, -⟩
      exact hn hlength.symm
  | literal start => simp [TakesBytes, Spells, eq_comm]
  | flag => simp [TakesBytes, Spells]
  | lossyText => simp [TakesBytes, Spells]
  | u8 => simp [TakesBytes, Spells]
  | u16 => simp [TakesBytes, Spells, leBytes]
  | u32 => simp [TakesBytes, Spells, leBytes]
  | u64 => simp [TakesBytes, Spells, leBytes]
  | i32 => simp [TakesBytes, Spells, leBytes]
  | single => simp [TakesBytes, Spells, leBytes]
  | untilNul => simp [TakesBytes, Spells]
  | textUntilNul => simp [TakesBytes, Spells]

theorem TakesBytes.length_lt {i : Item} {v : i.Value} (hi : i.TakesBytes)
    (h : i.read s = .ok v rest) : rest.length < s.length := by
  obtain ⟨taken, rfl, hspells⟩ := read_eq_ok_iff.1 h
  have hne : taken ≠ [] := by
    rintro rfl
    exact hi v hspells
  have hpos := List.length_pos_iff.2 hne
  rw [List.length_append]
  omega

end Item

end Reader

end GameQuery
