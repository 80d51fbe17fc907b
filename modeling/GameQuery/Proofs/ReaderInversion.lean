import GameQuery.Proofs.ReaderLaws

namespace GameQuery

/-!
# What readers have read

When a reader gives a value, the bytes in front of it had a certain form. There is one equivalence
for each reader and one for readers in a row. A decoder that is taken apart with them leaves the
form of the datagrams that it accepts.
-/

theorem leBytes_leValue (s : List UInt8) : leBytes s.length (leValue s) = s := by
  induction s with
  | nil => rfl
  | cons b s ih =>
    have hb := b.toNat_lt
    have hlow : UInt8.ofNat (b.toNat + 256 * leValue s) = b := by
      rw [← UInt8.toNat_inj, UInt8.toNat_ofNat']
      omega
    have hhigh : (b.toNat + 256 * leValue s) / 256 = leValue s := by omega
    rw [List.length_cons, leBytes, leValue, hlow, hhigh, ih]

theorem leValue_lt (s : List UInt8) : leValue s < 256 ^ s.length := by
  induction s with
  | nil => exact Nat.one_pos
  | cons b s ih =>
    have hb := b.toNat_lt
    rw [leValue, List.length_cons, Nat.pow_succ']
    omega

namespace Reader

variable {α β : Type} {r : Reader α} {s rest : List UInt8} {a : α} {b : β}

theorem decode_eq_ok_iff : decode r s = .ok a ↔ ∃ rest, r s = .ok a rest := by
  rw [decode]
  cases r s <;> simp

theorem bind_eq_ok_iff {k : α → Reader β} :
    (r >>= k) s = .ok b rest ↔ ∃ a t, r s = .ok a t ∧ k a t = .ok b rest := by
  simp only [bind, EStateM.bind]
  cases r s <;> simp

theorem map_eq_ok_iff {f : α → β} : (f <$> r) s = .ok b rest ↔ ∃ a, r s = .ok a rest ∧ f a = b := by
  simp only [Functor.map, EStateM.map]
  cases r s <;> simp [and_comm]

theorem pure_eq_ok_iff {c : α} : (pure c : Reader α) s = .ok a rest ↔ c = a ∧ s = rest := by
  simp only [pure, EStateM.pure, EStateM.Result.ok.injEq]

theorem throw_ne_ok (e : CodecError) : (throw e : Reader α) s ≠ .ok a rest := nofun

/-- What is read behind a check is read only if the check does not fail. -/
theorem check_eq_ok_iff {c : Prop} [Decidable c] {e : CodecError} {k : PUnit → Reader β} :
    (if c then throw e >>= k else k ⟨⟩) s = .ok b rest ↔ ¬ c ∧ k ⟨⟩ s = .ok b rest := by
  split
  · next hc => simp [bind_eq_ok_iff, throw_ne_ok, hc]
  · next hc => simp [hc]

/-! ## Bytes -/

theorem get_eq_ok_iff {seen : List UInt8} :
    (get : Reader (List UInt8)) s = .ok seen rest ↔ seen = s ∧ s = rest := by
  constructor
  · intro h
    cases h
    exact ⟨rfl, rfl⟩
  · rintro ⟨rfl, rfl⟩
    rfl

theorem atEnd_eq_ok_iff {empty : Bool} :
    atEnd s = .ok empty rest ↔ empty = s.isEmpty ∧ s = rest := by
  simp only [atEnd, EStateM.Result.ok.injEq, eq_comm]

theorem rest_eq_ok_iff {all : List UInt8} : Reader.rest s = .ok all rest ↔ s = all ∧ rest = [] := by
  simp only [Reader.rest, EStateM.Result.ok.injEq, eq_comm]

theorem bytes_eq_ok_iff {n : Nat} {head : List UInt8} :
    bytes n s = .ok head rest ↔ head.length = n ∧ s = head ++ rest := by
  rw [bytes, splitOff_eq]
  constructor
  · intro h
    split at h
    · next hsplit =>
      split at hsplit
      · next hn =>
        cases hsplit
        cases h
        exact ⟨List.length_take_of_le hn, (List.take_append_drop n s).symm⟩
      · cases hsplit
    · cases h
  · rintro ⟨rfl, rfl⟩
    simp

theorem literal_eq_ok_iff {start : List UInt8} {u : Unit} :
    literal start s = .ok u rest ↔ s = start ++ rest := by
  constructor
  · intro h
    rw [literal] at h
    split at h
    · next hprefix =>
      cases h
      exact (List.prefix_iff_eq_append.1 (List.isPrefixOf_iff_prefix.1 hprefix)).symm
    · cases h
  · rintro rfl
    exact reads_literal start rest

theorem finish_eq_ok_iff {u : Unit} : finish s = .ok u rest ↔ s = [] ∧ rest = [] := by
  cases s with
  | nil => simp [finish, eq_comm]
  | cons b s => simp [finish]

/-! ## Numbers -/

theorem number_eq_ok_iff {n v : Nat} :
    number n s = .ok v rest ↔ v < 256 ^ n ∧ s = leBytes n v ++ rest := by
  constructor
  · intro h
    obtain ⟨head, hhead, rfl⟩ := map_eq_ok_iff.1 h
    obtain ⟨rfl, rfl⟩ := bytes_eq_ok_iff.1 hhead
    exact ⟨leValue_lt head, by rw [leBytes_leValue]⟩
  · rintro ⟨hv, rfl⟩
    exact reads_number hv rest

/-- A number as one of the types of words. -/
theorem word_eq_ok_iff {n : Nat} {ofNat : Nat → α} {toNat : α → Nat} {v : α}
    (hlt : ∀ w, toNat w < 256 ^ n) (hof : ∀ w, ofNat (toNat w) = w)
    (hto : ∀ m < 256 ^ n, toNat (ofNat m) = m) :
    (ofNat <$> number n) s = .ok v rest ↔ s = leBytes n (toNat v) ++ rest := by
  constructor
  · intro h
    obtain ⟨m, hm, rfl⟩ := map_eq_ok_iff.1 h
    obtain ⟨hlt, rfl⟩ := number_eq_ok_iff.1 hm
    rw [hto m hlt]
  · rintro rfl
    rw [map_eq_ok (reads_number (hlt v) rest), hof]

theorem u8_eq_ok_iff {v : UInt8} : u8 s = .ok v rest ↔ s = v :: rest := by
  have hword : u8 s = .ok v rest ↔ s = leBytes 1 v.toNat ++ rest :=
    word_eq_ok_iff UInt8.toNat_lt (fun _ => UInt8.ofNat_toNat)
      fun _ hm => UInt8.toNat_ofNat_of_lt' hm
  simpa [leBytes] using hword

theorem u16_eq_ok_iff {v : UInt16} : u16 s = .ok v rest ↔ s = leBytes 2 v.toNat ++ rest :=
  word_eq_ok_iff UInt16.toNat_lt (fun _ => UInt16.ofNat_toNat)
    fun _ hm => UInt16.toNat_ofNat_of_lt' hm

theorem u32_eq_ok_iff {v : UInt32} : u32 s = .ok v rest ↔ s = leBytes 4 v.toNat ++ rest :=
  word_eq_ok_iff UInt32.toNat_lt (fun _ => UInt32.ofNat_toNat)
    fun _ hm => UInt32.toNat_ofNat_of_lt' hm

theorem i32_eq_ok_iff {v : Int32} :
    i32 s = .ok v rest ↔ s = leBytes 4 v.toUInt32.toNat ++ rest := by
  constructor
  · intro h
    obtain ⟨w, hw, rfl⟩ := map_eq_ok_iff.1 h
    rwa [UInt32.toUInt32_toInt32, ← u32_eq_ok_iff]
  · rintro rfl
    exact reads_i32 v rest

/-! ## Texts -/

theorem untilNul_eq_ok_iff {head : List UInt8} :
    untilNul s = .ok head rest ↔ 0 ∉ head ∧ s = head ++ 0 :: rest := by
  constructor
  · intro h
    rw [untilNul] at h
    split at h
    · next hsplit =>
      cases h
      exact (splitAtNul_eq_some hsplit).symm
    · cases h
  · rintro ⟨hnul, rfl⟩
    rw [untilNul, splitAtNul_append hnul]

theorem lossyText_eq_ok_iff {text : String} :
    lossyText s = .ok text rest ↔
      ∃ raw, 0 ∉ raw ∧ s = raw ++ 0 :: rest ∧ Text.Utf8.decodeLossy raw = text := by
  rw [lossyText, map_eq_ok_iff]
  simp only [untilNul_eq_ok_iff, and_assoc]

/-- Only at the end of the buffer may the NUL behind a text be missing. -/
theorem lossyTextOrRest_eq_ok_iff {text : String} :
    lossyTextOrRest s = .ok text rest ↔
      ∃ raw, 0 ∉ raw ∧ (s = raw ++ 0 :: rest ∨ s = raw ∧ rest = []) ∧
        Text.Utf8.decodeLossy raw = text := by
  constructor
  · intro h
    rw [lossyTextOrRest] at h
    split at h
    · next head tail hsplit =>
      cases h
      obtain ⟨rfl, hnul⟩ := splitAtNul_eq_some hsplit
      exact ⟨head, hnul, .inl rfl, rfl⟩
    · next hsplit =>
      cases h
      exact ⟨s, splitAtNul_eq_none hsplit, .inr ⟨rfl, rfl⟩, rfl⟩
  · rintro ⟨raw, hnul, rfl | ⟨rfl, rfl⟩, rfl⟩
    · rw [lossyTextOrRest, splitAtNul_append hnul]
    · rw [lossyTextOrRest, splitAtNul_of_notMem hnul]

theorem text_eq_ok_iff {n : Nat} {t : String} :
    text n s = .ok t rest ↔
      (Text.Utf8.encode t).length = n ∧ s = Text.Utf8.encode t ++ rest := by
  constructor
  · intro h
    rw [text] at h
    split at h
    · cases h
    · next head tail hsplit =>
      split at h
      · next hdecode =>
        cases h
        obtain rfl := Text.Utf8.decode?_eq_some_iff.1 hdecode
        have hbytes : bytes n s = .ok (Text.Utf8.encode t) rest := by rw [bytes, hsplit]
        exact bytes_eq_ok_iff.1 hbytes
      · cases h
  · rintro ⟨rfl, rfl⟩
    have hsplit : splitOff (Text.Utf8.encode t).length (Text.Utf8.encode t ++ rest) =
        some (Text.Utf8.encode t, rest) := by
      rw [splitOff_eq, if_pos (by simp)]
      simp
    simp only [text, hsplit, Text.Utf8.decode?_encode]

theorem textUntilNul_eq_ok_iff {text : String} :
    textUntilNul s = .ok text rest ↔
      '\x00' ∉ text.toList ∧ s = Text.Utf8.encode text ++ 0 :: rest := by
  constructor
  · intro h
    rw [textUntilNul] at h
    split at h
    · cases h
    · next head tail hsplit =>
      split at h
      · next hdecode =>
        cases h
        obtain ⟨rfl, hnul⟩ := splitAtNul_eq_some hsplit
        obtain rfl := Text.Utf8.decode?_eq_some_iff.1 hdecode
        exact ⟨mt (Text.Utf8.zero_mem_encode text).2 hnul, rfl⟩
      · cases h
  · rintro ⟨hnul, rfl⟩
    simpa using reads_textUntilNul hnul rest

end Reader

end GameQuery
