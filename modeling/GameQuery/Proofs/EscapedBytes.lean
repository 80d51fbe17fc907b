import GameQuery.Proofs.Utf8
import GameQuery.Text.Escape
import GameQuery.Text.Reader

namespace GameQuery.Text

/-!
# Reading escaped bytes

A backslash always starts an escape, and the character behind it tells how long the escape is. So
the text of a byte string is read back from the left, one byte after another. Only the text that
`escape` gives is read: a byte that has a shorter text is not taken by its digits.
-/

def isPrintable (c : Char) : Bool := ' ' ≤ c ∧ c ≤ '~'

/-- Whether a byte has no text but its two digits. -/
def isHidden (b : UInt8) : Bool := b ≠ 0x0A ∧ b ≠ 0x09 ∧ (b < 0x20 ∨ 0x7E < b)

/-- The value of a hexadecimal digit in lower case. -/
def lowerDigit? (c : Char) : Option Nat :=
  (TextReader.hexDigit? c).filter (Nat.digitChar · = c)

/-- The byte that is written with these two digits. -/
def hiddenByte? (high low : Char) : Option UInt8 :=
  match lowerDigit? high, lowerDigit? low with
  | some x, some y => (some (UInt8.ofNat (16 * x + y))).filter isHidden
  | _, _ => none

/-- The bytes that a text shows. -/
def unescape : List Char → Option (List UInt8)
  | [] => some []
  | '\\' :: 'n' :: rest => (unescape rest).map (0x0A :: ·)
  | '\\' :: 't' :: rest => (unescape rest).map (0x09 :: ·)
  | '\\' :: '\\' :: rest => (unescape rest).map (0x5C :: ·)
  | '\\' :: 'x' :: high :: low :: rest =>
    match hiddenByte? high low with
    | some b => (unescape rest).map (b :: ·)
    | none => none
  | c :: rest =>
    if isPrintable c ∧ c ≠ '\\' then (unescape rest).map (UInt8.ofNat c.toNat :: ·) else none

/-- The forms of the text of a byte. -/
inductive ByteText : UInt8 → List Char → Prop
  | lineFeed : ByteText 0x0A ['\\', 'n']
  | tab : ByteText 0x09 ['\\', 't']
  | backslash : ByteText 0x5C ['\\', '\\']
  | plain (c : Char) (hc : isPrintable c) (hne : c ≠ '\\') : ByteText (UInt8.ofNat c.toNat) [c]
  | hidden (b : UInt8) (high low : Char) (hb : isHidden b) (hhex : hex 2 b.toNat = [high, low]) :
      ByteText b ['\\', 'x', high, low]

variable {b : UInt8} {text rest : List Char} {s : List UInt8}

/-! ## Two digits -/

theorem hex_two {n : Nat} (h : n < 256) :
    hex 2 n = [Nat.digitChar (n / 16), Nat.digitChar (n % 16)] := by
  rw [hex, Nat.toDigits_eq_if (by decide)]
  split
  · next hlt =>
    rw [Nat.div_eq_of_lt hlt, Nat.mod_eq_of_lt hlt]
    rfl
  · next hge =>
    rw [Nat.toDigits_eq_if (by decide), if_pos (by omega)]
    rfl

theorem digitChar_of_le {d : Nat} (h : 16 ≤ d) : Nat.digitChar d = '*' := by
  have hne : ∀ e < 16, d ≠ e := fun e he => by omega
  simp [Nat.digitChar, hne]

theorem lowerDigit?_eq_some_iff {c : Char} {d : Nat} :
    lowerDigit? c = some d ↔ d < 16 ∧ Nat.digitChar d = c := by
  constructor
  · intro h
    obtain ⟨hdigit, hchar⟩ := Option.filter_eq_some_iff.1 h
    have hc : Nat.digitChar d = c := of_decide_eq_true hchar
    refine ⟨Nat.lt_of_not_le fun hle => ?_, hc⟩
    rw [← hc, digitChar_of_le hle] at hdigit
    cases hdigit
  · rintro ⟨hd, rfl⟩
    have hall : ∀ d < 16, lowerDigit? (Nat.digitChar d) = some d := by decide
    exact hall d hd

theorem hiddenByte?_eq_some_iff {high low : Char} :
    hiddenByte? high low = some b ↔ isHidden b ∧ hex 2 b.toNat = [high, low] := by
  have hlt := b.toNat_lt
  constructor
  · intro h
    rw [hiddenByte?] at h
    split at h
    · next x y hx hy =>
      obtain ⟨hx16, rfl⟩ := lowerDigit?_eq_some_iff.1 hx
      obtain ⟨hy16, rfl⟩ := lowerDigit?_eq_some_iff.1 hy
      obtain ⟨hb, hhidden⟩ := Option.filter_eq_some_iff.1 h
      cases hb
      have hvalue : (UInt8.ofNat (16 * x + y)).toNat = 16 * x + y :=
        UInt8.toNat_ofNat_of_lt' (by simp only [UInt8.size]; omega)
      refine ⟨hhidden, ?_⟩
      rw [hvalue, hex_two (by omega)]
      have hhigh : (16 * x + y) / 16 = x := by omega
      have hlow : (16 * x + y) % 16 = y := by omega
      rw [hhigh, hlow]
    · cases h
  · rintro ⟨hhidden, hhex⟩
    rw [hex_two hlt] at hhex
    obtain ⟨rfl, rfl⟩ : _ = high ∧ _ = low := by simpa using hhex
    have hhigh : lowerDigit? (Nat.digitChar (b.toNat / 16)) = some (b.toNat / 16) :=
      lowerDigit?_eq_some_iff.2 ⟨by omega, rfl⟩
    have hlow : lowerDigit? (Nat.digitChar (b.toNat % 16)) = some (b.toNat % 16) :=
      lowerDigit?_eq_some_iff.2 ⟨by omega, rfl⟩
    simp only [hiddenByte?, hhigh, hlow, Nat.div_add_mod, UInt8.ofNat_toNat]
    exact Option.filter_eq_some_iff.2 ⟨rfl, hhidden⟩

/-! ## One byte -/

theorem isPrintable_iff {c : Char} : isPrintable c = true ↔ 0x20 ≤ c.toNat ∧ c.toNat ≤ 0x7E := by
  simp only [isPrintable, Bool.decide_and, Bool.and_eq_true, decide_eq_true_eq, Char.le_def,
    UInt32.le_iff_toNat_le, Char.toNat_val]
  exact Iff.rfl

theorem isHidden_iff : isHidden b = true ↔
    b ≠ 0x0A ∧ b ≠ 0x09 ∧ ¬ (0x20 ≤ b ∧ b ≤ 0x7E) := by
  have hrange : b < 0x20 ∨ 0x7E < b ↔ ¬ (0x20 ≤ b ∧ b ≤ 0x7E) := by
    simp only [UInt8.le_iff_toNat_le, UInt8.lt_iff_toNat_lt]
    omega
  simp only [isHidden, hrange, decide_eq_true_eq]

theorem byteText_escapeByte (b : UInt8) : ByteText b (escapeByte b) := by
  rw [escapeByte]
  split
  · next h =>
    rw [h]
    exact .lineFeed
  split
  · next h =>
    rw [h]
    exact .tab
  split
  · next h =>
    rw [h]
    exact .backslash
  next hfeed htab hslash =>
  split
  · next hrange =>
    have hle := hrange.2
    rw [UInt8.le_iff_toNat_le, UInt8.le_iff_toNat_le] at hrange
    have hchar : (Char.ofNat b.toNat).toNat = b.toNat :=
      Utf8.toNat_ofNat (.inl (Nat.lt_trans b.toNat_lt (by decide)))
    have hplain : ByteText (UInt8.ofNat (Char.ofNat b.toNat).toNat) [Char.ofNat b.toNat] := by
      refine .plain _ ?_ fun heq => hslash ?_
      · rwa [isPrintable_iff, hchar]
      · rw [← UInt8.toNat_inj, ← hchar, heq]
        rfl
    rwa [hchar, UInt8.ofNat_toNat] at hplain
  · next hrange =>
    have hhex := hex_two b.toNat_lt
    rw [hhex]
    exact .hidden b _ _ (isHidden_iff.2 ⟨hfeed, htab, hrange⟩) hhex

namespace ByteText

theorem eq_escapeByte (h : ByteText b text) : text = escapeByte b := by
  cases h with
  | lineFeed => rfl
  | tab => rfl
  | backslash => rfl
  | plain c hc hne =>
    rw [isPrintable_iff] at hc
    have hbyte : (UInt8.ofNat c.toNat).toNat = c.toNat := Utf8.toNat_byte (by omega)
    have hnot : ∀ b : UInt8, b.toNat < 0x20 → UInt8.ofNat c.toNat ≠ b := by
      intro b hb heq
      rw [← heq, hbyte] at hb
      omega
    have hslash : UInt8.ofNat c.toNat ≠ 0x5C := by
      intro heq
      rw [← UInt8.toNat_inj, hbyte] at heq
      exact hne (Char.toNat_inj.1 heq)
    have hrange : 0x20 ≤ UInt8.ofNat c.toNat ∧ UInt8.ofNat c.toNat ≤ 0x7E := by
      rwa [UInt8.le_iff_toNat_le, UInt8.le_iff_toNat_le, hbyte]
    rw [escapeByte, if_neg (hnot 0x0A (by decide)), if_neg (hnot 0x09 (by decide)),
      if_neg hslash, if_pos hrange, hbyte, Char.ofNat_toNat]
  | hidden b high low hb hhex =>
    obtain ⟨hfeed, htab, hrange⟩ := isHidden_iff.1 hb
    have hslash : b ≠ 0x5C := by
      rintro rfl
      exact hrange (by decide)
    rw [escapeByte, if_neg hfeed, if_neg htab, if_neg hslash, if_neg hrange, hhex]

theorem unescape_append (h : ByteText b text) (rest : List Char) :
    unescape (text ++ rest) = (unescape rest).map (b :: ·) := by
  cases h with
  | lineFeed => rfl
  | tab => rfl
  | backslash => rfl
  | plain c hc hne =>
    rw [List.singleton_append, unescape, if_pos ⟨hc, hne⟩]
    all_goals
      intros
      contradiction
  | hidden b high low hb hhex =>
    have hbyte : hiddenByte? high low = some b := hiddenByte?_eq_some_iff.2 ⟨hb, hhex⟩
    simp only [List.cons_append, List.nil_append, unescape, hbyte]

theorem printable (h : ByteText b text) : ∀ c ∈ text, isPrintable c = true := by
  cases h with
  | lineFeed => exact List.all_eq_true.1 (by decide)
  | tab => exact List.all_eq_true.1 (by decide)
  | backslash => exact List.all_eq_true.1 (by decide)
  | plain c hc hne => exact List.forall_mem_singleton.2 hc
  | hidden b high low hb hhex =>
    have hlt := b.toNat_lt
    have hdigit : ∀ d < 16, isPrintable (Nat.digitChar d) = true := by decide
    rw [hex_two hlt] at hhex
    obtain ⟨rfl, rfl⟩ : _ = high ∧ _ = low := by simpa using hhex
    simp only [List.forall_mem_cons]
    exact ⟨by decide, by decide, hdigit _ (by omega), hdigit _ (by omega), nofun⟩

/-- One byte in front of bytes whose text is read back. -/
theorem append_eq_escape (hb : ByteText b text)
    (ih : ∀ {t : List UInt8}, unescape rest = some t → rest = escape t)
    (h : (unescape rest).map (b :: ·) = some s) : text ++ rest = escape s := by
  obtain ⟨t, ht, rfl⟩ := Option.map_eq_some_iff.1 h
  rw [ih ht, escape_cons, hb.eq_escapeByte]

end ByteText

/-! ## Byte strings -/

theorem unescape_escape (s : List UInt8) : unescape (escape s) = some s := by
  induction s with
  | nil => rfl
  | cons b s ih => rw [escape_cons, (byteText_escapeByte b).unescape_append, ih, Option.map_some]

theorem eq_escape_of_unescape (h : unescape text = some s) : text = escape s := by
  fun_induction unescape text generalizing s with
  | case1 =>
    cases h
    rfl
  | case2 rest ih => exact ByteText.lineFeed.append_eq_escape ih h
  | case3 rest ih => exact ByteText.tab.append_eq_escape ih h
  | case4 rest ih => exact ByteText.backslash.append_eq_escape ih h
  | case5 high low rest b hbyte ih =>
    obtain ⟨hb, hhex⟩ := hiddenByte?_eq_some_iff.1 hbyte
    exact (ByteText.hidden b high low hb hhex).append_eq_escape ih h
  | case6 => cases h
  | case7 c rest _ _ _ _ hc ih => exact (ByteText.plain c hc.1 hc.2).append_eq_escape ih h
  | case8 => cases h

theorem unescape_eq_some_iff : unescape text = some s ↔ text = escape s := by
  constructor
  · exact eq_escape_of_unescape
  · rintro rfl
    exact unescape_escape s

/-- The text of a byte string is printable ASCII, different byte strings have different texts, and
the bytes are read back from exactly the texts that byte strings have. -/
theorem escape_printable_and_readable :
    (∀ s : List UInt8, ∀ c ∈ escape s, 0x20 ≤ c.toNat ∧ c.toNat ≤ 0x7E) ∧
    (∀ s t : List UInt8, s ≠ t → escape s ≠ escape t) ∧
    ∀ (text : List Char) (s : List UInt8), unescape text = some s ↔ text = escape s := by
  refine ⟨?_, ?_, fun text s => unescape_eq_some_iff⟩
  · intro s c hc
    obtain ⟨b, -, hb⟩ := List.mem_flatMap.1 hc
    exact isPrintable_iff.1 ((byteText_escapeByte b).printable c hb)
  · intro s t hne heq
    have hread : some s = some t := by rw [← unescape_escape s, heq, unescape_escape]
    exact hne (Option.some.inj hread)

example : escape [0x5C, 0x78, 0x66, 0x66] = "\\\\xff".toList ∧ escape [0xFF] = "\\xff".toList := by
  decide

end GameQuery.Text
