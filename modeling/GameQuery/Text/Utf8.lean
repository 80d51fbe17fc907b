namespace GameQuery.Text.Utf8

/-!
# UTF-8

Encoding, strict decoding, and lossy decoding. Lossy decoding puts U+FFFD for every maximal start
of a character that cannot be continued.
-/

/-- The bytes of a text. -/
def encode (s : String) : List UInt8 := s.toList.flatMap String.utf8EncodeChar

def isTail (b : UInt8) : Bool := 0x80 ≤ b ∧ b ≤ 0xBF

/-- Whether `c` may follow `b` as the second byte of a character of three bytes. -/
def isSecondOfThree (b c : UInt8) : Bool :=
  (b = 0xE0 ∧ 0xA0 ≤ c ∧ c ≤ 0xBF) ∨ (0xE1 ≤ b ∧ b ≤ 0xEC ∧ isTail c) ∨
    (b = 0xED ∧ 0x80 ≤ c ∧ c ≤ 0x9F) ∨ (0xEE ≤ b ∧ b ≤ 0xEF ∧ isTail c)

/-- Whether `c` may follow `b` as the second byte of a character of four bytes. -/
def isSecondOfFour (b c : UInt8) : Bool :=
  (b = 0xF0 ∧ 0x90 ≤ c ∧ c ≤ 0xBF) ∨ (0xF1 ≤ b ∧ b ≤ 0xF3 ∧ isTail c) ∨
    (b = 0xF4 ∧ 0x80 ≤ c ∧ c ≤ 0x8F)

/-- The payload of a byte that continues a character. -/
def tailBits (b : UInt8) : Nat := b.toNat % 64

/-- Reads the character that starts with `b`. The answer is `none` if it cannot be continued; the
bytes that remain are then the first that did not fit and those after it. -/
def scan (b : UInt8) (s : List UInt8) : Option Char × List UInt8 :=
  if b < 0x80 then (some (Char.ofNat b.toNat), s)
  else if 0xC2 ≤ b ∧ b ≤ 0xDF then
    match s with
    | c :: s₁ =>
      if isTail c then (some (Char.ofNat (b.toNat % 32 * 64 + tailBits c)), s₁) else (none, s)
    | [] => (none, s)
  else if 0xE0 ≤ b ∧ b ≤ 0xEF then
    match s with
    | c :: s₁ =>
      if isSecondOfThree b c then
        match s₁ with
        | d :: s₂ =>
          if isTail d then
            (some (Char.ofNat (b.toNat % 16 * 4096 + tailBits c * 64 + tailBits d)), s₂)
          else (none, s₁)
        | [] => (none, s₁)
      else (none, s)
    | [] => (none, s)
  else if 0xF0 ≤ b ∧ b ≤ 0xF4 then
    match s with
    | c :: s₁ =>
      if isSecondOfFour b c then
        match s₁ with
        | d :: s₂ =>
          if isTail d then
            match s₂ with
            | e :: s₃ =>
              if isTail e then
                (some (Char.ofNat (b.toNat % 8 * 262144 + tailBits c * 4096 + tailBits d * 64 +
                  tailBits e)), s₃)
              else (none, s₂)
            | [] => (none, s₂)
          else (none, s₁)
        | [] => (none, s₁)
      else (none, s)
    | [] => (none, s)
  else (none, s)

theorem length_scan_le (b : UInt8) (s : List UInt8) : (scan b s).2.length ≤ s.length := by
  fun_cases scan b s <;> simp_all only [List.length_cons, List.length_nil] <;> omega

/-- The characters of a byte string, `none` for each place that is not UTF-8. -/
def scanAll : List UInt8 → List (Option Char)
  | [] => []
  | b :: s =>
    have := length_scan_le b s
    (scan b s).1 :: scanAll (scan b s).2
termination_by s => s.length
decreasing_by simp; omega

/-- The text of a byte string that is UTF-8 throughout. -/
def decode? (s : List UInt8) : Option String := ((scanAll s).mapM id).map String.ofList

/-- The text of a byte string, with U+FFFD for each place that is not UTF-8. -/
def decodeLossy (s : List UInt8) : String :=
  String.ofList ((scanAll s).map (·.getD '\uFFFD'))

@[simp] theorem decodeLossy_nil : decodeLossy [] = "" := by simp [decodeLossy, scanAll]

end GameQuery.Text.Utf8
