import GameQuery.Text.Numeral

namespace GameQuery.Text

/-!
# Escaped bytes

A readable text for any byte string: printable ASCII stands for itself, line feed, tab and the
backslash have escapes of one letter, and every other byte is written with its two hexadecimal
digits.
-/

/-- The text of one byte. -/
def escapeByte (b : UInt8) : List Char :=
  if b = 0x0A then ['\\', 'n']
  else if b = 0x09 then ['\\', 't']
  else if b = 0x5C then ['\\', '\\']
  else if 0x20 ≤ b ∧ b ≤ 0x7E then [Char.ofNat b.toNat]
  else '\\' :: 'x' :: hex 2 b.toNat

/-- The text of a byte string. -/
def escape (s : List UInt8) : List Char := s.flatMap escapeByte

@[simp] theorem escape_nil : escape [] = [] := rfl

@[simp] theorem escape_cons (b : UInt8) (s : List UInt8) :
    escape (b :: s) = escapeByte b ++ escape s := rfl

theorem escape_append (s t : List UInt8) : escape (s ++ t) = escape s ++ escape t := by
  simp [escape]

end GameQuery.Text
