namespace GameQuery.Bzip2

/-!
# Bits of a byte string

Reading bits from the front, the high bit of each byte first.
-/

/-- Why a stream cannot be read on. -/
inductive Fault where
  /-- The input ends before the stream does. -/
  | truncated
  /-- The input is no such stream. -/
  | damaged
  deriving DecidableEq, Repr

/-- An action on a byte string and a position, counted in bits. -/
abbrev BitReader := ReaderT ByteArray (StateT Nat (Except Fault))

namespace BitReader

def bit : BitReader Bool := do
  let data ← read
  let position ← get
  match data[position / 8]? with
  | some b =>
    set (position + 1)
    return b.toNat.testBit (7 - position % 8)
  | none => throw .truncated

/-- The number spelled by the next `n` bits after the bits that spell `high`. -/
def bitsAfter : Nat → Nat → BitReader Nat
  | 0, high => pure high
  | n + 1, high => do
    let b ← bit
    bitsAfter n (2 * high + b.toNat)

/-- The number spelled by the next `n` bits. -/
def bits (n : Nat) : BitReader Nat := bitsAfter n 0

/-- Takes exactly the bytes of `literal`. -/
def literal : List Nat → BitReader Unit
  | [] => pure ()
  | b :: rest => do
    if (← bits 8) ≠ b then throw .damaged
    literal rest

/-- How many bits the whole input has. Every action that is repeated takes at least one. -/
def size : BitReader Nat := return (← read).size * 8

end BitReader

end GameQuery.Bzip2
