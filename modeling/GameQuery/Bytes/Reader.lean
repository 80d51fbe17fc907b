import GameQuery.Error
import GameQuery.Bytes.Word
import GameQuery.Text.Utf8

namespace GameQuery

/-!
# Reading from the front of a byte string

A `Reader` takes bytes off the front of the bytes that remain. A read that fails leaves them as
they were.
-/

/-- The first `n` elements and the rest, if there are `n`. -/
def splitOff {α : Type} : Nat → List α → Option (List α × List α)
  | 0, s => some ([], s)
  | _ + 1, [] => none
  | n + 1, b :: s => (splitOff n s).map fun (head, tail) => (b :: head, tail)

theorem splitOff_eq {α : Type} (n : Nat) (s : List α) :
    splitOff n s = if n ≤ s.length then some (s.take n, s.drop n) else none := by
  induction n generalizing s with
  | zero => simp [splitOff]
  | succ n ih =>
    cases s with
    | nil => simp [splitOff]
    | cons b s =>
      rw [splitOff, ih]
      by_cases h : n ≤ s.length <;> simp [h]

/-- The bytes before the first NUL and those after it. -/
def splitAtNul (s : List UInt8) : Option (List UInt8 × List UInt8) :=
  match s.span (· ≠ 0) with
  | (head, _ :: tail) => some (head, tail)
  | (_, []) => none

/-- An action on the bytes that remain, which may fail. -/
abbrev Reader := EStateM CodecError (List UInt8)

namespace Reader

/-- The next `n` bytes. -/
def bytes (n : Nat) : Reader (List UInt8) := fun s =>
  match splitOff n s with
  | some (head, tail) => .ok head tail
  | none => .error .endOfBuffer s

/-- All bytes that remain. -/
def rest : Reader (List UInt8) := fun s => .ok s []

/-- Whether no byte remains. -/
def atEnd : Reader Bool := fun s => .ok s.isEmpty s

/-- The number spelled by the next `n` bytes, least significant first. -/
def number (n : Nat) : Reader Nat := leValue <$> bytes n

def u8 : Reader UInt8 := UInt8.ofNat <$> number 1

def u16 : Reader UInt16 := UInt16.ofNat <$> number 2

def u32 : Reader UInt32 := UInt32.ofNat <$> number 4

def u64 : Reader UInt64 := UInt64.ofNat <$> number 8

def i32 : Reader Int32 := UInt32.toInt32 <$> u32

/-- A byte that counts as true unless it is zero. -/
def flag : Reader Bool := (· ≠ 0) <$> u8

/-- The bytes up to the next NUL, which is taken too. -/
def untilNul : Reader (List UInt8) := fun s =>
  match splitAtNul s with
  | some (head, tail) => .ok head tail
  | none => .error .endOfBuffer s

/-- A text that ends in NUL, with U+FFFD for what is not UTF-8. -/
def lossyText : Reader String := Text.Utf8.decodeLossy <$> untilNul

/-- A text that ends in NUL or, if there is none, with the buffer. -/
def lossyTextOrRest : Reader String := fun s =>
  match splitAtNul s with
  | some (head, tail) => .ok (Text.Utf8.decodeLossy head) tail
  | none => .ok (Text.Utf8.decodeLossy s) []

/-- The next `n` bytes as a text. -/
def text (n : Nat) : Reader String := fun s =>
  match splitOff n s with
  | none => .error .endOfBuffer s
  | some (head, tail) =>
    match Text.Utf8.decode? head with
    | some t => .ok t tail
    | none => .error .badText s

/-- The text up to the next NUL, which is taken too. -/
def textUntilNul : Reader String := fun s =>
  match splitAtNul s with
  | none => .error .endOfBuffer s
  | some (head, tail) =>
    match Text.Utf8.decode? head with
    | some t => .ok t tail
    | none => .error .badText s

/-- Takes exactly the bytes of `literal`. -/
def literal (literal : List UInt8) : Reader Unit := fun s =>
  if literal.isPrefixOf s then .ok () (s.drop literal.length) else .error .literalMissing s

/-- Fails if any byte remains. -/
def finish : Reader Unit := fun s => if s.isEmpty then .ok () s else .error .trailingBytes s

/-- Reads a value from the front of `s`. -/
def decode {α : Type} (r : Reader α) (s : List UInt8) : Except CodecError α :=
  match r s with
  | .ok a _ => .ok a
  | .error e _ => .error e

end Reader

end GameQuery
