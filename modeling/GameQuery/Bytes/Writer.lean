import GameQuery.Error
import GameQuery.Bytes.Word
import GameQuery.Text.Utf8

namespace GameQuery

/-!
# Writing into a buffer of fixed size

A `Writer` puts bytes over the front of the part of a buffer that is not yet used. Bytes that do
not fit make it fail.
-/

/-- A buffer, cut after the bytes written so far. -/
structure Buffer where
  written : Array UInt8
  unused : List UInt8

namespace Buffer

/-- A buffer nothing is written to yet. -/
def ofList (s : List UInt8) : Buffer := ⟨#[], s⟩

def toList (b : Buffer) : List UInt8 := b.written.toList ++ b.unused

/-- Puts `s` over the front of the unused part. -/
def put : List UInt8 → Buffer → Option Buffer
  | [], b => some b
  | _ :: _, ⟨_, []⟩ => none
  | x :: s, ⟨written, _ :: unused⟩ => put s ⟨written.push x, unused⟩

theorem put_eq (s : List UInt8) (b : Buffer) :
    b.put s = if s.length ≤ b.unused.length then
      some ⟨b.written ++ s.toArray, b.unused.drop s.length⟩ else none := by
  induction s generalizing b with
  | nil => simp [put]
  | cons x s ih =>
    obtain ⟨written, unused⟩ := b
    cases unused with
    | nil => simp [put]
    | cons y unused =>
      rw [put, ih]
      by_cases h : s.length ≤ unused.length <;> simp [h]

theorem put_append (s t : List UInt8) (b : Buffer) :
    b.put (s ++ t) = (b.put s).bind (Buffer.put t) := by
  induction s generalizing b with
  | nil => simp [put]
  | cons x s ih =>
    obtain ⟨written, unused⟩ := b
    cases unused with
    | nil => simp [put]
    | cons y unused => exact ih _

end Buffer

/-- An action on a buffer, which may run out of room. -/
abbrev Writer := StateT Buffer (Except CodecError)

namespace Writer

/-- What an encoder leaves behind: how many bytes it wrote, and the buffer. -/
structure Filled where
  size : Nat
  buffer : List UInt8
  deriving DecidableEq, Repr

/-- The bytes written. -/
def Filled.bytes (f : Filled) : List UInt8 := f.buffer.take f.size

def bytes (s : List UInt8) : Writer Unit := fun b =>
  match b.put s with
  | some b => .ok ((), b)
  | none => .error .endOfBuffer

/-- How many more bytes fit. -/
def room : Writer Nat := fun b => .ok (b.unused.length, b)

def u8 (v : UInt8) : Writer Unit := bytes [v]

def u16 (v : UInt16) : Writer Unit := bytes (leBytes 2 v.toNat)

def u32 (v : UInt32) : Writer Unit := bytes (leBytes 4 v.toNat)

def u64 (v : UInt64) : Writer Unit := bytes (leBytes 8 v.toNat)

def i32 (v : Int32) : Writer Unit := u32 v.toUInt32

/-- Two bytes, most significant first. -/
def port (v : UInt16) : Writer Unit := bytes (bigEndian v)

def flag (v : Bool) : Writer Unit := u8 (if v then 1 else 0)

def text (s : String) : Writer Unit := bytes (Text.Utf8.encode s)

def chars (cs : List Char) : Writer Unit := text (String.ofList cs)

/-- A text and the NUL that ends it. -/
def textNul (s : String) : Writer Unit := do
  text s
  u8 0

/-- Writes over the front of `buffer`. -/
def fill {α : Type} (w : Writer α) (buffer : List UInt8) : Except CodecError (α × Filled) :=
  match w (Buffer.ofList buffer) with
  | .ok (a, b) => .ok (a, ⟨b.written.size, b.toList⟩)
  | .error e => .error e

/-- Writes a value over the front of `buffer`. -/
def encode (w : Writer Unit) (buffer : List UInt8) : Except CodecError Filled :=
  match w.fill buffer with
  | .ok (_, filled) => .ok filled
  | .error e => .error e

end Writer

end GameQuery
