import GameQuery.Bzip2.Code

namespace GameQuery.Bzip2

/-!
# Blocks

A block carries a permuted text: its symbols by prefix codes that change every fifty symbols, the
symbols as positions in a list that moves the last one to the front, and runs of the front symbol
as numbers in bijective base two.
-/

/-- A block as it stands in the stream. -/
structure Block where
  /-- The checksum of the text. -/
  checksum : UInt32
  /-- Whether some low bits of the text are flipped. -/
  scrambled : Bool
  /-- The row of the permutation that is the text. -/
  row : Nat
  /-- The last column of the sorted rotations. -/
  lastColumn : Array UInt8

namespace Block

/-- The bytes in use: two levels of sixteen bits. -/
def alphabet : BitReader (List UInt8) := do
  let used ← BitReader.bits 16
  let groups ← (List.range 16).mapM fun i => do
    if used.testBit (15 - i) then
      let low ← BitReader.bits 16
      return ((List.range 16).filter fun j => low.testBit (15 - j)).map fun j =>
        UInt8.ofNat (16 * i + j)
    else return []
  return groups.flatten

/-- A number below `bound`, written with as many one bits and a zero bit. -/
def unary (bound : Nat) : Nat → BitReader Nat
  | 0 => throw .damaged
  | left + 1 => do
    if ← BitReader.bit then unary bound left else return bound - (left + 1)

/-- The element at a position, and the list with it moved to the front. -/
def moveToFront {α : Type} (i : Nat) (xs : List α) : Option (α × List α) :=
  match xs[i]? with
  | some x => some (x, x :: xs.eraseIdx i)
  | none => none

/-- The elements at successive positions of a list that moves each to the front. -/
def unmove {α : Type} : List α → List Nat → List α
  | _, [] => []
  | xs, i :: is =>
    match moveToFront i xs with
    | some (x, xs) => x :: unmove xs is
    | none => []

/-- A word length, given by steps up and down from the one before. -/
def wordLength : Nat → Nat → BitReader Nat
  | 0, _ => throw .truncated
  | fuel + 1, length => do
    if length < 1 ∨ longestWord < length then throw .damaged
    if ← BitReader.bit then
      if ← BitReader.bit then wordLength fuel (length - 1) else wordLength fuel (length + 1)
    else return length

/-- The word lengths of `n` symbols. -/
def wordLengths (fuel : Nat) : Nat → Nat → Array Nat → BitReader (Array Nat)
  | 0, _, lengths => pure lengths
  | n + 1, length, lengths => do
    let length ← wordLength fuel length
    wordLengths fuel n length (lengths.push length)

/-- How far the symbols of a block are read. -/
structure Progress where
  /-- The codes of the groups still to come. -/
  codes : List Code
  /-- The code of the current group, and how many symbols of the group are left. -/
  current : Option (Code × Nat)
  /-- The bytes in use, the latest first. -/
  recent : List UInt8
  /-- The length of the run that ends here, and the weight of its next digit. -/
  run : Nat
  weight : Nat
  column : Array UInt8

/-- How many symbols one code stays in force. -/
def groupSize : Nat := 50

/-- The next symbol. -/
def symbol (p : Progress) : BitReader (Nat × Progress) := do
  match p.current, p.codes with
  | some (code, left + 1), _ =>
    let s ← code.read
    return (s, { p with current := some (code, left) })
  | _, code :: codes =>
    let s ← code.read
    return (s, { p with current := some (code, groupSize - 1), codes })
  | _, [] => throw .damaged

/-- The largest weight of a digit of a run. -/
def heaviest : Nat := 2 * 1024 * 1024

/-- Reads symbols up to the one that ends the block, which is `stop`. No more than `capacity`
bytes fit into a block. -/
def symbols (stop capacity : Nat) : Nat → Progress → BitReader (Array UInt8)
  | 0, _ => throw .truncated
  | fuel + 1, p => do
    let (s, p) ← symbol p
    if s ≤ 1 then
      if heaviest ≤ p.weight then throw .damaged
      symbols stop capacity fuel
        { p with run := p.run + (s + 1) * p.weight, weight := 2 * p.weight }
    else
      if capacity < p.column.size + p.run then throw .damaged
      let column := p.column ++ Array.replicate p.run (p.recent.headD 0)
      if s = stop then return column
      if capacity ≤ column.size then throw .damaged
      match moveToFront (s - 1) p.recent with
      | some (b, recent) =>
        symbols stop capacity fuel { p with recent, run := 0, weight := 1, column := column.push b }
      | none => throw .damaged

/-- More codes than this are never in force. -/
def mostGroups : Nat := 18002

/-- Reads a block behind its mark. -/
def read (capacity : Nat) : BitReader Block := do
  let size ← BitReader.size
  let checksum ← BitReader.bits 32
  let scrambled ← BitReader.bit
  let row ← BitReader.bits 24
  if capacity + 10 < row then throw .damaged
  let used ← alphabet
  if used.isEmpty then throw .damaged
  let codeCount ← BitReader.bits 3
  if codeCount < 2 ∨ 6 < codeCount then throw .damaged
  let groupCount ← BitReader.bits 15
  if groupCount < 1 then throw .damaged
  let moves ← (List.range groupCount).mapM fun _ => unary codeCount codeCount
  let codes ← (List.range codeCount).mapM fun _ => do
    let start ← BitReader.bits 5
    return Code.ofLengths (← wordLengths (size + 1) (used.length + 2) start #[])
  let lastColumn ← symbols (used.length + 1) capacity (size + 1)
    { codes := unmove codes (moves.take mostGroups), current := none, recent := used, run := 0,
      weight := 1, column := #[] }
  if lastColumn.size ≤ row then throw .damaged
  return { checksum := UInt32.ofNat checksum, scrambled, row, lastColumn }

end Block

end GameQuery.Bzip2
