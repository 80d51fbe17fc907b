import GameQuery.Bzip2.Block
import GameQuery.Bzip2.Scramble
import GameQuery.Checksum

namespace GameQuery.Bzip2

/-!
# The text of a block

The permutation is undone by walking through the last column, and then runs are spelled out: after
four equal bytes comes a count of further ones.
-/

/-- For each byte, how many bytes of `column` are smaller. -/
def smallerCounts (column : Array UInt8) : Array Nat :=
  let counts := column.foldl (fun counts b => counts.modify b.toNat (· + 1)) (Array.replicate 256 0)
  (counts.foldl (fun (sums, total) n => (sums.push total, total + n)) (#[], 0)).1

/-- For each row of the sorted rotations, the row of the rotation that starts one byte later. -/
def successors (column : Array UInt8) : Array Nat :=
  let start := (smallerCounts column, Array.replicate column.size 0)
  let step := fun (state : Array Nat × Array Nat) (entry : UInt8 × Nat) =>
    let (next, rows) := state
    let (b, row) := entry
    (next.modify b.toNat (· + 1), rows.set! (next.getD b.toNat 0) row)
  (column.zipIdx.foldl step start).2

/-- The bytes met on a walk of `n` steps from `row`. -/
def walk (column : Array UInt8) (rows : Array Nat) : Nat → Nat → Array UInt8 → Array UInt8
  | 0, _, met => met
  | n + 1, row, met => walk column rows n (rows.getD row 0) (met.push (column.getD row 0))

/-- The bytes of a block before runs are spelled out, and two more: those that follow if the walk
goes on, which a damaged block may ask for. -/
def Block.runs (block : Block) : Array UInt8 :=
  let rows := successors block.lastColumn
  let met := walk block.lastColumn rows (block.lastColumn.size + 2) (rows.getD block.row 0) #[]
  if block.scrambled then (unscramble met.toList).toArray else met

/-- Bytes put out so far, and the checksum of those that belong to the current block. -/
structure Output where
  bytes : ByteArray
  checksum : UInt32

/-- Puts out `b` `n` times. -/
def Output.push (out : Output) (b : UInt8) : Nat → Output
  | 0 => out
  | n + 1 => Output.push ⟨out.bytes.push b, crcByteLeft out.checksum b⟩ b n

/-- The length of the run at position `i`, and the position behind it. -/
def runAt (runs : Array UInt8) (size i : Nat) : Nat × Nat :=
  let b := runs.getD i 0
  if i + 1 = size ∨ runs.getD (i + 1) 0 ≠ b then (1, i + 1)
  else if i + 2 = size ∨ runs.getD (i + 2) 0 ≠ b then (2, i + 2)
  else if i + 3 = size ∨ runs.getD (i + 3) 0 ≠ b then (3, i + 3)
  else (4 + (runs.getD (i + 4) 0).toNat, i + 5)

/-- Spells out the runs from position `i`. It may stop as soon as more than `enough` bytes are
out. -/
def spell (runs : Array UInt8) (size enough : Nat) : Nat → Nat → Output → Except Output Output
  | 0, _, out => .ok out
  | fuel + 1, i, out =>
    if size < i then .error out
    else if i = size ∨ enough < out.bytes.size then .ok out
    else
      let (length, next) := runAt runs size i
      spell runs size enough fuel next (out.push (runs.getD i 0) length)

/-- Puts out the text of a block: an error carries what a damaged block puts out. -/
def Block.putOut (block : Block) (enough : Nat) (bytes : ByteArray) : Except Output Output :=
  let size := block.lastColumn.size
  spell block.runs size enough (size + 1) 0 ⟨bytes, 0xFFFFFFFF⟩

end GameQuery.Bzip2
