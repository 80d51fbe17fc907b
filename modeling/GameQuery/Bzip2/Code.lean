import GameQuery.Bzip2.Bits

namespace GameQuery.Bzip2

/-!
# Canonical prefix codes

A code is given by the length of each symbol's word. Words of one length are consecutive numbers
in the order of their symbols, and shorter words come first.
-/

/-- The longest word a code may have. -/
def longestWord : Nat := 20

/-- A code as tables, indexed by word length. -/
structure Code where
  /-- The symbols in the order of their words. -/
  symbols : Array Nat
  /-- How many symbols have words shorter than the index. -/
  shorter : Array Nat
  /-- The first word of each length. -/
  first : Array Nat
  /-- The length of the shortest word. -/
  shortest : Nat

namespace Code

/-- The symbols whose word has length `n`. -/
def symbolsOfLength (lengths : Array Nat) (n : Nat) : List Nat :=
  (List.range lengths.size).filter fun symbol => lengths[symbol]? = some n

def ofLengths (lengths : Array Nat) : Code :=
  let groups := (List.range (longestWord + 1)).map (symbolsOfLength lengths)
  let sizes := groups.map List.length
  let shorter := sizes.scanl (· + ·) 0
  let first := sizes.scanl (fun word size => 2 * (word + size)) 0
  { symbols := groups.flatten.toArray
    shorter := shorter.toArray
    first := first.toArray
    shortest := (sizes.takeWhile (· = 0)).length }

/-- Reads on after `word`, which has `length` bits, until it is the word of a symbol. -/
def readFrom (code : Code) : Nat → Nat → Nat → BitReader Nat
  | 0, _, _ => throw .damaged
  | fuel + 1, length, word => do
    if length > longestWord then throw .damaged
    let before := code.shorter.getD length 0
    let index := before + (word - code.first.getD length 0)
    if index < code.shorter.getD (length + 1) 0 then
      match code.symbols[index]? with
      | some symbol => return symbol
      | none => throw .damaged
    let b ← BitReader.bit
    readFrom code fuel (length + 1) (2 * word + b.toNat)

/-- Reads the next symbol. -/
def read (code : Code) : BitReader Nat := do
  let word ← BitReader.bits code.shortest
  readFrom code (longestWord + 2) code.shortest word

end Code

end GameQuery.Bzip2
