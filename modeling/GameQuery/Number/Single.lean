import GameQuery.Number.Rounding

namespace GameQuery

/-!
# Single precision numbers

A binary floating point number of 32 bits, held as its bit pattern: two numbers are equal only if
all their bits are.

The magnitude of a finite number is a whole multiple of the smallest positive one, the *unit*, and
is computed with as such. The multiples below `2 ^ 24` are all there. Above, the numbers between
two powers of two stand `2 ^ shift` units apart, and each step of the shift has `2 ^ 23` of them,
so that the pattern of a number is `shift * 2 ^ 23` plus its magnitude in steps.
-/

/-- A number of 32 bits: a sign, eight bits of exponent and 23 bits of fraction. -/
structure Single where
  bits : UInt32
  deriving DecidableEq, Repr, Inhabited

namespace Single

/-- How many units make one. -/
def unitsPerOne : Nat := 1 <<< 149

/-- The pattern of infinity. -/
def infinity : Nat := 0x7F800000

/-- The pattern without the sign. -/
def pattern (x : Single) : Nat := x.bits.toNat % 0x80000000

/-- Whether the sign is a minus. -/
def isNegative (x : Single) : Bool := 0x80000000 ≤ x.bits.toNat

/-- Whether the number is neither infinite nor not a number. -/
def isFinite (x : Single) : Bool := x.pattern < infinity

def isNaN (x : Single) : Bool := infinity < x.pattern

/-- The exponent of the distance to the next larger number, in units. -/
def shift (x : Single) : Nat := x.pattern >>> 23 - 1

/-- The magnitude in steps of `2 ^ shift` units. -/
def significand (x : Single) : Nat := x.pattern - x.shift <<< 23

/-- The magnitude in units. -/
def units (x : Single) : Nat := x.significand <<< x.shift

/-- The number nearest to a quotient of units; of two, the one with an even pattern. What is too
large is infinite. -/
def ofUnits (num den : Nat) : Single :=
  let shift := Nat.log2 (num / den) - 23
  ⟨UInt32.ofNat (min infinity (shift <<< 23 + roundDiv num (den <<< shift)))⟩

/-- The number nearest to a whole number. -/
def ofNat (n : Nat) : Single := ofUnits (n * unitsPerOne) 1

/-- The number nearest to the magnitude of a number divided by a whole number. -/
def divNat (x : Single) (den : Nat) : Single := ofUnits x.units den

/-- The whole part, or the nearest number of 32 bits without a sign; zero for what is no number. -/
def toUInt32 (x : Single) : UInt32 :=
  if x.isNaN ∨ x.isNegative then 0
  else UInt32.ofNat (min (x.units / unitsPerOne) (UInt32.size - 1))

end Single

end GameQuery
