import GameQuery.Number.Decimal
import GameQuery.Number.Single

namespace GameQuery

/-!
# Shortest decimals

The decimal with the fewest digits that is nearer to a given number of single precision than to
any other; where there are several, the one nearest to the number. Everything is computed exactly,
in quarters of the unit of single precision.
-/

namespace Single

/-- The numbers that are rounded to a given one: an interval, with or without its ends. -/
structure Neighbourhood where
  low : Nat
  high : Nat
  /-- Whether the ends belong to it. -/
  closed : Bool

/-- What is rounded to a number, in quarters of a unit. The next smaller number is only half as far
away if the significand is the least one for its exponent. -/
def neighbourhood (x : Single) : Neighbourhood where
  low := 4 * x.units - if x.significand = 1 <<< 23 ∧ 0 < x.shift then 1 <<< x.shift else 2 <<< x.shift
  high := 4 * x.units + 2 <<< x.shift
  closed := x.significand % 2 = 0

/-- A length of `10 ^ exponent` as the quotient of two numbers of quarters. -/
def gridWidth (exponent : Int) : Nat × Nat :=
  if 0 ≤ exponent then (4 * unitsPerOne * Nat.pow 10 exponent.toNat, 1)
  else (4 * unitsPerOne, Nat.pow 10 exponent.natAbs)

/-- Whether the quotient of two numbers lies in a neighbourhood. -/
def Neighbourhood.contains (n : Neighbourhood) (num den : Nat) : Bool :=
  if n.closed then n.low * den ≤ num ∧ num ≤ n.high * den
  else n.low * den < num ∧ num < n.high * den

/-- Which multiple of `width / den` lies in a neighbourhood and is nearest to `num / den`; of two,
the even one. The others are farther away than the two between which the quotient lies. -/
def Neighbourhood.multiple? (n : Neighbourhood) (num width den : Nat) : Option Nat :=
  let below := num / width
  match n.contains (below * width) den, n.contains ((below + 1) * width) den with
  | true, true => some (roundDiv num width)
  | true, false => some below
  | false, true => some (below + 1)
  | false, false => none

/-- The multiple of `10 ^ exponent` that is rounded to a number and nearest to it, if there is
one. -/
def onGrid? (x : Single) (exponent : Int) : Option Decimal :=
  let (width, den) := gridWidth exponent
  (x.neighbourhood.multiple? (4 * x.units * den) width den).map fun digits => ⟨digits, exponent⟩

/-- The exponent of the finest grid, narrower than the least distance of two numbers. -/
def finest : Int := -46

/-- The first grid, from `finest + n` on down, with a decimal that is rounded to a number. -/
def firstOnGrid (x : Single) : Nat → Option Decimal
  | 0 => onGrid? x finest
  | n + 1 => (onGrid? x (finest + (n + 1 : Nat))).or (firstOnGrid x n)

/-- The shortest decimal that is rounded to the magnitude of a number. -/
def shortest (x : Single) : Decimal :=
  if x.units = 0 then ⟨0, 0⟩ else (firstOnGrid x 85).getD ⟨0, 0⟩

/-- The shortest decimal text of a number, if it is finite. A zero has a sign too. -/
def text? (style : DecimalStyle) (x : Single) : Option (List Char) :=
  if x.isFinite then
    some ((if x.isNegative then ['-'] else []) ++ x.shortest.text style)
  else none

end Single

end GameQuery
