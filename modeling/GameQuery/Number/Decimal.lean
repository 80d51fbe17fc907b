import GameQuery.Number.Rounding
import GameQuery.Text.Numeral

namespace GameQuery

/-!
# Decimal fractions

Digits with a decimal point, written in positional notation or with an exponent, and quotients
rounded to a fixed number of places.
-/

/-- `digits * 10 ^ exponent`. -/
structure Decimal where
  digits : Nat
  exponent : Int
  deriving DecidableEq, Repr

/-- Which numbers are written in positional notation. -/
structure DecimalStyle where
  /-- The least exponent of a first digit that needs no mark. -/
  least : Int
  /-- The greatest exponent of a first digit that needs no mark. -/
  greatest : Int

namespace Decimal

/-- The exponent of the first digit. -/
def leadingExponent (d : Decimal) : Int := d.exponent + (Text.decimal d.digits).length - 1

/-- Positional notation, with at least one digit on each side of the point. -/
def positional (d : Decimal) : List Char :=
  let digits := Text.decimal d.digits
  if 0 ≤ d.exponent then digits ++ List.replicate d.exponent.toNat '0' ++ ['.', '0']
  else
    let places := d.exponent.natAbs
    let digits := List.replicate (places + 1 - digits.length) '0' ++ digits
    let whole := digits.length - places
    digits.take whole ++ '.' :: digits.drop whole

/-- An exponent with its sign. -/
def exponentText (e : Int) : List Char :=
  (if 0 ≤ e then '+' else '-') :: Text.decimal e.natAbs

/-- Notation with an exponent: the point stands after the first digit, if another one follows. -/
def scientific (d : Decimal) : List Char :=
  let mantissa := match Text.decimal d.digits with
    | first :: second :: rest => first :: '.' :: second :: rest
    | digits => digits
  mantissa ++ 'e' :: exponentText d.leadingExponent

def text (style : DecimalStyle) (d : Decimal) : List Char :=
  if style.least ≤ d.leadingExponent ∧ d.leadingExponent ≤ style.greatest then d.positional
  else d.scientific

end Decimal

/-- A quotient rounded to a number of places, at least one. -/
def fixedText (places num den : Nat) : List Char :=
  (Decimal.mk (roundDiv (num * Nat.pow 10 places) den) (-places)).positional

end GameQuery
