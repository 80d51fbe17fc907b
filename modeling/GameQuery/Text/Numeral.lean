namespace GameQuery.Text

/-!
# Numerals

Decimal and hexadecimal texts of natural numbers. Reading accepts an optional plus sign and any
number of leading zeros; writing uses the fewest digits.
-/

/-- The value of a string of decimal digits, most significant first. -/
def decimalValue (digits : List Char) : Nat :=
  digits.foldl (fun n c => 10 * n + (c.toNat - '0'.toNat)) 0

@[simp] theorem decimalValue_nil : decimalValue [] = 0 := rfl

/-- The digits of a numeral: what is left after one optional plus sign. -/
def unsigned : List Char → List Char
  | '+' :: digits => digits
  | digits => digits

/-- Reads a numeral whose value is below `bound`. -/
def readNat (bound : Nat) (text : List Char) : Option Nat :=
  let digits := unsigned text
  if digits ≠ [] ∧ digits.all Char.isDigit ∧ decimalValue digits < bound then
    some (decimalValue digits)
  else none

theorem readNat_lt {bound n : Nat} {text : List Char} (h : readNat bound text = some n) :
    n < bound := by
  simp only [readNat] at h
  split at h <;> simp_all

def readUInt8 (text : List Char) : Option UInt8 := (readNat UInt8.size text).map UInt8.ofNat

def readUInt16 (text : List Char) : Option UInt16 := (readNat UInt16.size text).map UInt16.ofNat

def readUInt32 (text : List Char) : Option UInt32 := (readNat UInt32.size text).map UInt32.ofNat

/-- The fewest decimal digits of `n`. -/
def decimal (n : Nat) : List Char := Nat.toDigits 10 n

/-- The decimal digits of `n`, a minus sign before those of a negative number. -/
def signedDecimal : Int → List Char
  | .ofNat n => decimal n
  | .negSucc n => '-' :: decimal (n + 1)

/-- The hexadecimal digits of `n` in lower case, with leading zeros up to `width` digits. -/
def hex (width n : Nat) : List Char :=
  let digits := Nat.toDigits 16 n
  List.replicate (width - digits.length) '0' ++ digits

end GameQuery.Text
