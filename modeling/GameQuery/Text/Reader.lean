namespace GameQuery

/-!
# Reading text

A reader takes a value off the front of a text, or fails and takes nothing. Readers are put
together to readers of larger things.
-/

/-- Takes a value off the front of a text, or fails. -/
abbrev TextReader := StateT (List Char) Option

namespace TextReader

def char (c : Char) : TextReader Unit := fun cs =>
  match cs with
  | d :: rest => if d = c then some ((), rest) else none
  | [] => none

/-- Tries to read a value. -/
def attempt {α : Type} (r : TextReader α) : TextReader (Option α) := fun cs =>
  match r cs with
  | some (a, rest) => some (some a, rest)
  | none => some (none, cs)

/-- The value of a text that is read as a whole. -/
def whole {α : Type} (r : TextReader α) (cs : List Char) : Option α :=
  match r cs with
  | some (a, []) => some a
  | _ => none

def hexDigit? (c : Char) : Option Nat :=
  if '0' ≤ c ∧ c ≤ '9' then some (c.toNat - '0'.toNat)
  else if 'a' ≤ c ∧ c ≤ 'f' then some (c.toNat - 'a'.toNat + 10)
  else if 'A' ≤ c ∧ c ≤ 'F' then some (c.toNat - 'A'.toNat + 10)
  else none

/-- The value of a string of hexadecimal digits. -/
def hexValue (digits : List Char) : Nat :=
  digits.foldl (fun n c => 16 * n + (hexDigit? c).getD 0) 0

/-- The characters up to the first one that does not satisfy `p`. -/
def takeWhile (p : Char → Bool) : TextReader (List Char) := fun cs =>
  some (cs.takeWhile p, cs.dropWhile p)

/-- A character that satisfies `p`. -/
def one (p : Char → Bool) : TextReader Char := fun cs =>
  match cs with
  | c :: rest => if p c then some (c, rest) else none
  | [] => none

/-- A given text. -/
def word : List Char → TextReader Unit
  | [] => pure ()
  | c :: cs => do
    char c
    word cs

/-- Reads values one after another, as many as there are, up to one that takes nothing. -/
def many {α : Type} (r : TextReader α) : TextReader (List α) := fun cs =>
  match r cs with
  | some (a, rest) =>
    if rest.length < cs.length then (many r rest).map fun (as, rest) => (a :: as, rest)
    else some ([], cs)
  | none => some ([], cs)
termination_by cs => cs.length

/-- One value and as many more as there are. -/
def oneOrMore {α : Type} (r : TextReader α) : TextReader (List α) := do
  let a ← r
  return a :: (← many r)

end TextReader

end GameQuery
