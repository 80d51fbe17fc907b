namespace GameQuery

/-!
# Words in bytes

A natural number as bytes, least significant first, and back.
-/

/-- The `n` low bytes of `v`, least significant first. -/
def leBytes : Nat → Nat → List UInt8
  | 0, _ => []
  | n + 1, v => UInt8.ofNat v :: leBytes n (v / 256)

/-- The number that `bytes` spell, least significant first. -/
def leValue : List UInt8 → Nat
  | [] => 0
  | b :: bytes => b.toNat + 256 * leValue bytes

@[simp] theorem length_leBytes (n v : Nat) : (leBytes n v).length = n := by
  induction n generalizing v with
  | zero => rfl
  | succ n ih => simp [leBytes, ih]

/-- The two bytes of a port, most significant first. -/
def bigEndian (v : UInt16) : List UInt8 := (leBytes 2 v.toNat).reverse

end GameQuery
