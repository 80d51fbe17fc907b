import GameQuery.Bytes.Reader
import GameQuery.Proofs.Utf8
import Mathlib.Algebra.Group.Nat.Defs
import Mathlib.Data.List.TakeDrop
import Mathlib.Data.List.TakeWhile

namespace GameQuery

/-!
# What readers read

`Reads r s a` says that `r` takes exactly `s` off the front and gives `a`, whatever follows.
`Yields r P` says that every value of `r` satisfies `P`. Both are proved of a reader by going
through its parts in order.
-/

/-! ## Words -/

theorem leValue_leBytes (n v : Nat) : leValue (leBytes n v) = v % 256 ^ n := by
  induction n generalizing v with
  | zero => simp [leBytes, leValue, Nat.mod_one]
  | succ n ih =>
    simp only [leBytes, leValue, ih]
    rw [Nat.pow_succ', Nat.mod_mul]
    simp

/-! ## Texts -/

theorem takeWhile_ne_zero_append {s : List UInt8} (h : 0 ∉ s) (t : List UInt8) :
    (s ++ 0 :: t).takeWhile (· ≠ 0) = s ∧ (s ++ 0 :: t).dropWhile (· ≠ 0) = 0 :: t := by
  induction s with
  | nil => simp
  | cons b s ih =>
    rw [List.mem_cons, not_or] at h
    simpa [Ne.symm h.1] using ih h.2

theorem splitAtNul_append {s : List UInt8} (h : 0 ∉ s) (t : List UInt8) :
    splitAtNul (s ++ 0 :: t) = some (s, t) := by
  have hs := takeWhile_ne_zero_append h t
  rw [splitAtNul, List.span_eq_takeWhile_dropWhile, hs.1, hs.2]

theorem splitAtNul_eq_some {s head tail : List UInt8} (h : splitAtNul s = some (head, tail)) :
    s = head ++ 0 :: tail ∧ 0 ∉ head := by
  have hs := List.takeWhile_append_dropWhile (p := (· ≠ (0 : UInt8))) (l := s)
  rw [splitAtNul, List.span_eq_takeWhile_dropWhile] at h
  cases hd : s.dropWhile (· ≠ 0) with
  | nil =>
    rw [hd] at h
    cases h
  | cons b rest =>
    have hb : b = 0 := by
      have hne := List.head?_dropWhile_not (· ≠ (0 : UInt8)) s
      rw [hd] at hne
      simpa using hne
    rw [hd] at h hs
    cases h
    subst hb
    refine ⟨hs.symm, fun hmem => ?_⟩
    simpa using List.mem_takeWhile_imp hmem

theorem splitAtNul_eq_none {s : List UInt8} (h : splitAtNul s = none) : 0 ∉ s := by
  rw [splitAtNul, List.span_eq_takeWhile_dropWhile] at h
  cases hd : s.dropWhile (· ≠ 0) with
  | nil =>
    intro hmem
    simpa using List.dropWhile_eq_nil_iff.1 hd 0 hmem
  | cons b rest =>
    rw [hd] at h
    cases h

theorem splitAtNul_of_notMem {s : List UInt8} (h : 0 ∉ s) : splitAtNul s = none := by
  cases hs : splitAtNul s with
  | none => rfl
  | some parts =>
    rw [(splitAtNul_eq_some hs).1] at h
    exact absurd (List.mem_append_right _ List.mem_cons_self) h

/-! ## Readers -/

namespace Reader

variable {α β : Type}

/-- The reader takes `s` off the front of any bytes that start with it, and gives `a`. -/
def Reads (r : Reader α) (s : List UInt8) (a : α) : Prop := ∀ rest, r (s ++ rest) = .ok a rest

/-- Every value of the reader satisfies `P`. -/
def Yields (r : Reader α) (P : α → Prop) : Prop := ∀ s a rest, r s = .ok a rest → P a

theorem reads_pure (a : α) : Reads (pure a) [] a := fun _ => rfl

theorem Reads.run_bind {r : Reader α} {s : List UInt8} {a : α} (h : Reads r s a)
    (k : α → Reader β) (rest : List UInt8) : (r >>= k) (s ++ rest) = k a rest := by
  simp only [bind, EStateM.bind, h rest]

theorem Reads.bind {r : Reader α} {s t : List UInt8} {a : α} {b : β} {k : α → Reader β}
    (h : Reads r s a) (hk : Reads (k a) t b) : Reads (r >>= k) (s ++ t) b := by
  intro rest
  rw [List.append_assoc, h.run_bind, hk rest]

theorem Reads.map {r : Reader α} {s : List UInt8} {a : α} (h : Reads r s a) (f : α → β) :
    Reads (f <$> r) s (f a) := by
  intro rest
  simp only [Functor.map, EStateM.map, h rest]

theorem map_eq_ok {r : Reader α} {s rest : List UInt8} {a : α} (h : r s = .ok a rest) (f : α → β) :
    (f <$> r) s = .ok (f a) rest := by
  simp only [Functor.map, EStateM.map, h]

theorem atEnd_bind_cons (k : Bool → Reader β) (b : UInt8) (s : List UInt8) :
    (atEnd >>= k) (b :: s) = k false (b :: s) := rfl

theorem ite_bind (c : Prop) [Decidable c] (q r : Reader α) (k : α → Reader β) :
    (if c then q >>= k else r >>= k) = (if c then q else r) >>= k := by
  split <;> rfl

theorem yields_true (r : Reader α) : Yields r fun _ => True := fun _ _ _ _ => trivial

theorem yields_pure {P : α → Prop} {a : α} (h : P a) : Yields (pure a) P := by
  intro s b rest hb
  cases hb
  exact h

theorem yields_throw {P : α → Prop} (e : CodecError) : Yields (throw e) P := by
  intro s b rest hb
  cases hb

theorem Yields.bind {r : Reader α} {k : α → Reader β} {P : α → Prop} {Q : β → Prop}
    (h : Yields r P) (hk : ∀ a, P a → Yields (k a) Q) : Yields (r >>= k) Q := by
  intro s b rest hb
  simp only [Bind.bind, EStateM.bind] at hb
  split at hb
  · next a t ha => exact hk a (h s a t ha) t b rest hb
  · cases hb

theorem Yields.map {r : Reader α} {P : β → Prop} {f : α → β} (h : Yields r fun a => P (f a)) :
    Yields (f <$> r) P := by
  intro s b rest hb
  simp only [Functor.map, EStateM.map] at hb
  split at hb
  · next a t ha =>
    cases hb
    exact h s a _ ha
  · cases hb

theorem Yields.imp {r : Reader α} {P Q : α → Prop} (h : Yields r P) (hPQ : ∀ a, P a → Q a) :
    Yields r Q := fun s a rest ha => hPQ a (h s a rest ha)

theorem yields_of_decode {r : Reader α} {P : α → Prop} (h : Yields r P) {s : List UInt8} {a : α}
    (ha : Reader.decode r s = .ok a) : P a := by
  simp only [Reader.decode] at ha
  split at ha
  · next b rest hb =>
    cases ha
    exact h s _ rest hb
  · cases ha

theorem reads_number {n v : Nat} (hv : v < 256 ^ n) : Reads (number n) (leBytes n v) v := by
  intro rest
  have hsplit : splitOff n (leBytes n v ++ rest) = some (leBytes n v, rest) := by
    rw [splitOff_eq, if_pos (by simp)]
    simp
  simp only [number, Functor.map, EStateM.map, bytes, hsplit, leValue_leBytes,
    Nat.mod_eq_of_lt hv]

theorem reads_u8 (v : UInt8) : Reads u8 [v] v := by
  have h := (reads_number (n := 1) v.toNat_lt).map UInt8.ofNat
  simpa [u8, leBytes] using h

theorem reads_u16 (v : UInt16) : Reads u16 (leBytes 2 v.toNat) v := by
  have h := (reads_number (n := 2) v.toNat_lt).map UInt16.ofNat
  simpa [u16] using h

theorem reads_u32 (v : UInt32) : Reads u32 (leBytes 4 v.toNat) v := by
  have h := (reads_number (n := 4) v.toNat_lt).map UInt32.ofNat
  simpa [u32] using h

theorem reads_u64 (v : UInt64) : Reads u64 (leBytes 8 v.toNat) v := by
  have h := (reads_number (n := 8) v.toNat_lt).map UInt64.ofNat
  simpa [u64] using h

theorem reads_i32 (v : Int32) : Reads i32 (leBytes 4 v.toUInt32.toNat) v := by
  have h := (reads_u32 v.toUInt32).map UInt32.toInt32
  simpa [i32] using h

theorem reads_flag (v : Bool) : Reads flag [if v then 1 else 0] v := by
  have h := (reads_u8 (if v then 1 else 0)).map fun b => decide (b ≠ 0)
  cases v <;> exact h

theorem reads_literal (s : List UInt8) : Reads (literal s) s () := by
  intro rest
  simp [literal]

theorem reads_lossyText {s : String} (h : '\x00' ∉ s.toList) :
    Reads lossyText (Text.Utf8.encode s ++ [0]) s := by
  intro rest
  have hz : (0 : UInt8) ∉ Text.Utf8.encode s := mt (Text.Utf8.zero_mem_encode s).1 h
  have hsplit := splitAtNul_append hz rest
  simp only [lossyText, Functor.map, EStateM.map, untilNul, List.append_assoc, List.cons_append,
    List.nil_append, hsplit, Text.Utf8.decodeLossy_encode]

theorem reads_lossyTextOrRest {s : String} (h : '\x00' ∉ s.toList) :
    Reads lossyTextOrRest (Text.Utf8.encode s ++ [0]) s := by
  intro rest
  have hz : (0 : UInt8) ∉ Text.Utf8.encode s := mt (Text.Utf8.zero_mem_encode s).1 h
  have hsplit := splitAtNul_append hz rest
  simp only [lossyTextOrRest, List.append_assoc, List.cons_append, List.nil_append, hsplit,
    Text.Utf8.decodeLossy_encode]

theorem reads_textUntilNul {s : String} (h : '\x00' ∉ s.toList) :
    Reads textUntilNul (Text.Utf8.encode s ++ [0]) s := by
  intro rest
  have hz : (0 : UInt8) ∉ Text.Utf8.encode s := mt (Text.Utf8.zero_mem_encode s).1 h
  have hsplit := splitAtNul_append hz rest
  simp only [textUntilNul, List.append_assoc, List.cons_append, List.nil_append, hsplit,
    Text.Utf8.decode?_encode]

theorem yields_lossyText : Yields lossyText fun s => '\x00' ∉ s.toList := by
  refine Yields.map fun s head rest h => ?_
  simp only [untilNul] at h
  split at h
  · next hs =>
    cases h
    exact Text.Utf8.nul_notMem_decodeLossy (splitAtNul_eq_some hs).2
  · cases h

theorem yields_lossyTextOrRest : Yields lossyTextOrRest fun s => '\x00' ∉ s.toList := by
  intro s t rest h
  simp only [lossyTextOrRest] at h
  split at h
  · next hs =>
    cases h
    exact Text.Utf8.nul_notMem_decodeLossy (splitAtNul_eq_some hs).2
  · next hs =>
    cases h
    exact Text.Utf8.nul_notMem_decodeLossy (splitAtNul_eq_none hs)

end Reader

end GameQuery
