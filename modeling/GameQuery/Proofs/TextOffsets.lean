import GameQuery.Proofs.TableRows
import GameQuery.Proofs.Utf8

namespace GameQuery.Text

/-!
# Offsets in a text

A text is stored as UTF-8, and a place in it is an offset in bytes. A cut at an offset fails unless
a character starts there or the text ends there.
-/

/-- The bytes that a text takes. -/
def byteLength : List Char → Nat
  | [] => 0
  | c :: cs => c.utf8Size + byteLength cs

@[simp] theorem byteLength_nil : byteLength [] = 0 := rfl

@[simp] theorem byteLength_cons (c : Char) (cs : List Char) :
    byteLength (c :: cs) = c.utf8Size + byteLength cs := rfl

@[simp] theorem byteLength_append (cs ds : List Char) :
    byteLength (cs ++ ds) = byteLength cs + byteLength ds := by
  induction cs with
  | nil => exact (Nat.zero_add _).symm
  | cons c cs ih => rw [List.cons_append, byteLength_cons, ih, byteLength_cons, Nat.add_assoc]

/-- The text before an offset and the text behind it. -/
def cutAt? : List Char → Nat → Option (List Char × List Char)
  | [], n => if n = 0 then some ([], []) else none
  | c :: cs, n =>
    if n = 0 then some ([], c :: cs)
    else if n < c.utf8Size then none
    else (cutAt? cs (n - c.utf8Size)).map fun (before, after) => (c :: before, after)

/-- The text between two offsets. -/
def slice? (cs : List Char) (first last : Nat) : Option (List Char) := do
  let (before, _) ← cutAt? cs last
  let (_, between) ← cutAt? before first
  some between

def firstOffset? (c : Char) : List Char → Option Nat
  | [] => none
  | d :: cs => if d = c then some 0 else (firstOffset? c cs).map (d.utf8Size + ·)

def lastOffset? (c : Char) : List Char → Option Nat
  | [] => none
  | d :: cs =>
    match lastOffset? c cs with
    | some n => some (d.utf8Size + n)
    | none => if d = c then some 0 else none

def isDigitByte (b : UInt8) : Bool := 0x30 ≤ b ∧ b ≤ 0x39

/-- The number of bytes in front of a text that are digits. -/
def digitBytes (cs : List Char) : Nat :=
  ((cs.flatMap String.utf8EncodeChar).takeWhile isDigitByte).length

variable {c : Char} {cs before after : List Char}

theorem cutAt?_append (before after : List Char) :
    cutAt? (before ++ after) (byteLength before) = some (before, after) := by
  induction before with
  | nil => cases after <;> rfl
  | cons c before ih =>
    have hpos := c.utf8Size_pos
    rw [List.cons_append, cutAt?, byteLength_cons, if_neg (by omega), if_neg (by omega),
      Nat.add_sub_cancel_left, ih]
    rfl

theorem slice?_append (before between after : List Char) :
    slice? (before ++ (between ++ after)) (byteLength before)
      (byteLength before + byteLength between) = some between := by
  rw [slice?, ← byteLength_append, ← List.append_assoc, cutAt?_append]
  simp only [Option.bind_eq_bind, Option.bind_some, cutAt?_append]

theorem firstOffset?_append (h : c ∉ before) (after : List Char) :
    firstOffset? c (before ++ c :: after) = some (byteLength before) := by
  induction before with
  | nil => exact if_pos rfl
  | cons d before ih =>
    rw [List.mem_cons, not_or] at h
    rw [List.cons_append, firstOffset?, if_neg (Ne.symm h.1), ih h.2, byteLength_cons]
    rfl

theorem firstOffset?_of_notMem (h : c ∉ cs) : firstOffset? c cs = none := by
  induction cs with
  | nil => rfl
  | cons d cs ih =>
    rw [List.mem_cons, not_or] at h
    rw [firstOffset?, if_neg (Ne.symm h.1), ih h.2]
    rfl

theorem lastOffset?_of_notMem (h : c ∉ cs) : lastOffset? c cs = none := by
  induction cs with
  | nil => rfl
  | cons d cs ih =>
    rw [List.mem_cons, not_or] at h
    rw [lastOffset?, ih h.2]
    exact if_neg (Ne.symm h.1)

theorem lastOffset?_append (h : c ∉ after) (before : List Char) :
    lastOffset? c (before ++ c :: after) = some (byteLength before) := by
  induction before with
  | nil =>
    rw [List.nil_append, lastOffset?, lastOffset?_of_notMem h]
    exact if_pos rfl
  | cons d before ih => rw [List.cons_append, lastOffset?, ih, byteLength_cons]

/-! ## Digits -/

theorem isDigitByte_ofNat {n : Nat} (hn : n < 256) :
    isDigitByte (UInt8.ofNat n) = true ↔ 48 ≤ n ∧ n ≤ 57 := by
  rw [isDigitByte, decide_eq_true_eq, UInt8.le_iff_toNat_le, UInt8.le_iff_toNat_le,
    Utf8.toNat_byte hn]
  rfl

theorem utf8Size_of_isDigit (h : c.isDigit = true) : c.utf8Size = 1 := by
  rw [Char.utf8Size_eq_one_iff, UInt32.le_iff_toNat_le]
  exact Nat.le_trans (Char.isDigit_iff_toNat.1 h).2 (by decide)

/-- The first byte of a character is a digit exactly when the character is. -/
theorem isDigitByte_head (c : Char) :
    ∃ b bs, String.utf8EncodeChar c = b :: bs ∧ (isDigitByte b = true ↔ c.isDigit = true) := by
  have hv : c.val.toNat = c.toNat := rfl
  have hc := Utf8.toNat_cases c
  have hdigit : c.isDigit = true ↔ 48 ≤ c.toNat ∧ c.toNat ≤ 57 := Char.isDigit_iff_toNat
  rw [hdigit]
  fun_cases String.utf8EncodeChar c
  all_goals
    refine ⟨_, _, rfl, (isDigitByte_ofNat (by omega)).trans ?_⟩
    omega

/-- Digits are found at the same place whether bytes or characters are looked at. -/
theorem digitBytes_eq (cs : List Char) :
    digitBytes cs = byteLength (cs.takeWhile Char.isDigit) := by
  induction cs with
  | nil => rfl
  | cons c cs ih =>
    obtain ⟨b, bs, hb, hdigit⟩ := isDigitByte_head c
    rw [digitBytes, List.flatMap_cons, hb, List.cons_append]
    by_cases hc : c.isDigit = true
    · have hsize := utf8Size_of_isDigit hc
      have hbs : bs = [] := by
        have hlength := String.length_utf8EncodeChar c
        rw [hb, List.length_cons, hsize, Nat.add_eq_right] at hlength
        exact List.length_eq_zero_iff.1 hlength
      rw [hbs, List.nil_append, List.takeWhile_cons_of_pos (hdigit.2 hc), List.length_cons,
        List.takeWhile_cons_of_pos hc, byteLength_cons, hsize, ← ih, digitBytes, Nat.add_comm]
    · rw [List.takeWhile_cons_of_neg (mt hdigit.1 hc), List.takeWhile_cons_of_neg hc]
      rfl

/-! ## Quotes -/

/-- A text has no `c`, one, or a first one and a last one. -/
theorem outer_cases (c : Char) (cs : List Char) :
    c ∉ cs ∨ (∃ before after, cs = before ++ c :: after ∧ c ∉ before ∧ c ∉ after) ∨
      ∃ before between after, cs = before ++ c :: (between ++ c :: after) ∧ c ∉ before ∧
        c ∉ after := by
  by_cases h : c ∈ cs
  · right
    obtain ⟨before, rest, rfl, hbefore⟩ := List.eq_append_cons_of_mem h
    by_cases hrest : c ∈ rest
    · right
      obtain ⟨after, between, hsplit, hafter⟩ :=
        List.eq_append_cons_of_mem (List.mem_reverse.2 hrest)
      have hrest' : rest = between.reverse ++ c :: after.reverse := by
        rw [← List.reverse_reverse rest, hsplit]
        simp
      refine ⟨before, between.reverse, after.reverse, by rw [hrest'], hbefore, ?_⟩
      exact fun hmem => hafter (List.mem_reverse.1 hmem)
    · left
      exact ⟨before, rest, rfl, hbefore, hrest⟩
  · left
    exact h

theorem count_lt_or_outer (c : Char) (cs : List Char) :
    cs.count c < 2 ∨ ∃ before between after, cs = before ++ c :: (between ++ c :: after) ∧
      c ∉ before ∧ c ∉ after := by
  rcases outer_cases c cs with hnone | ⟨before, after, rfl, hbefore, hafter⟩ | houter
  · left
    rw [List.count_eq_zero.2 hnone]
    decide
  · left
    rw [List.count_append, List.count_cons_self, List.count_eq_zero.2 hbefore,
      List.count_eq_zero.2 hafter]
    decide
  · right
    exact houter

end GameQuery.Text
