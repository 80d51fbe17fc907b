import GameQuery.Text.Utf8
import Mathlib.Logic.Basic

namespace GameQuery.Text.Utf8

/-!
# UTF-8 round trips

Lossy decoding undoes encoding, and it brings in no NUL: a scan finds the NUL only at the byte
zero. Strict decoding accepts exactly what encoding writes. Each length of a character has a lemma
of its own that says which bytes are scanned, and one that says which bytes are written.
-/

/-- The code points of characters: surrogates are left out. -/
theorem toNat_cases (c : Char) :
    c.toNat < 0xD800 ∨ (0xDFFF < c.toNat ∧ c.toNat < 0x110000) := by
  have h := c.valid
  simpa [UInt32.isValidChar, Nat.isValidChar] using h

theorem toNat_ofNat {n : Nat} (hn : n < 0xD800 ∨ (0xDFFF < n ∧ n < 0x110000)) :
    (Char.ofNat n).toNat = n := by
  have hv : n.isValidChar := hn
  rw [Char.ofNat, dif_pos hv]
  rfl

theorem ofNat_eq_byte {b : UInt8} {n : Nat} (h : n = b.toNat) : UInt8.ofNat n = b := by
  rw [h, UInt8.ofNat_toNat]

theorem toNat_byte {n : Nat} (hn : n < 256) : (UInt8.ofNat n).toNat = n :=
  UInt8.toNat_ofNat_of_lt' hn

theorem isTail_iff (b : UInt8) : isTail b = true ↔ 0x80 ≤ b.toNat ∧ b.toNat ≤ 0xBF := by
  simp [isTail, UInt8.le_iff_toNat_le]

theorem isSecondOfThree_iff (b c : UInt8) : isSecondOfThree b c = true ↔
    (b.toNat = 0xE0 ∧ 0xA0 ≤ c.toNat ∧ c.toNat ≤ 0xBF) ∨
      (0xE1 ≤ b.toNat ∧ b.toNat ≤ 0xEC ∧ 0x80 ≤ c.toNat ∧ c.toNat ≤ 0xBF) ∨
      (b.toNat = 0xED ∧ 0x80 ≤ c.toNat ∧ c.toNat ≤ 0x9F) ∨
      (0xEE ≤ b.toNat ∧ b.toNat ≤ 0xEF ∧ 0x80 ≤ c.toNat ∧ c.toNat ≤ 0xBF) := by
  simp [isSecondOfThree, isTail, UInt8.le_iff_toNat_le, ← UInt8.toNat_inj]

theorem isSecondOfFour_iff (b c : UInt8) : isSecondOfFour b c = true ↔
    (b.toNat = 0xF0 ∧ 0x90 ≤ c.toNat ∧ c.toNat ≤ 0xBF) ∨
      (0xF1 ≤ b.toNat ∧ b.toNat ≤ 0xF3 ∧ 0x80 ≤ c.toNat ∧ c.toNat ≤ 0xBF) ∨
      (b.toNat = 0xF4 ∧ 0x80 ≤ c.toNat ∧ c.toNat ≤ 0x8F) := by
  simp [isSecondOfFour, isTail, UInt8.le_iff_toNat_le, ← UInt8.toNat_inj]

theorem scan_of_one {b : UInt8} (hb : b.toNat < 0x80) (s : List UInt8) :
    scan b s = (some (Char.ofNat b.toNat), s) := by
  have h₁ : b < 0x80 := UInt8.lt_iff_toNat_lt.2 hb
  cases s <;> simp [scan, h₁]

theorem scan_of_two {b c : UInt8} (hb : 0xC2 ≤ b.toNat ∧ b.toNat ≤ 0xDF) (hc : isTail c = true)
    (s : List UInt8) :
    scan b (c :: s) = (some (Char.ofNat (b.toNat % 32 * 64 + tailBits c)), s) := by
  have h₁ : ¬ b < 0x80 := by simp [UInt8.lt_iff_toNat_lt]; omega
  have h₂ : 0xC2 ≤ b ∧ b ≤ 0xDF := by simpa [UInt8.le_iff_toNat_le] using hb
  simp [scan, h₁, h₂, hc]

theorem scan_of_three {b c d : UInt8} (hb : isSecondOfThree b c = true) (hd : isTail d = true)
    (s : List UInt8) :
    scan b (c :: d :: s) =
      (some (Char.ofNat (b.toNat % 16 * 4096 + tailBits c * 64 + tailBits d)), s) := by
  have hb' := (isSecondOfThree_iff b c).1 hb
  have h₁ : ¬ b < 0x80 := by simp [UInt8.lt_iff_toNat_lt]; omega
  have h₂ : ¬ (0xC2 ≤ b ∧ b ≤ 0xDF) := by simp [UInt8.le_iff_toNat_le]; omega
  have h₃ : 0xE0 ≤ b ∧ b ≤ 0xEF := by simp [UInt8.le_iff_toNat_le]; omega
  simp only [scan, h₁, h₂, h₃, hb, hd, if_false, if_true, and_self]

theorem scan_of_four {b c d e : UInt8} (hb : isSecondOfFour b c = true) (hd : isTail d = true)
    (he : isTail e = true) (s : List UInt8) :
    scan b (c :: d :: e :: s) =
      (some (Char.ofNat (b.toNat % 8 * 262144 + tailBits c * 4096 + tailBits d * 64 + tailBits e)),
        s) := by
  have hb' := (isSecondOfFour_iff b c).1 hb
  have h₁ : ¬ b < 0x80 := by simp [UInt8.lt_iff_toNat_lt]; omega
  have h₂ : ¬ (0xC2 ≤ b ∧ b ≤ 0xDF) := by simp [UInt8.le_iff_toNat_le]; omega
  have h₃ : ¬ (0xE0 ≤ b ∧ b ≤ 0xEF) := by simp [UInt8.le_iff_toNat_le]; omega
  have h₄ : 0xF0 ≤ b ∧ b ≤ 0xF4 := by simp [UInt8.le_iff_toNat_le]; omega
  simp only [scan, h₁, h₂, h₃, h₄, hb, hd, he, if_false, if_true, and_self]

/-- A scan of an encoded character finds it, whatever follows. -/
theorem scan_utf8EncodeChar (c : Char) (s : List UInt8) :
    ∃ b t, String.utf8EncodeChar c = b :: t ∧ scan b (t ++ s) = (some c, s) := by
  have hc := toNat_cases c
  have hv : c.val.toNat = c.toNat := rfl
  fun_cases String.utf8EncodeChar c with
  | case1 v h =>
    refine ⟨_, _, rfl, ?_⟩
    have hb : (UInt8.ofNat v).toNat = c.toNat := toNat_byte (by omega)
    rw [List.nil_append, scan_of_one (by omega), hb, Char.ofNat_toNat]
  | case2 v h₁ h₂ =>
    refine ⟨_, _, rfl, ?_⟩
    have hb := toNat_byte (show v / 64 % 0x20 + 0xc0 < 256 by omega)
    have ht := toNat_byte (show v % 0x40 + 0x80 < 256 by omega)
    have hval : c.toNat = (v / 64 % 0x20 + 0xc0) % 32 * 64 + (v % 0x40 + 0x80) % 64 := by omega
    rw [List.cons_append, List.nil_append,
      scan_of_two (by omega) ((isTail_iff _).2 (by omega)), tailBits, hb, ht, ← hval,
      Char.ofNat_toNat]
  | case3 v h₁ h₂ h₃ =>
    refine ⟨_, _, rfl, ?_⟩
    have hb := toNat_byte (show v / 4096 % 0x10 + 0xe0 < 256 by omega)
    have ht := toNat_byte (show v / 64 % 0x40 + 0x80 < 256 by omega)
    have hu := toNat_byte (show v % 0x40 + 0x80 < 256 by omega)
    have hval : c.toNat = (v / 4096 % 0x10 + 0xe0) % 16 * 4096 + (v / 64 % 0x40 + 0x80) % 64 * 64 +
        (v % 0x40 + 0x80) % 64 := by omega
    simp only [List.cons_append, List.nil_append]
    rw [scan_of_three ((isSecondOfThree_iff _ _).2 (by omega)) ((isTail_iff _).2 (by omega)),
      tailBits, tailBits, hb, ht, hu, ← hval, Char.ofNat_toNat]
  | case4 v h₁ h₂ h₃ =>
    refine ⟨_, _, rfl, ?_⟩
    have hb := toNat_byte (show v / 262144 % 0x08 + 0xf0 < 256 by omega)
    have ht := toNat_byte (show v / 4096 % 0x40 + 0x80 < 256 by omega)
    have hu := toNat_byte (show v / 64 % 0x40 + 0x80 < 256 by omega)
    have hw := toNat_byte (show v % 0x40 + 0x80 < 256 by omega)
    have hval : c.toNat = (v / 262144 % 0x08 + 0xf0) % 8 * 262144 +
        (v / 4096 % 0x40 + 0x80) % 64 * 4096 + (v / 64 % 0x40 + 0x80) % 64 * 64 +
        (v % 0x40 + 0x80) % 64 := by omega
    simp only [List.cons_append, List.nil_append]
    rw [scan_of_four ((isSecondOfFour_iff _ _).2 (by omega)) ((isTail_iff _).2 (by omega))
      ((isTail_iff _).2 (by omega)), tailBits, tailBits, tailBits, hb, ht, hu, hw, ← hval,
      Char.ofNat_toNat]

theorem utf8EncodeChar_of_one {b : UInt8} (hb : b.toNat < 0x80) :
    String.utf8EncodeChar (Char.ofNat b.toNat) = [b] := by
  have hval := toNat_ofNat (n := b.toNat) (by omega)
  generalize Char.ofNat b.toNat = c at hval ⊢
  have hv : c.val.toNat = c.toNat := rfl
  simp only [String.utf8EncodeChar, hv, hval]
  rw [if_pos (by omega), ofNat_eq_byte rfl]

theorem utf8EncodeChar_of_two {b x : UInt8} (hb : 0xC2 ≤ b.toNat ∧ b.toNat ≤ 0xDF)
    (hx : isTail x = true) :
    String.utf8EncodeChar (Char.ofNat (b.toNat % 32 * 64 + tailBits x)) = [b, x] := by
  have hx' := (isTail_iff x).1 hx
  have hval := toNat_ofNat (n := b.toNat % 32 * 64 + tailBits x) (by rw [tailBits]; omega)
  generalize Char.ofNat _ = c at hval ⊢
  have hv : c.val.toNat = c.toNat := rfl
  simp only [String.utf8EncodeChar, hv, hval, tailBits]
  rw [if_neg (by omega), if_pos (by omega), ofNat_eq_byte (b := b) (by omega),
    ofNat_eq_byte (b := x) (by omega)]

theorem utf8EncodeChar_of_three {b x y : UInt8} (hx : isSecondOfThree b x = true)
    (hy : isTail y = true) :
    String.utf8EncodeChar (Char.ofNat (b.toNat % 16 * 4096 + tailBits x * 64 + tailBits y)) =
      [b, x, y] := by
  have hx' := (isSecondOfThree_iff b x).1 hx
  have hy' := (isTail_iff y).1 hy
  have hval := toNat_ofNat (n := b.toNat % 16 * 4096 + tailBits x * 64 + tailBits y)
    (by simp only [tailBits]; omega)
  generalize Char.ofNat _ = c at hval ⊢
  have hv : c.val.toNat = c.toNat := rfl
  simp only [String.utf8EncodeChar, hv, hval, tailBits]
  rw [if_neg (by omega), if_neg (by omega), if_pos (by omega), ofNat_eq_byte (b := b) (by omega),
    ofNat_eq_byte (b := x) (by omega), ofNat_eq_byte (b := y) (by omega)]

theorem utf8EncodeChar_of_four {b x y z : UInt8} (hx : isSecondOfFour b x = true)
    (hy : isTail y = true) (hz : isTail z = true) :
    String.utf8EncodeChar (Char.ofNat
      (b.toNat % 8 * 262144 + tailBits x * 4096 + tailBits y * 64 + tailBits z)) =
        [b, x, y, z] := by
  have hx' := (isSecondOfFour_iff b x).1 hx
  have hy' := (isTail_iff y).1 hy
  have hz' := (isTail_iff z).1 hz
  have hval := toNat_ofNat
    (n := b.toNat % 8 * 262144 + tailBits x * 4096 + tailBits y * 64 + tailBits z)
    (by simp only [tailBits]; omega)
  generalize Char.ofNat _ = c at hval ⊢
  have hv : c.val.toNat = c.toNat := rfl
  simp only [String.utf8EncodeChar, hv, hval, tailBits]
  rw [if_neg (by omega), if_neg (by omega), if_neg (by omega), ofNat_eq_byte (b := b) (by omega),
    ofNat_eq_byte (b := x) (by omega), ofNat_eq_byte (b := y) (by omega),
    ofNat_eq_byte (b := z) (by omega)]

/-- A scan that finds a character takes the bytes that the character is written with. -/
theorem eq_utf8EncodeChar_append_of_scan (b : UInt8) (s : List UInt8) (c : Char)
    (t : List UInt8) : scan b s = (some c, t) → b :: s = String.utf8EncodeChar c ++ t := by
  fun_cases scan b s
  case case1 hb =>
    rintro ⟨⟩
    rw [utf8EncodeChar_of_one (UInt8.lt_iff_toNat_lt.1 hb), List.singleton_append]
  case case2 hb x _ hx =>
    have hb' : 0xC2 ≤ b.toNat ∧ b.toNat ≤ 0xDF := by simpa [UInt8.le_iff_toNat_le] using hb
    rintro ⟨⟩
    rw [utf8EncodeChar_of_two hb' hx]
    rfl
  case case5 x hx y _ hy =>
    rintro ⟨⟩
    rw [utf8EncodeChar_of_three hx hy]
    rfl
  case case10 x hx y hy z _ hz =>
    rintro ⟨⟩
    rw [utf8EncodeChar_of_four hx hy hz]
    rfl
  -- Everywhere else the scan finds no character.
  all_goals
    intro h
    cases h

theorem scanAll_cons (b : UInt8) (s : List UInt8) :
    scanAll (b :: s) = (scan b s).1 :: scanAll (scan b s).2 := by rw [scanAll]

/-- Scanning an encoded text finds its characters, whatever follows. -/
theorem scanAll_flatMap_append (cs : List Char) (s : List UInt8) :
    scanAll (cs.flatMap String.utf8EncodeChar ++ s) = cs.map some ++ scanAll s := by
  induction cs with
  | nil => rfl
  | cons c cs ih =>
    obtain ⟨b, t, hc, hscan⟩ :=
      scan_utf8EncodeChar c (cs.flatMap String.utf8EncodeChar ++ s)
    rw [List.flatMap_cons, List.append_assoc, hc, List.cons_append, scanAll_cons, hscan, ih]
    rfl

theorem scanAll_encode (s : String) : scanAll (encode s) = s.toList.map some := by
  have h := scanAll_flatMap_append s.toList []
  simpa [encode, scanAll] using h

@[simp] theorem decodeLossy_encode (s : String) : decodeLossy (encode s) = s := by
  simp [decodeLossy, scanAll_encode, Function.comp_def]

theorem decodeLossy_eq_empty_iff {s : List UInt8} : decodeLossy s = "" ↔ s = [] := by
  constructor
  · intro h
    cases s with
    | nil => rfl
    | cons b s => simp [decodeLossy, scanAll_cons, ← String.toList_inj] at h
  · rintro rfl
    exact decodeLossy_encode ""

theorem eq_flatMap_of_scanAll {s : List UInt8} {cs : List Char} (h : scanAll s = cs.map some) :
    s = cs.flatMap String.utf8EncodeChar := by
  fun_induction scanAll s generalizing cs with
  | case1 =>
    rw [List.map_eq_nil_iff.1 h.symm]
    rfl
  | case2 b s _ ih =>
    obtain ⟨c, rest, rfl, hc, hrest⟩ := List.map_eq_cons_iff.1 h.symm
    rw [eq_utf8EncodeChar_append_of_scan b s c _ (Prod.ext hc.symm rfl), List.flatMap_cons]
    exact congrArg _ (ih hrest.symm)

theorem mapM_id_eq_some {xs : List (Option Char)} {cs : List Char} :
    xs.mapM id = some cs ↔ xs = cs.map some := by
  induction xs generalizing cs with
  | nil => cases cs <;> simp
  | cons x xs ih =>
    rw [List.mapM_cons]
    cases x with
    | none => cases cs <;> simp
    | some x =>
      constructor
      · intro h
        obtain ⟨rest, hrest, rfl⟩ : ∃ rest, xs.mapM id = some rest ∧ x :: rest = cs := by
          simpa [Option.bind_eq_some_iff] using h
        rw [ih.1 hrest, List.map_cons]
      · intro h
        obtain ⟨c, rest, rfl, hc, hrest⟩ := List.map_eq_cons_iff.1 h.symm
        cases hc
        rw [ih.2 hrest.symm]
        rfl

theorem decode?_encode (s : String) : decode? (encode s) = some s := by
  rw [decode?, scanAll_encode, mapM_id_eq_some.2 rfl, Option.map_some, String.ofList_toList]

theorem decode?_eq_some_iff {s : List UInt8} {t : String} :
    decode? s = some t ↔ s = encode t := by
  constructor
  · intro h
    obtain ⟨cs, hcs, rfl⟩ := Option.map_eq_some_iff.1 h
    rw [encode, String.toList_ofList]
    exact eq_flatMap_of_scanAll (mapM_id_eq_some.1 hcs)
  · rintro rfl
    exact decode?_encode t

/-- The byte zero stands for the NUL alone. -/
theorem zero_mem_utf8EncodeChar (c : Char) : 0 ∈ String.utf8EncodeChar c ↔ c = '\x00' := by
  have hc := toNat_cases c
  have hv : c.val.toNat = c.toNat := rfl
  have hz : c = '\x00' ↔ c.toNat = 0 := by rw [← Char.toNat_inj]; rfl
  rw [hz]
  fun_cases String.utf8EncodeChar c with
  | case1 v h =>
    have hb := toNat_byte (show v < 256 by omega)
    simp only [List.mem_singleton, ← UInt8.toNat_inj, hb]
    change 0 = v ↔ _
    omega
  | case2 v h₁ h₂ =>
    have hb := toNat_byte (show v / 64 % 0x20 + 0xc0 < 256 by omega)
    have ht := toNat_byte (show v % 0x40 + 0x80 < 256 by omega)
    simp only [List.mem_cons, List.not_mem_nil, or_false, ← UInt8.toNat_inj, hb, ht]
    change 0 = _ ∨ 0 = _ ↔ _
    omega
  | case3 v h₁ h₂ h₃ =>
    have hb := toNat_byte (show v / 4096 % 0x10 + 0xe0 < 256 by omega)
    have ht := toNat_byte (show v / 64 % 0x40 + 0x80 < 256 by omega)
    have hu := toNat_byte (show v % 0x40 + 0x80 < 256 by omega)
    simp only [List.mem_cons, List.not_mem_nil, or_false, ← UInt8.toNat_inj, hb, ht, hu]
    change 0 = _ ∨ 0 = _ ∨ 0 = _ ↔ _
    omega
  | case4 v h₁ h₂ h₃ =>
    have hb := toNat_byte (show v / 262144 % 0x08 + 0xf0 < 256 by omega)
    have ht := toNat_byte (show v / 4096 % 0x40 + 0x80 < 256 by omega)
    have hu := toNat_byte (show v / 64 % 0x40 + 0x80 < 256 by omega)
    have hw := toNat_byte (show v % 0x40 + 0x80 < 256 by omega)
    simp only [List.mem_cons, List.not_mem_nil, or_false, ← UInt8.toNat_inj, hb, ht, hu, hw]
    change 0 = _ ∨ 0 = _ ∨ 0 = _ ∨ 0 = _ ↔ _
    omega

theorem zero_mem_encode (s : String) : 0 ∈ encode s ↔ '\x00' ∈ s.toList := by
  simp [encode, zero_mem_utf8EncodeChar]

theorem ofNat_ne_nul {n : Nat} (hn : n < 0xD800 ∨ (0xDFFF < n ∧ n < 0x110000)) (h : 0 < n) :
    Char.ofNat n ≠ '\x00' := by
  have hval := toNat_ofNat hn
  intro he
  rw [he] at hval
  exact Nat.ne_of_lt h hval

theorem tailBits_lt (b : UInt8) : tailBits b < 64 := Nat.mod_lt _ (by decide)

/-- A scan that does not start at the byte zero does not find the NUL. -/
theorem scan_ne_nul {b : UInt8} (hb : b ≠ 0) (s : List UInt8) :
    (scan b s).1 ≠ some '\x00' := by
  fun_cases scan b s
  all_goals simp only [ne_eq, Option.some.injEq, reduceCtorEq, not_false_eq_true]
  · next h =>
    have hpos : b.toNat ≠ 0 := fun h => hb (UInt8.toNat_inj.1 h)
    have hlt := UInt8.lt_iff_toNat_lt.1 h
    change b.toNat < 128 at hlt
    exact ofNat_ne_nul (by omega) (by omega)
  · next h c _ _ =>
    have hb' : 0xC2 ≤ b.toNat ∧ b.toNat ≤ 0xDF := by simpa [UInt8.le_iff_toNat_le] using h
    have hc := tailBits_lt c
    exact ofNat_ne_nul (by omega) (by omega)
  · next c h d _ _ =>
    have hb' := (isSecondOfThree_iff b c).1 h
    have hd := tailBits_lt d
    simp only [tailBits] at hd ⊢
    exact ofNat_ne_nul (by omega) (by omega)
  · next c h d hd e _ _ =>
    have hb' := (isSecondOfFour_iff b c).1 h
    have hd := tailBits_lt d
    have he := tailBits_lt e
    simp only [tailBits] at hd he ⊢
    exact ofNat_ne_nul (by omega) (by omega)

theorem scan_suffix (b : UInt8) (s : List UInt8) : (scan b s).2 <:+ s := by
  fun_cases scan b s
  all_goals first
    | exact List.suffix_refl _
    | exact List.suffix_cons _ _
    | exact (List.suffix_cons _ _).trans (List.suffix_cons _ _)
    | exact ((List.suffix_cons _ _).trans (List.suffix_cons _ _)).trans (List.suffix_cons _ _)

theorem nul_notMem_scanAll {s : List UInt8} (h : 0 ∉ s) : some '\x00' ∉ scanAll s := by
  fun_induction scanAll s with
  | case1 => exact List.not_mem_nil
  | case2 b s _ ih =>
    rw [List.mem_cons, not_or] at h ⊢
    refine ⟨(scan_ne_nul (Ne.symm h.1) s).symm, ih fun hmem => ?_⟩
    exact h.2 ((scan_suffix b s).subset hmem)

theorem nul_notMem_decodeLossy {s : List UInt8} (h : 0 ∉ s) :
    '\x00' ∉ (decodeLossy s).toList := by
  simp only [decodeLossy, String.toList_ofList, List.mem_map, not_exists, not_and]
  intro c hc
  cases c with
  | none => decide
  | some c =>
    rintro rfl
    exact nul_notMem_scanAll h hc

end GameQuery.Text.Utf8
