import GameQuery.Bytes.Writer

namespace GameQuery

/-!
# What writers write

A writer that cannot fail for another reason than lack of room is `bytes s` for some byte string
`s`. Two of them in a row write the strings one after another, so a whole packet is one string.
-/

namespace Writer

/-- Strings written one after another are one string. -/
theorem bytes_bind_bytes (s t : List UInt8) :
    (bytes s >>= fun _ => bytes t) = bytes (s ++ t) := by
  funext b
  simp only [bind, StateT.bind, bytes, Except.bind, Buffer.put_append]
  cases b.put s <;> rfl

theorem textNul_eq (s : String) : textNul s = bytes (Text.Utf8.encode s ++ [0]) :=
  bytes_bind_bytes _ _

/-- A choice between two strings writes the chosen one. -/
theorem ite_bytes (c : Prop) [Decidable c] (s t : List UInt8) :
    (if c then bytes s else bytes t) = bytes (if c then s else t) := by
  split <;> rfl

theorem forM_bytes {α : Type} (f : α → List UInt8) (xs : List α) :
    (xs.forM fun x => bytes (f x)) = bytes (xs.flatMap f) := by
  induction xs with
  | nil => rfl
  | cons x xs ih =>
    change (bytes (f x) >>= fun _ => xs.forM fun x => bytes (f x)) = _
    rw [ih, bytes_bind_bytes, List.flatMap_cons]

/-- What a buffer holds behind a string written over its front. -/
theorem encode_bytes (s buffer : List UInt8) :
    (bytes s).encode buffer =
      if s.length ≤ buffer.length then .ok ⟨s.length, s ++ buffer.drop s.length⟩
      else .error .endOfBuffer := by
  simp only [encode, fill, bytes, Buffer.put_eq, Buffer.ofList]
  by_cases h : s.length ≤ buffer.length <;> simp [h, Buffer.toList]

theorem bytes_of_encode {s buffer : List UInt8} {filled : Filled}
    (h : (bytes s).encode buffer = .ok filled) : filled.bytes = s := by
  rw [encode_bytes] at h
  split at h
  · cases h
    simp [Filled.bytes]
  · cases h

/-- A string that fits is written. -/
theorem encode_bytes_of_le {s buffer : List UInt8} (h : s.length ≤ buffer.length) :
    ∃ filled, (bytes s).encode buffer = .ok filled ∧ filled.bytes = s := by
  refine ⟨_, (encode_bytes s buffer).trans (if_pos h), ?_⟩
  simp [Filled.bytes]

/-- An encoder writes exactly `s`, over the front of every buffer that has room for it. -/
def Encodes (encode : List UInt8 → Except CodecError Filled) (s : List UInt8) : Prop :=
  ∀ buffer, encode buffer =
    if s.length ≤ buffer.length then .ok ⟨s.length, s ++ buffer.drop s.length⟩
    else .error .endOfBuffer

theorem encodes_bytes (s : List UInt8) : Encodes (bytes s).encode s := encode_bytes s

theorem Encodes.unique {encode : List UInt8 → Except CodecError Filled} {s t : List UInt8}
    (hs : Encodes encode s) (ht : Encodes encode t) : s = t := by
  have hsame := (hs (s ++ t)).symm.trans (ht (s ++ t))
  rw [if_pos (by simp), if_pos (by simp)] at hsame
  obtain ⟨hlength, hbuffer⟩ : s.length = t.length ∧ _ = _ := by simpa using hsame
  exact (List.append_inj hbuffer hlength).1

theorem Encodes.eq_iff {encode : List UInt8 → Except CodecError Filled} {s t : List UInt8}
    (ht : Encodes encode t) : s = t ↔ Encodes encode s := by
  constructor
  · rintro rfl
    exact ht
  · intro hs
    exact hs.unique ht

end Writer

end GameQuery
