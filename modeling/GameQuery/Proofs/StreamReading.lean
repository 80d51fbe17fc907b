import GameQuery.Bzip2.Stream
import GameQuery.Proofs.Decompression

namespace GameQuery.Bzip2

/-!
# Reading from a stream

A stream is decoded no further than its reader asks for. `yield` is what it yields if nothing stops
it, and stopping makes no difference to the reader: where decoding stops, more bytes are out than
the reader wants, and they are the first of those that the stream yields.
-/

/-! ## Streams that nothing stops -/

def spellAll (runs : Array UInt8) (size : Nat) : Nat → Nat → Output → Except Output Output
  | 0, _, out => .ok out
  | fuel + 1, i, out =>
    if size < i then .error out
    else if i = size then .ok out
    else
      let (length, next) := runAt runs size i
      spellAll runs size fuel next (out.push (runs.getD i 0) length)

def Block.putAll (block : Block) (bytes : ByteArray) : Except Output Output :=
  let size := block.lastColumn.size
  spellAll block.runs size (size + 1) 0 ⟨bytes, 0xFFFFFFFF⟩

/-- Goes on with `rest` after a block whose text has been put out, unless it is damaged. -/
def Block.resume (block : Block) (checksum : UInt32) (rest : UInt32 → ByteArray → Yield) :
    Except Output Output → Yield
  | .error out => ⟨out.bytes, .damaged⟩
  | .ok out =>
    if ~~~out.checksum ≠ block.checksum then ⟨out.bytes, .damaged⟩
    else rest (combine checksum block.checksum) out.bytes

def allParts (data : ByteArray) (capacity : Nat) : Nat → Nat → UInt32 → ByteArray → Yield
  | 0, _, _, bytes => ⟨bytes, .truncated⟩
  | fuel + 1, position, checksum, bytes =>
    match (part capacity).run data position with
    | .error fault => ⟨bytes, fault.ending⟩
    | .ok (.trailer stored, _) => ⟨bytes, if checksum = stored then .clean else .damaged⟩
    | .ok (.block block, position) =>
      block.resume checksum (allParts data capacity fuel position) (block.putAll bytes)

/-- All that a stream yields. -/
def yield (data : ByteArray) : Yield :=
  match header.run data 0 with
  | .error fault => ⟨ByteArray.empty, fault.ending⟩
  | .ok (capacity, position) => allParts data capacity (data.size + 1) position 0 ByteArray.empty

/-- What the decoder makes of a stream. -/
def decoding (data : List UInt8) : Decoding where
  bytes := (yield ⟨data.toArray⟩).bytes.data.toList
  isClean := (yield ⟨data.toArray⟩).ending = .clean

/-! ## Bytes that are out stay out -/

/-- The bytes of `a` are the first ones of `b`. -/
def Starts (a b : ByteArray) : Prop := a.data.toList <+: b.data.toList

theorem Starts.refl (a : ByteArray) : Starts a a := List.prefix_refl a.data.toList

theorem Starts.trans {a b c : ByteArray} (h : Starts a b) (h' : Starts b c) : Starts a c :=
  List.IsPrefix.trans h h'

theorem Starts.size_le {a b : ByteArray} (h : Starts a b) : a.size ≤ b.size :=
  List.IsPrefix.length_le h

/-- The bytes that are out, whether or not the block is damaged. -/
def bytesOut : Except Output Output → ByteArray
  | .ok out => out.bytes
  | .error out => out.bytes

theorem starts_push (out : Output) (b : UInt8) (n : Nat) :
    Starts out.bytes (out.push b n).bytes := by
  induction n generalizing out with
  | zero => exact Starts.refl out.bytes
  | succ n ih =>
    have hone : Starts out.bytes (out.bytes.push b) := by
      rw [Starts, ByteArray.data_push, Array.toList_push]
      exact List.prefix_append _ [b]
    exact hone.trans (ih ⟨out.bytes.push b, crcByteLeft out.checksum b⟩)

theorem starts_spellAll (runs : Array UInt8) (size fuel i : Nat) (out : Output) :
    Starts out.bytes (bytesOut (spellAll runs size fuel i out)) := by
  fun_induction spellAll runs size fuel i out with
  | case1 i out => exact Starts.refl out.bytes
  | case2 fuel i out => exact Starts.refl out.bytes
  | case3 fuel out => exact Starts.refl out.bytes
  | case4 fuel i out _ _ length next _ ih => exact (starts_push out _ length).trans ih

theorem starts_putAll (block : Block) (bytes : ByteArray) :
    Starts bytes (bytesOut (block.putAll bytes)) :=
  starts_spellAll block.runs block.lastColumn.size _ 0 ⟨bytes, 0xFFFFFFFF⟩

theorem starts_resume (block : Block) (checksum : UInt32) {rest : UInt32 → ByteArray → Yield}
    (hrest : ∀ checksum bytes, Starts bytes (rest checksum bytes).bytes)
    (put : Except Output Output) :
    Starts (bytesOut put) (block.resume checksum rest put).bytes := by
  cases put with
  | error out => exact Starts.refl out.bytes
  | ok out =>
    rw [Block.resume]
    split
    · exact Starts.refl out.bytes
    · exact hrest _ out.bytes

theorem starts_allParts (data : ByteArray) (capacity fuel position : Nat) (checksum : UInt32)
    (bytes : ByteArray) :
    Starts bytes (allParts data capacity fuel position checksum bytes).bytes := by
  induction fuel generalizing position checksum bytes with
  | zero => exact Starts.refl bytes
  | succ fuel ih =>
    unfold allParts
    split
    · exact Starts.refl bytes
    · exact Starts.refl bytes
    · next block next _ =>
      exact (starts_putAll block bytes).trans (starts_resume block checksum (ih next) _)

/-! ## Where decoding stops -/

/-- `short` is as good as `whole` if no more than `enough` bytes are asked for. -/
def Suffices {α : Type} (bytes : α → ByteArray) (enough : Nat) (whole short : α) : Prop :=
  short = whole ∨ enough < (bytes short).size ∧ Starts (bytes short) (bytes whole)

theorem spell_suffices (runs : Array UInt8) (size enough fuel i : Nat) (out : Output) :
    Suffices bytesOut enough (spellAll runs size fuel i out)
      (spell runs size enough fuel i out) := by
  induction fuel generalizing i out with
  | zero => exact .inl rfl
  | succ fuel ih =>
    rw [spell]
    by_cases hstop : enough < out.bytes.size
    · -- `spell` goes no further from here, and `spellAll` only adds bytes
      have hall := starts_spellAll runs size (fuel + 1) i out
      split
      · exact .inr ⟨hstop, hall⟩
      · rw [if_pos (.inr hstop)]
        exact .inr ⟨hstop, hall⟩
    · simp only [spellAll, hstop, or_false]
      split
      · exact .inl rfl
      · split
        · exact .inl rfl
        · exact ih _ _

theorem resume_suffices {enough : Nat} (block : Block) (checksum : UInt32)
    {all cut : UInt32 → ByteArray → Yield}
    (hall : ∀ checksum bytes, Starts bytes (all checksum bytes).bytes)
    (hcut : ∀ checksum bytes,
      Suffices Yield.bytes enough (all checksum bytes) (cut checksum bytes))
    {whole short : Except Output Output} :
    Suffices bytesOut enough whole short →
      Suffices Yield.bytes enough (block.resume checksum all whole)
        (match short with
        | .error out => ⟨out.bytes, .damaged⟩
        | .ok out =>
          if enough < out.bytes.size then ⟨out.bytes, .truncated⟩
          else if ~~~out.checksum ≠ block.checksum then ⟨out.bytes, .damaged⟩
          else cut (combine checksum block.checksum) out.bytes) := by
  intro hput
  have hstarts : Starts (bytesOut short) (block.resume checksum all whole).bytes := by
    rcases hput with rfl | ⟨-, hput⟩
    · exact starts_resume block checksum hall short
    · exact hput.trans (starts_resume block checksum hall whole)
  -- A block either brings more bytes than are asked for, or it is the same in both.
  by_cases hshort : enough < (bytesOut short).size
  · cases short with
    | error out => exact .inr ⟨hshort, hstarts⟩
    | ok out =>
      simp only [if_pos (show enough < out.bytes.size from hshort)]
      exact .inr ⟨hshort, hstarts⟩
  · obtain rfl : short = whole := hput.resolve_right fun h => hshort h.1
    cases short with
    | error out => exact .inl rfl
    | ok out =>
      simp only [if_neg (show ¬ enough < out.bytes.size from hshort), Block.resume]
      split
      · exact .inl rfl
      · exact hcut _ _

theorem parts_suffices (data : ByteArray) (capacity enough fuel position : Nat)
    (checksum : UInt32) (bytes : ByteArray) :
    Suffices Yield.bytes enough (allParts data capacity fuel position checksum bytes)
      (parts data capacity enough fuel position checksum bytes) := by
  induction fuel generalizing position checksum bytes with
  | zero => exact .inl rfl
  | succ fuel ih =>
    rw [allParts, parts]
    cases hpart : (part capacity).run data position with
    | error fault => exact .inl rfl
    | ok found =>
      rcases found with ⟨block | stored, next⟩
      · exact resume_suffices block checksum (starts_allParts data capacity fuel next) (ih next)
          (spell_suffices ..)
      · exact .inl rfl

theorem decode_suffices (data : ByteArray) (enough : Nat) :
    Suffices Yield.bytes enough (yield data) (decode data enough) := by
  rw [yield, decode]
  cases header.run data 0 with
  | error fault => exact .inl rfl
  | ok found => exact parts_suffices ..

/-! ## Reads -/

theorem Yield.isRefused_of_lt {y : Yield} {wanted : Nat} (h : wanted < y.bytes.size) :
    y.isRefused wanted = false := by
  unfold isRefused
  split
  · rfl
  · simpa using Nat.le_of_lt h
  · simpa using h

theorem Yield.isRefused_of_clean {y : Yield} (h : y.ending = .clean) (wanted : Nat) :
    y.isRefused wanted = false := by
  rw [isRefused, h]

theorem Yield.isRefused_of_size_lt {y : Yield} {wanted : Nat} (h : y.ending ≠ .clean)
    (hsize : y.bytes.size < wanted) : y.isRefused wanted = true := by
  unfold isRefused
  split
  · next hclean => exact absurd hclean h
  · exact decide_eq_true hsize
  · exact decide_eq_true (Nat.le_of_lt hsize)

/-- A read from a stream is a read from all that the stream yields. -/
theorem reads_decoding : unpacker.Reads decoding where
  start data wanted content hread := by
    have hsuffices := decode_suffices ⟨data.toArray⟩ wanted
    change read data wanted = some content at hread
    simp only [read] at hread
    split at hread
    · cases hread
    · cases hread
      rcases hsuffices with hsame | ⟨hsize, more, hmore⟩
      · rw [hsame]
        rfl
      · rw [decoding, ← hmore, List.take_append_of_le_length (Nat.le_of_lt hsize)]
  clean data wanted hclean := by
    have hclean : (yield ⟨data.toArray⟩).ending = .clean := of_decide_eq_true hclean
    have hrefused : (decode ⟨data.toArray⟩ wanted).isRefused wanted = false := by
      rcases decode_suffices ⟨data.toArray⟩ wanted with hsame | ⟨hsize, -⟩
      · exact Yield.isRefused_of_clean (hsame ▸ hclean) wanted
      · exact Yield.isRefused_of_lt hsize
    change read data wanted ≠ none
    simp only [read, hrefused, Bool.false_eq_true, if_false]
    exact Option.some_ne_none _
  damaged data wanted hdamaged hlength := by
    have hend : (yield ⟨data.toArray⟩).ending ≠ .clean := of_decide_eq_false hdamaged
    have hrefused : (decode ⟨data.toArray⟩ wanted).isRefused wanted = true := by
      rcases decode_suffices ⟨data.toArray⟩ wanted with hsame | ⟨hsize, hstarts⟩
      · rw [hsame]
        exact Yield.isRefused_of_size_lt hend hlength
      · exact absurd (Nat.lt_of_lt_of_le hsize hstarts.size_le) (Nat.lt_asymm hlength)
    change read data wanted = none
    simp only [read, hrefused, if_true]

end GameQuery.Bzip2
