import GameQuery.Endpoint
import GameQuery.Proofs.FilterText

namespace GameQuery

/-!
# How hosts are written

A host stands alone, in front of a colon and a port, or in brackets with or without a port behind
them. `Denotes` is this notation, and cutting a text gives a host and a port exactly when the text
denotes them. One colon always belongs to a port; with two of them or more, and no bracket, the
text is an IPv6 address.
-/

namespace Text

/-- The text of a port is a number with any zeros in front of it, perhaps behind a plus sign. -/
def IsPort (text : List Char) (port : UInt16) : Prop :=
  ∃ digits, (text = digits ∨ text = '+' :: digits) ∧ digits ≠ [] ∧
    (∀ c ∈ digits, c.isDigit = true) ∧ decimalValue digits = port.toNat

variable {text digits : List Char} {port : UInt16}

theorem unsigned_of_isDigit (h : ∀ c ∈ digits, c.isDigit = true) : unsigned digits = digits := by
  cases digits with
  | nil => rfl
  | cons c rest =>
    have hc := h c List.mem_cons_self
    unfold unsigned
    split
    · next hplus =>
      rw [(List.cons.inj hplus).1] at hc
      exact absurd hc (by decide)
    · rfl

theorem eq_or_eq_of_unsigned (text : List Char) :
    text = unsigned text ∨ text = '+' :: unsigned text := by
  unfold unsigned
  split
  · exact .inr rfl
  · exact .inl rfl

theorem readUInt16_eq_some_iff : readUInt16 text = some port ↔ IsPort text port := by
  rw [readUInt16, Option.map_eq_some_iff]
  constructor
  · rintro ⟨n, hread, rfl⟩
    have hlt := readNat_lt hread
    simp only [readNat] at hread
    split at hread
    · next h =>
      cases hread
      refine ⟨unsigned text, eq_or_eq_of_unsigned text, h.1, List.all_eq_true.1 h.2.1, ?_⟩
      rw [UInt16.toNat_ofNat_of_lt' hlt]
    · cases hread
  · rintro ⟨digits, htext, hne, hdigits, hvalue⟩
    have hunsigned : unsigned text = digits := by
      rcases htext with rfl | rfl
      · exact unsigned_of_isDigit hdigits
      · rfl
    have hlt : decimalValue digits < UInt16.size := hvalue ▸ port.toNat_lt
    refine ⟨port.toNat, ?_, UInt16.ofNat_toNat⟩
    simp only [readNat, hunsigned]
    rw [if_pos ⟨hne, List.all_eq_true.2 hdigits, hlt⟩, hvalue]

theorem isPort_decimal (port : UInt16) : IsPort (decimal port.toNat) port :=
  ⟨_, .inl rfl, Nat.toDigits_ne_nil, fun _ => isDigit_of_mem_decimal, decimalValue_decimal _⟩

theorem IsPort.colon_notMem (h : IsPort text port) : ':' ∉ text := by
  obtain ⟨digits, htext, -, hdigits, -⟩ := h
  have hcolon : ':' ∉ digits := fun hmem => absurd (hdigits ':' hmem) (by decide)
  rcases htext with rfl | rfl
  · exact hcolon
  · exact fun hmem => hcolon (List.mem_of_ne_of_mem (by decide) hmem)

end Text

open Text

/-- A text denotes a host and a port, which is `default` if the text names none. -/
inductive Denotes (default : UInt16) : List Char → List Char → UInt16 → Prop
  | bare {host : List Char} (hstart : host.head? ≠ some '[') (hcolons : host.count ':' ≠ 1) :
    Denotes default host host default
  | withPort {host text : List Char} {port : UInt16} (hstart : host.head? ≠ some '[')
    (hhost : ':' ∉ host) (hport : IsPort text port) : Denotes default (host ++ ':' :: text) host port
  | bracketed {host : List Char} (hhost : ']' ∉ host) :
    Denotes default ('[' :: (host ++ [']'])) host default
  | bracketedWithPort {host text : List Char} {port : UInt16} (hhost : ']' ∉ host)
    (hport : IsPort text port) : Denotes default ('[' :: (host ++ ']' :: ':' :: text)) host port

/-- A text that denotes some host and some port. -/
def IsHostText (text : List Char) : Prop := ∃ host port, Denotes gamePort text host port

variable {default port : UInt16} {text host : List Char}

theorem withPortText_eq_some_iff {before : List Char} :
    withPortText before text = some (host, port) ↔ before = host ∧ IsPort text port := by
  simp only [withPortText, Option.map_eq_some_iff, Prod.mk.injEq, readUInt16_eq_some_iff]
  constructor
  · rintro ⟨p, hp, rfl, rfl⟩
    exact ⟨rfl, hp⟩
  · rintro ⟨rfl, hp⟩
    exact ⟨port, hp, rfl, rfl⟩

theorem splitHost_of_bracket (rest : List Char) (default : UInt16) :
    splitHost ('[' :: rest) default =
      match splitOnce ']' rest with
      | none => none
      | some (host, []) => some (host, default)
      | some (host, ':' :: port) => withPortText host port
      | some _ => none := rfl

theorem splitHost_of_bare (h : text.head? ≠ some '[') (default : UInt16) :
    splitHost text default =
      match splitOnce ':' text with
      | some (host, port) =>
        if ':' ∈ port then some (text, default) else withPortText host port
      | none => some (text, default) := by
  unfold splitHost
  split
  · exact absurd rfl h
  · rfl

theorem count_eq_one_of_splitOnce {before after : List Char}
    (h : splitOnce ':' text = some (before, after)) : text.count ':' = 1 ↔ ':' ∉ after := by
  obtain ⟨rfl, hbefore⟩ := splitOnce_eq_some h
  rw [List.count_append, List.count_eq_zero_of_not_mem hbefore, List.count_cons_self, Nat.zero_add,
    Nat.add_eq_right, List.count_eq_zero]

theorem denotes_of_splitHost_bracket {rest : List Char}
    (h : splitHost ('[' :: rest) default = some (host, port)) :
    Denotes default ('[' :: rest) host port := by
  rw [splitHost_of_bracket] at h
  split at h
  · cases h
  · next hsplit =>
    cases h
    obtain ⟨rfl, hhost⟩ := splitOnce_eq_some hsplit
    exact .bracketed hhost
  · next hsplit =>
    obtain ⟨rfl, hport⟩ := withPortText_eq_some_iff.1 h
    obtain ⟨rfl, hhost⟩ := splitOnce_eq_some hsplit
    exact .bracketedWithPort hhost hport
  · cases h

theorem denotes_of_splitHost_bare (hstart : text.head? ≠ some '[')
    (h : splitHost text default = some (host, port)) : Denotes default text host port := by
  rw [splitHost_of_bare hstart] at h
  split at h
  · next before after hsplit =>
    have hcount := count_eq_one_of_splitOnce hsplit
    split at h
    · next hcolon =>
      cases h
      exact .bare hstart fun hone => hcount.1 hone hcolon
    · next hcolon =>
      obtain ⟨rfl, hport⟩ := withPortText_eq_some_iff.1 h
      obtain ⟨rfl, hbefore⟩ := splitOnce_eq_some hsplit
      refine .withPort (fun hhead => hstart ?_) hbefore hport
      rw [List.head?_append, hhead]
      rfl
  · next hsplit =>
    cases h
    have hzero := List.count_eq_zero_of_not_mem (splitOnce_eq_none_iff.1 hsplit)
    exact .bare hstart (by omega)

/-- Cutting a text gives just what it denotes. -/
theorem splitHost_eq_some_iff :
    splitHost text default = some (host, port) ↔ Denotes default text host port := by
  constructor
  · intro h
    by_cases hstart : text.head? = some '['
    · obtain ⟨rest, rfl⟩ := List.head?_eq_some_iff.1 hstart
      exact denotes_of_splitHost_bracket h
    · exact denotes_of_splitHost_bare hstart h
  · intro h
    cases h with
    | bare hstart hcolons =>
      rw [splitHost_of_bare hstart]
      split
      · next hsplit =>
        rw [if_pos (not_not.1 fun hcolon => hcolons ((count_eq_one_of_splitOnce hsplit).2 hcolon))]
      · rfl
    | @withPort host text port hstart hhost hport =>
      have hhead : (host ++ ':' :: text).head? ≠ some '[' := by
        cases host with
        | nil => simp
        | cons c rest => exact hstart
      rw [splitHost_of_bare hhead, splitOnce_append hhost]
      simp only
      rw [if_neg hport.colon_notMem, withPortText_eq_some_iff]
      exact ⟨rfl, hport⟩
    | bracketed hhost => rw [splitHost_of_bracket, splitOnce_append hhost]
    | bracketedWithPort hhost hport =>
      rw [splitHost_of_bracket, splitOnce_append hhost]
      exact withPortText_eq_some_iff.2 ⟨rfl, hport⟩

/-- The port that stands for a missing one decides nothing else. -/
theorem isHostText_iff (default : UInt16) :
    IsHostText text ↔ ∃ host port, Denotes default text host port := by
  have hchange : ∀ first second host port, Denotes first text host port →
      ∃ host port, Denotes second text host port := by
    intro first second host port h
    cases h with
    | bare hstart hcolons => exact ⟨_, _, .bare hstart hcolons⟩
    | withPort hstart hhost hport => exact ⟨_, _, .withPort hstart hhost hport⟩
    | bracketed hhost => exact ⟨_, _, .bracketed hhost⟩
    | bracketedWithPort hhost hport => exact ⟨_, _, .bracketedWithPort hhost hport⟩
  constructor
  · rintro ⟨host, port, h⟩
    exact hchange _ _ host port h
  · rintro ⟨host, port, h⟩
    exact hchange _ _ host port h

theorem splitHost_eq_none_iff (default : UInt16) :
    splitHost text default = none ↔ ¬ IsHostText text := by
  rw [isHostText_iff default, Option.eq_none_iff_forall_ne_some]
  constructor
  · rintro hnone ⟨host, port, h⟩
    exact hnone (host, port) (splitHost_eq_some_iff.2 h)
  · rintro hnone ⟨host, port⟩ h
    exact hnone ⟨host, port, splitHost_eq_some_iff.1 h⟩

instance : DecidablePred IsHostText := fun text =>
  decidable_of_iff (splitHost text gamePort ≠ none) (by
    rw [Ne, splitHost_eq_none_iff, not_not])

example : IsHostText "[2001:db8::1]:080".toList ∧ ¬ IsHostText "[2001:db8::1]80".toList := by
  decide +kernel

end GameQuery
