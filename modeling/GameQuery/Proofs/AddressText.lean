import GameQuery.Net.AddressText
import GameQuery.Proofs.FilterText

namespace GameQuery

/-!
# Reading back the text of an address

A number is read as far as there are digits, so its text is read back if something else than a digit
follows it. The texts of addresses are put together from such numbers and the characters between
them.
-/

namespace Text

theorem eq_zero_of_head?_decimal {n : Nat} (h : (decimal n).head? = some '0') : n = 0 := by
  induction n using Nat.strongRecOn with
  | ind n ih =>
    rw [decimal, Nat.toDigits_eq_if (by decide)] at h
    split at h
    · next hlt =>
      have hdigit : ∀ d < 10, [Nat.digitChar d].head? = some '0' → d = 0 := by decide
      exact hdigit n hlt h
    · next hge =>
      -- The last digit is not the first one, so the digits in front of it start with a zero too.
      have hsome : (Nat.toDigits 10 (n / 10)).head?.isSome := by simp
      rw [List.head?_append, Option.or_of_isSome hsome] at h
      have hzero := ih (n / 10) (by omega) h
      omega

theorem length_decimal_le {n k : Nat} (hk : 0 < k) (h : n < 10 ^ k) : (decimal n).length ≤ k :=
  (Nat.length_toDigits_le_iff (by decide) hk).2 h

/-- What does not start with a digit. -/
def EndsNumber (rest : List Char) : Prop := ∀ c ∈ rest.head?, c.isDigit = false

theorem endsNumber_nil : EndsNumber [] := nofun

theorem endsNumber_cons {c : Char} (h : c.isDigit = false) (rest : List Char) :
    EndsNumber (c :: rest) := by
  rintro d ⟨⟩
  exact h

theorem takeWhile_append_of_head? {p : Char → Bool} {digits rest : List Char}
    (hdigits : ∀ c ∈ digits, p c = true) (hrest : ∀ c ∈ rest.head?, p c = false) :
    (digits ++ rest).takeWhile p = digits := by
  rw [List.takeWhile_append_of_pos hdigits]
  cases rest with
  | nil => exact List.append_nil _
  | cons c rest => rw [List.takeWhile_cons_of_neg (by simp [hrest c rfl]), List.append_nil]

theorem takeWhile_decimal_append (n : Nat) {rest : List Char} (h : EndsNumber rest) :
    (decimal n ++ rest).takeWhile Char.isDigit = decimal n :=
  takeWhile_append_of_head? (fun _ => isDigit_of_mem_decimal) h

end Text

namespace TextReader

open Text

variable {α β : Type} {rest : List Char}

theorem bind_of_eq_some {r : TextReader α} {cs : List Char} {a : α} (h : r cs = some (a, rest))
    (k : α → TextReader β) : (r >>= k) cs = k a rest := by
  change (r cs >>= fun p => k p.1 p.2) = _
  rw [h]
  rfl

theorem char_bind_cons (c : Char) (k : Unit → TextReader β) (cs : List Char) :
    (char c >>= k) (c :: cs) = k () cs :=
  bind_of_eq_some (by simp [char]) k

theorem octet_append (b : UInt8) (h : EndsNumber rest) :
    octet (Text.decimal b.toNat ++ rest) = some (b, rest) := by
  have hlt := b.toNat_lt
  have hlength : (Text.decimal b.toNat).length ≤ 3 := length_decimal_le (by decide) (by omega)
  have hzero : (Text.decimal b.toNat).head? = some '0' → (Text.decimal b.toNat).length = 1 := by
    intro hhead
    rw [eq_zero_of_head?_decimal hhead]
    rfl
  simp only [octet, takeWhile_decimal_append b.toNat h, decimalValue_decimal, List.drop_left]
  rw [if_pos ⟨Nat.toDigits_ne_nil, hlength, hzero, hlt⟩, UInt8.ofNat_toNat]

theorem decimal_append {n bound : Nat} (hn : n < bound) (h : EndsNumber rest) :
    TextReader.decimal bound (Text.decimal n ++ rest) = some (n, rest) := by
  simp only [TextReader.decimal, takeWhile_decimal_append n h, decimalValue_decimal, List.drop_left]
  exact if_pos ⟨Nat.toDigits_ne_nil, hn⟩

theorem ipv4_append (ip : Ipv4) (h : EndsNumber rest) : ipv4 (ip.text ++ rest) = some (ip, rest) := by
  have hdot : ∀ cs : List Char, EndsNumber ('.' :: cs) := fun cs => endsNumber_cons rfl cs
  simp only [Ipv4.text, List.append_assoc, List.cons_append]
  rw [ipv4, bind_of_eq_some (octet_append ip.a (hdot _)), char_bind_cons,
    bind_of_eq_some (octet_append ip.b (hdot _)), char_bind_cons,
    bind_of_eq_some (octet_append ip.c (hdot _)), char_bind_cons,
    bind_of_eq_some (octet_append ip.d h)]
  rfl

theorem port_append (p : UInt16) (h : EndsNumber rest) :
    port (':' :: (Text.decimal p.toNat ++ rest)) = some (p, rest) := by
  rw [port, char_bind_cons, map_eq_pure_bind, bind_of_eq_some (decimal_append p.toNat_lt h),
    UInt16.ofNat_toNat]
  rfl

theorem socketV4_append (a : SocketAddressV4) (h : EndsNumber rest) :
    socketV4 (a.text ++ rest) = some (a, rest) := by
  simp only [SocketAddressV4.text, List.append_assoc, List.cons_append]
  rw [socketV4, bind_of_eq_some (ipv4_append a.ip (endsNumber_cons rfl _)),
    bind_of_eq_some (port_append a.port h)]
  rfl

end TextReader

theorem Ipv4.mem_text {ip : Ipv4} {c : Char} (h : c ∈ ip.text) : c.isDigit = true ∨ c = '.' := by
  simp only [text, List.mem_append, List.mem_cons] at h
  have hdigit : ∀ n, c ∈ Text.decimal n → c.isDigit = true := fun n => Text.isDigit_of_mem_decimal
  grind

namespace SocketAddressV4

theorem parse?_text (a : SocketAddressV4) : parse? a.text = some a := by
  have h := TextReader.socketV4_append a Text.endsNumber_nil
  rw [List.append_nil] at h
  rw [parse?, TextReader.whole, h]

theorem mem_text {a : SocketAddressV4} {c : Char} (h : c ∈ a.text) :
    c.isDigit = true ∨ c = '.' ∨ c = ':' := by
  rw [text, List.mem_append, List.mem_cons] at h
  rcases h with h | h | h
  · exact (Ipv4.mem_text h).imp_right .inl
  · exact .inr (.inr h)
  · exact .inl (Text.isDigit_of_mem_decimal h)

end SocketAddressV4

end GameQuery
