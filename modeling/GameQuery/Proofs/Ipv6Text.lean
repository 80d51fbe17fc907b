import GameQuery.Proofs.AddressText

namespace GameQuery

/-!
# Reading back the text of an IPv6 address

The groups of an address are read one by one as long as a colon and a group follow. Two colons end
them: at this gap stand the zeros that the text leaves out. An address that wraps an IPv4 address is
written with a gap too, and ends in the notation of the wrapped address.
-/

namespace TextReader

open Text

variable {α β : Type} {cs rest : List Char}

/-! ## Hexadecimal digits -/

def isHexDigit (c : Char) : Bool := (hexDigit? c).isSome

theorem hexDigit?_digitChar : ∀ d < 16, hexDigit? (Nat.digitChar d) = some d := by decide

theorem isHexDigit_of_isDigit {c : Char} (h : c.isDigit = true) : isHexDigit c = true := by
  have hrange : '0' ≤ c ∧ c ≤ '9' := by
    simpa [Char.isDigit, Char.le_def] using h
  rw [isHexDigit, hexDigit?, if_pos hrange]
  rfl

theorem isHexDigit_of_mem_toDigits {n : Nat} {c : Char} (h : c ∈ Nat.toDigits 16 n) :
    isHexDigit c = true := by
  induction n using Nat.strongRecOn with
  | ind n ih =>
    have hdigit : ∀ d < 16, isHexDigit (Nat.digitChar d) = true := by decide
    rw [Nat.toDigits_eq_if (by decide)] at h
    split at h
    · next hlt =>
      rw [List.mem_singleton.1 h]
      exact hdigit n hlt
    · next hge =>
      rcases List.mem_append.1 h with h | h
      · exact ih (n / 16) (by omega) h
      · rw [List.mem_singleton.1 h]
        exact hdigit (n % 16) (Nat.mod_lt n (by decide))

theorem hexValue_concat (digits : List Char) (c : Char) :
    hexValue (digits ++ [c]) = 16 * hexValue digits + (hexDigit? c).getD 0 := by
  simp [hexValue]

theorem hexValue_toDigits (n : Nat) : hexValue (Nat.toDigits 16 n) = n := by
  induction n using Nat.strongRecOn with
  | ind n ih =>
    rw [Nat.toDigits_eq_if (by decide)]
    split
    · next hlt =>
      have hvalue := hexValue_concat [] (Nat.digitChar n)
      rw [hexDigit?_digitChar n hlt] at hvalue
      exact hvalue.trans (Nat.zero_add n)
    · next hge =>
      rw [hexValue_concat, ih (n / 16) (by omega),
        hexDigit?_digitChar _ (Nat.mod_lt n (by decide))]
      exact Nat.div_add_mod n 16

/-! ## One group -/

/-- What neither goes on with a group nor makes it the start of an IPv4 address. -/
def EndsGroup (rest : List Char) : Prop := ∀ c ∈ rest.head?, isHexDigit c = false ∧ c ≠ '.'

theorem endsGroup_nil : EndsGroup [] := nofun

theorem endsGroup_colon (rest : List Char) : EndsGroup (':' :: rest) := by
  rintro c ⟨⟩
  decide

theorem takeWhile_toDigits_append (n : Nat) (h : EndsGroup rest) :
    (Nat.toDigits 16 n ++ rest).takeWhile isHexDigit = Nat.toDigits 16 n :=
  takeWhile_append_of_head? (fun _ => isHexDigit_of_mem_toDigits) fun c hc => (h c hc).1

theorem group_append (g : UInt16) (h : EndsGroup rest) :
    group (Nat.toDigits 16 g.toNat ++ rest) = some (g, rest) := by
  have hlength : (Nat.toDigits 16 g.toNat).length ≤ 4 :=
    (Nat.length_toDigits_le_iff (by decide) (by decide)).2 g.toNat_lt
  have hdigits := takeWhile_toDigits_append g.toNat h
  unfold isHexDigit at hdigits
  simp only [group, hdigits, hexValue_toDigits, List.drop_left, UInt16.ofNat_toNat]
  exact if_pos ⟨Nat.toDigits_ne_nil, hlength⟩

theorem group_colon (cs : List Char) : group (':' :: cs) = none := rfl

/-! ## What is no IPv4 address -/

theorem bind_of_eq_none {r : TextReader α} (h : r cs = none) (k : α → TextReader β) :
    (r >>= k) cs = none := by
  change (r cs >>= fun p => k p.1 p.2) = _
  rw [h]
  rfl

theorem octet_cases (cs : List Char) :
    octet cs = none ∨ ∃ b, octet cs = some (b, cs.dropWhile Char.isDigit) := by
  have hdrop : cs.drop (cs.takeWhile Char.isDigit).length = cs.dropWhile Char.isDigit := by
    apply List.append_cancel_left
    rw [List.prefix_iff_eq_append.1 (List.takeWhile_prefix Char.isDigit),
      List.takeWhile_append_dropWhile]
  simp only [octet, hdrop]
  split
  · exact .inr ⟨_, rfl⟩
  · exact .inl rfl

theorem ipv4_eq_none (h : ∀ c ∈ (cs.dropWhile Char.isDigit).head?, c ≠ '.') : ipv4 cs = none := by
  rw [ipv4]
  rcases octet_cases cs with hoctet | ⟨b, hoctet⟩
  · exact bind_of_eq_none hoctet _
  · rw [bind_of_eq_some hoctet]
    apply bind_of_eq_none
    cases hrest : cs.dropWhile Char.isDigit with
    | nil => rfl
    | cons c rest => exact if_neg (h c (by rw [hrest]; rfl))

theorem ipv4_colon (cs : List Char) : ipv4 (':' :: cs) = none := by
  apply ipv4_eq_none
  rintro c ⟨⟩
  decide

theorem ipv4_toDigits_append (n : Nat) (h : EndsGroup rest) :
    ipv4 (Nat.toDigits 16 n ++ rest) = none := by
  have hdigits : ∀ c ∈ Nat.toDigits 16 n, isHexDigit c = true := fun c => isHexDigit_of_mem_toDigits
  apply ipv4_eq_none
  intro c hc
  generalize Nat.toDigits 16 n = digits at hdigits hc
  induction digits with
  | nil =>
    cases rest with
    | nil => cases hc
    | cons d rest =>
      obtain ⟨hhex, hdot⟩ := h d rfl
      have hdigit : ¬ d.isDigit = true := fun hd => by
        rw [isHexDigit_of_isDigit hd] at hhex
        cases hhex
      rw [List.nil_append, List.dropWhile_cons_of_neg hdigit] at hc
      cases hc
      exact hdot
  | cons d digits ih =>
    obtain ⟨hd, hdigits⟩ := List.forall_mem_cons.1 hdigits
    by_cases hdigit : d.isDigit = true
    · rw [List.cons_append, List.dropWhile_cons_of_pos hdigit] at hc
      exact ih hdigits hc
    · rw [List.cons_append, List.dropWhile_cons_of_neg hdigit] at hc
      cases hc
      rintro rfl
      exact absurd hd (by decide)

/-! ## Several groups -/

theorem afterColon_colon (r : TextReader α) (cs : List Char) :
    afterColon false r (':' :: cs) = r cs := char_bind_cons ':' (fun _ => r) cs

theorem afterColon_nil (r : TextReader α) : afterColon false r [] = none := rfl

variable {isFirst mapped : Bool} {left : Nat} {g : UInt16} {gs : List UInt16} {mid : List Char}

theorem attempt_of_none {r : TextReader α} (h : r cs = none) :
    attempt r cs = some (none, cs) := by
  rw [attempt, h]

theorem attempt_of_some {r : TextReader α} {a : α} (h : r cs = some (a, rest)) :
    attempt r cs = some (some a, rest) := by
  rw [attempt, h]

theorem groups_of_no_ipv4 (h : afterColon isFirst ipv4 cs = none) :
    groups isFirst (left + 1) cs = (do
      match ← attempt (afterColon isFirst group) with
      | none => return ([], false)
      | some g =>
        let (gs, mapped) ← groups false left
        return (g :: gs, mapped) : TextReader (List UInt16 × Bool)) cs := by
  rw [groups]
  split
  · rfl
  · exact bind_of_eq_some (attempt_of_none h) _

theorem groups_of_no_group (hip : afterColon isFirst ipv4 cs = none)
    (h : afterColon isFirst group cs = none) :
    groups isFirst (left + 1) cs = some (([], false), cs) := by
  rw [groups_of_no_ipv4 hip, bind_of_eq_some (attempt_of_none h)]
  rfl

theorem groups_of_group (hip : afterColon isFirst ipv4 cs = none)
    (h : afterColon isFirst group cs = some (g, mid))
    (hmore : groups false left mid = some ((gs, mapped), rest)) :
    groups isFirst (left + 1) cs = some ((g :: gs, mapped), rest) := by
  rw [groups_of_no_ipv4 hip, bind_of_eq_some (attempt_of_some h)]
  simp only
  rw [bind_of_eq_some hmore]
  rfl

theorem groups_of_ipv4 {ip : Ipv4} (h : afterColon isFirst ipv4 cs = some (ip, rest)) :
    groups isFirst (left + 2) cs = some ((ip.groups, true), rest) := by
  rw [groups, if_neg (Nat.succ_ne_zero left), bind_of_eq_some (attempt_of_some h)]
  rfl

/-- The text of groups that come behind another one. -/
def colonGroups (gs : List UInt16) : List Char :=
  gs.flatMap fun g => ':' :: Nat.toDigits 16 g.toNat

theorem groupsText_cons (g : UInt16) (gs : List UInt16) :
    Ipv6.groupsText (g :: gs) = Nat.toDigits 16 g.toNat ++ colonGroups gs := by
  induction gs generalizing g with
  | nil => exact (List.append_nil _).symm
  | cons h gs ih =>
    rw [Ipv6.groupsText, ih]
    · rfl
    · exact List.cons_ne_nil h gs

/-- The end of all groups, or the gap behind some of them. -/
def EndsGroups (rest : List Char) : Prop := rest = [] ∨ ∃ tail, rest = ':' :: ':' :: tail

theorem EndsGroups.endsGroup (h : EndsGroups rest) : EndsGroup rest := by
  rcases h with rfl | ⟨tail, rfl⟩
  · exact endsGroup_nil
  · exact endsGroup_colon _

theorem endsGroup_colonGroups (gs : List UInt16) (h : EndsGroups rest) :
    EndsGroup (colonGroups gs ++ rest) := by
  cases gs with
  | nil => exact h.endsGroup
  | cons g gs => exact endsGroup_colon _

theorem groups_colonGroups_append (h : EndsGroups rest) (hleft : gs.length ≤ left) :
    groups false left (colonGroups gs ++ rest) = some ((gs, false), rest) := by
  induction gs generalizing left with
  | nil =>
    cases left with
    | zero => rfl
    | succ left =>
      rcases h with rfl | ⟨tail, rfl⟩
      · exact groups_of_no_group (afterColon_nil _) (afterColon_nil _)
      · refine groups_of_no_group ?_ ?_
        · exact (afterColon_colon ipv4 _).trans (ipv4_colon tail)
        · exact (afterColon_colon group _).trans (group_colon tail)
  | cons g gs ih =>
    obtain ⟨left, rfl⟩ := Nat.exists_eq_add_one_of_ne_zero (Nat.ne_zero_of_lt hleft)
    have hends := endsGroup_colonGroups gs h
    have htext : colonGroups (g :: gs) ++ rest =
        ':' :: (Nat.toDigits 16 g.toNat ++ (colonGroups gs ++ rest)) := by
      simp [colonGroups]
    rw [htext]
    refine groups_of_group ?_ ?_ (ih (Nat.le_of_succ_le_succ hleft))
    · rw [afterColon_colon, ipv4_toDigits_append _ hends]
    · rw [afterColon_colon, group_append g hends]

theorem ipv4_groupsText_append (gs : List UInt16) (h : EndsGroups rest) :
    ipv4 (Ipv6.groupsText gs ++ rest) = none := by
  cases gs with
  | nil =>
    rcases h with rfl | ⟨tail, rfl⟩
    · rfl
    · exact ipv4_colon _
  | cons g gs =>
    rw [groupsText_cons, List.append_assoc]
    exact ipv4_toDigits_append _ (endsGroup_colonGroups gs h)

theorem groups_groupsText_append (h : EndsGroups rest) (hleft : gs.length ≤ left) :
    groups true left (Ipv6.groupsText gs ++ rest) = some ((gs, false), rest) := by
  cases left with
  | zero =>
    rw [List.eq_nil_of_length_eq_zero (Nat.le_zero.1 hleft)]
    rfl
  | succ left =>
    have hip : afterColon true ipv4 (Ipv6.groupsText gs ++ rest) = none := ipv4_groupsText_append gs h
    cases gs with
    | nil =>
      refine groups_of_no_group hip ?_
      rcases h with rfl | ⟨tail, rfl⟩
      · rfl
      · exact group_colon (':' :: tail)
    | cons g gs =>
      have hgroup := group_append g (endsGroup_colonGroups gs h)
      rw [groupsText_cons, List.append_assoc] at hip ⊢
      exact groups_of_group hip hgroup (groups_colonGroups_append h (Nat.le_of_succ_le_succ hleft))

end TextReader

/-! ## Runs of zeros -/

namespace Ipv6

/-- A run of a list holds zeros only. -/
structure IsRunOf (groups : List UInt16) (r : Run) : Prop where
  end_le : r.start + r.length ≤ groups.length
  zeros : (groups.drop r.start).take r.length = List.replicate r.length 0

theorem isRunOf_empty (groups : List UInt16) : IsRunOf groups ⟨0, 0⟩ := ⟨Nat.zero_le _, rfl⟩

theorem IsRunOf.append {groups : List UInt16} {r : Run} (h : IsRunOf groups r)
    (more : List UInt16) : IsRunOf (groups ++ more) r := by
  obtain ⟨hend, hzeros⟩ := h
  constructor
  · rw [List.length_append]
    omega
  · rw [List.drop_append_of_le_length (by omega), List.take_append_of_le_length, hzeros]
    rw [List.length_drop]
    omega

theorem IsRunOf.concat_zero {groups : List UInt16} {r : Run} (h : IsRunOf groups r)
    (hend : r.start + r.length = groups.length) :
    IsRunOf (groups ++ [0]) ⟨r.start, r.length + 1⟩ := by
  have hlength : (groups.drop r.start).length = r.length := by
    rw [List.length_drop]
    omega
  constructor
  · simp only [List.length_append, List.length_singleton]
    omega
  · have hzeros := h.zeros
    rw [List.take_of_length_le (Nat.le_of_eq hlength)] at hzeros
    change ((groups ++ [0]).drop r.start).take (r.length + 1) = List.replicate (r.length + 1) 0
    rw [List.drop_append_of_le_length (by omega), hzeros, List.replicate_succ',
      List.take_of_length_le]
    simp

/-- Both runs that are kept on the way are runs of what has been passed, and the current one, if
there is one, reaches up to its end. -/
theorem isRunOf_longestRunFrom {passed groups : List UInt16} {current longest : Run}
    (hcurrent : current.length ≠ 0 → IsRunOf passed current ∧
      current.start + current.length = passed.length)
    (hlongest : IsRunOf passed longest) :
    IsRunOf (passed ++ groups) (longestRunFrom passed.length current longest groups) := by
  induction groups generalizing passed current longest with
  | nil =>
    rw [List.append_nil]
    exact hlongest
  | cons g groups ih =>
    have hlength : passed.length + 1 = (passed ++ [g]).length := by simp
    rw [List.append_cons, longestRunFrom, hlength]
    split
    · next hzero =>
      subst hzero
      have hnext : ∀ next : Run, next = (if current.length = 0 then ⟨passed.length, 1⟩
          else ⟨current.start, current.length + 1⟩) →
          IsRunOf (passed ++ [0]) next ∧ next.start + next.length = (passed ++ [0]).length := by
        rintro next rfl
        split
        · exact ⟨⟨by simp, by simp⟩, by simp⟩
        · next hne =>
          obtain ⟨hrun, hend⟩ := hcurrent hne
          refine ⟨hrun.concat_zero hend, ?_⟩
          simp only [List.length_append, List.length_singleton]
          omega
      replace hnext := hnext _ rfl
      generalize (if current.length = 0 then (⟨passed.length, 1⟩ : Run)
        else ⟨current.start, current.length + 1⟩) = next at hnext ⊢
      apply ih
      · exact fun _ => hnext
      · split
        · exact hnext.1
        · exact hlongest.append [0]
    · apply ih
      · exact fun hne => absurd rfl hne
      · exact hlongest.append [g]

theorem isRunOf_longestRun (groups : List UInt16) : IsRunOf groups (longestRun groups) := by
  have hrun : IsRunOf ([] ++ groups)
      (longestRunFrom ([] : List UInt16).length ⟨0, 0⟩ ⟨0, 0⟩ groups) :=
    isRunOf_longestRunFrom (fun h => absurd rfl h) (isRunOf_empty [])
  exact hrun

theorem IsRunOf.eq_append {groups : List UInt16} {r : Run} (h : IsRunOf groups r) :
    groups = groups.take r.start ++ (List.replicate r.length 0 ++
      groups.drop (r.start + r.length)) := by
  rw [← h.zeros, ← List.drop_drop, List.take_append_drop, List.take_append_drop]

theorem ofGroups?_toList (ip : Ipv6) : ofGroups? ip.groups.toList = some ip := by
  have hlength : ip.groups.toList.length = 8 := by simp
  have hvector : (⟨ip.groups.toList.toArray, by simp⟩ : Vector UInt16 8) = ip.groups :=
    Vector.toArray_inj.1 Array.toArray_toList
  rw [ofGroups?, dif_pos hlength]
  exact congrArg (fun groups => some (Ipv6.mk groups)) hvector

/-! ## The whole address -/

theorem wrapped_groups (g h : UInt16) :
    Ipv4.groups ⟨(g >>> 8).toUInt8, g.toUInt8, (h >>> 8).toUInt8, h.toUInt8⟩ = [g, h] := by
  have hjoin : ∀ g : UInt16, (g >>> 8).toUInt8.toUInt16 * 256 + g.toUInt8.toUInt16 = g := by
    intro g
    apply UInt16.toNat_inj.1
    have hlt := g.toNat_lt
    simp [Nat.shiftRight_eq_div_pow]
    omega
  rw [Ipv4.groups, hjoin, hjoin]

theorem mapped?_eq_some {ip : Ipv6} {v4 : Ipv4} (h : ip.mapped? = some v4) :
    ip.groups.toList = List.replicate 5 0 ++ 0xFFFF :: v4.groups := by
  unfold mapped? at h
  split at h
  · next g h' hgroups =>
    cases h
    rw [hgroups, wrapped_groups]
    rfl
  · cases h

end Ipv6

namespace TextReader

variable {cs mid rest : List Char} {head tail : List UInt16} {mapped : Bool} {ip : Ipv6}

theorem ipv6_of_groups (hgroups : groups true 8 cs = some ((head, mapped), rest))
    (hlength : head.length = 8) (hip : Ipv6.ofGroups? head = some ip) :
    ipv6 cs = some (ip, rest) := by
  rw [ipv6, bind_of_eq_some hgroups]
  simp only
  rw [if_pos hlength, hip]
  rfl

theorem ipv6_of_gap (hhead : groups true 8 cs = some ((head, false), ':' :: ':' :: mid))
    (hlength : head.length ≠ 8)
    (htail : groups true (7 - head.length) mid = some ((tail, mapped), rest))
    (hip : Ipv6.ofGroups? (head ++ List.replicate (8 - head.length - tail.length) 0 ++ tail) =
      some ip) : ipv6 cs = some (ip, rest) := by
  rw [ipv6, bind_of_eq_some hhead]
  simp only
  rw [if_neg hlength, if_neg Bool.false_ne_true, char_bind_cons, char_bind_cons,
    bind_of_eq_some htail]
  simp only
  rw [hip]
  rfl

theorem ipv6_mapped {v4 : Ipv4} (h : ip.mapped? = some v4) :
    ipv6 ("::ffff:".toList ++ v4.text) = some (ip, []) := by
  have htext : "::ffff:".toList ++ v4.text =
      ':' :: ':' :: (Nat.toDigits 16 (0xFFFF : UInt16).toNat ++ ':' :: v4.text) := by
    have hstart : "::ffff:".toList = ':' :: ':' :: (Nat.toDigits 16 0xFFFF ++ [':']) := by decide
    rw [hstart]
    simp
  have hends := endsGroup_colon v4.text
  have hv4 : afterColon false ipv4 (':' :: v4.text) = some (v4, []) := by
    have hread := ipv4_append v4 Text.endsNumber_nil
    rw [List.append_nil] at hread
    rw [afterColon_colon, hread]
  have hmore : groups false 6 (':' :: v4.text) = some ((v4.groups, true), []) :=
    groups_of_ipv4 hv4
  have htail : groups true 7 (Nat.toDigits 16 (0xFFFF : UInt16).toNat ++ ':' :: v4.text) =
      some ((0xFFFF :: v4.groups, true), []) :=
    groups_of_group (ipv4_toDigits_append _ hends) (group_append 0xFFFF hends) hmore
  have hhead : ∀ cs, groups true 8 (':' :: cs) = some (([], false), ':' :: cs) :=
    fun cs => groups_of_no_group (ipv4_colon cs) (group_colon cs)
  rw [htext]
  apply ipv6_of_gap (hhead _) (by decide) htail
  rw [← Ipv6.ofGroups?_toList ip, Ipv6.mapped?_eq_some h]
  rfl

theorem ipv6_gapped {run : Ipv6.Run} (hrun : Ipv6.IsRunOf ip.groups.toList run)
    (hlong : 1 < run.length) :
    ipv6 (Ipv6.groupsText (ip.groups.toList.take run.start) ++ "::".toList ++
      Ipv6.groupsText (ip.groups.toList.drop (run.start + run.length))) = some (ip, []) := by
  have hlength : ip.groups.toList.length = 8 := by simp
  have hall := Ipv6.ofGroups?_toList ip
  have hend := hrun.end_le
  generalize ip.groups.toList = gs at hlength hall hrun hend ⊢
  have hhead : (gs.take run.start).length = run.start := by
    rw [List.length_take]
    omega
  have htail : (gs.drop (run.start + run.length)).length = 8 - run.start - run.length := by
    rw [List.length_drop]
    omega
  have hgroups : groups true 8 _ = some ((gs.take run.start, false), _) :=
    groups_groupsText_append
      (.inr ⟨Ipv6.groupsText (gs.drop (run.start + run.length)), rfl⟩) (by omega)
  have hmore : groups true (7 - run.start) _ =
      some ((gs.drop (run.start + run.length), false), _) :=
    groups_groupsText_append (.inl rfl) (by omega)
  rw [List.append_nil] at hmore
  rw [List.append_assoc]
  apply ipv6_of_gap hgroups (by omega) (by rw [hhead]; exact hmore)
  have hzeros : 8 - (gs.take run.start).length -
      (gs.drop (run.start + run.length)).length = run.length := by omega
  rw [hzeros, List.append_assoc, ← hrun.eq_append, hall]

theorem ipv6_full (ip : Ipv6) : ipv6 (Ipv6.groupsText ip.groups.toList) = some (ip, []) := by
  have hlength : ip.groups.toList.length = 8 := by simp
  have hgroups := groups_groupsText_append (.inl rfl) hlength.le
  rw [List.append_nil] at hgroups
  exact ipv6_of_groups hgroups hlength (Ipv6.ofGroups?_toList ip)

theorem ipv6_text (ip : Ipv6) : ipv6 ip.text = some (ip, []) := by
  unfold Ipv6.text
  split
  · next v4 h => exact ipv6_mapped h
  · simp only
    split
    · next hlong => exact ipv6_gapped (Ipv6.isRunOf_longestRun _) hlong
    · exact ipv6_full ip

end TextReader

/-! ## The characters of an address -/

namespace Ipv6

open TextReader

/-- A text starts with all groups of its address, or with those in front of a gap. -/
theorem text_cases (ip : Ipv6) : (∃ gs : List UInt16, gs.length = 8 ∧ ip.text = groupsText gs) ∨
    ∃ gs tail, ip.text = groupsText gs ++ ':' :: ':' :: tail := by
  unfold text
  split
  · exact .inr ⟨[], _, rfl⟩
  · simp only
    split
    · rw [List.append_assoc]
      exact .inr ⟨_, _, rfl⟩
    · exact .inl ⟨ip.groups.toList, by simp, rfl⟩

theorem ipv4_text (ip : Ipv6) : ipv4 ip.text = none := by
  rcases ip.text_cases with ⟨gs, -, htext⟩ | ⟨gs, tail, htext⟩
  · have h := ipv4_groupsText_append gs (.inl rfl)
    rwa [List.append_nil, ← htext] at h
  · rw [htext]
    exact ipv4_groupsText_append gs (.inr ⟨tail, rfl⟩)

theorem count_colonGroups (gs : List UInt16) : (colonGroups gs).count ':' = gs.length := by
  induction gs with
  | nil => rfl
  | cons g gs ih =>
    have hdigits : ':' ∉ Nat.toDigits 16 g.toNat :=
      fun hmem => absurd (isHexDigit_of_mem_toDigits hmem) (by decide)
    change (':' :: (Nat.toDigits 16 g.toNat ++ colonGroups gs)).count ':' = gs.length + 1
    rw [List.count_cons_self, List.count_append, List.count_eq_zero_of_not_mem hdigits, ih,
      Nat.zero_add]

theorem two_le_count_text (ip : Ipv6) : 2 ≤ ip.text.count ':' := by
  rcases ip.text_cases with ⟨gs, hlength, htext⟩ | ⟨gs, tail, htext⟩
  · obtain ⟨g, gs, rfl⟩ := List.exists_cons_of_length_pos (by omega : 0 < gs.length)
    rw [List.length_cons] at hlength
    rw [htext, groupsText_cons, List.count_append, count_colonGroups]
    omega
  · rw [htext, List.count_append, List.count_cons_self, List.count_cons_self]
    omega

theorem mem_groupsText {gs : List UInt16} {c : Char} (h : c ∈ groupsText gs) :
    isHexDigit c = true ∨ c = ':' := by
  cases gs with
  | nil => cases h
  | cons g gs =>
    rw [groupsText_cons, List.mem_append] at h
    rcases h with h | h
    · exact .inl (isHexDigit_of_mem_toDigits h)
    · obtain ⟨g', -, hc⟩ := List.mem_flatMap.1 h
      rcases List.mem_cons.1 hc with rfl | hc
      · exact .inr rfl
      · exact .inl (isHexDigit_of_mem_toDigits hc)

end Ipv6

theorem Ipv4.colon_notMem_text (ip : Ipv4) : ':' ∉ ip.text :=
  fun h => absurd (mem_text h) (by decide)

open TextReader in
theorem Ipv6.mem_text {ip : Ipv6} {c : Char} (h : c ∈ ip.text) :
    isHexDigit c = true ∨ c = ':' ∨ c = '.' := by
  unfold text at h
  split at h
  · rcases List.mem_append.1 h with h | h
    · have hall : "::ffff:".toList.all (fun c => isHexDigit c || c = ':') = true := by decide
      have hc := List.all_eq_true.1 hall c h
      rw [Bool.or_eq_true, decide_eq_true_iff] at hc
      exact hc.imp_right .inl
    · rcases Ipv4.mem_text h with h | h
      · exact .inl (isHexDigit_of_isDigit h)
      · exact .inr (.inr h)
  · have hgroups : ∀ gs, c ∈ groupsText gs → isHexDigit c = true ∨ c = ':' ∨ c = '.' :=
      fun gs h => (mem_groupsText h).imp_right .inl
    simp only at h
    split at h
    · rcases List.mem_append.1 h with h | h
      · rcases List.mem_append.1 h with h | h
        · exact hgroups _ h
        · have hgap : "::".toList = [':', ':'] := by decide
          rw [hgap, List.mem_cons, List.mem_singleton, or_self] at h
          exact .inr (.inl h)
      · exact hgroups _ h
    · exact hgroups _ h

namespace IpAddress

theorem parse?_text (ip : IpAddress) : parse? ip.text = some ip := by
  cases ip with
  | v4 ip =>
    have h := TextReader.ipv4_append ip Text.endsNumber_nil
    rw [List.append_nil] at h
    change TextReader.ip.whole ip.text = _
    rw [TextReader.whole, TextReader.ip, h]
  | v6 ip =>
    change TextReader.ip.whole ip.text = _
    rw [TextReader.whole, TextReader.ip, ip.ipv4_text, TextReader.ipv6_text]
    rfl

theorem bracket_notMem_text (ip : IpAddress) : '[' ∉ ip.text ∧ ']' ∉ ip.text := by
  cases ip with
  | v4 ip => exact ⟨fun h => absurd (Ipv4.mem_text h) (by decide),
      fun h => absurd (Ipv4.mem_text h) (by decide)⟩
  | v6 ip => exact ⟨fun h => absurd (Ipv6.mem_text h) (by decide),
      fun h => absurd (Ipv6.mem_text h) (by decide)⟩

theorem head?_text_ne (ip : IpAddress) : ip.text.head? ≠ some '[' :=
  fun h => ip.bracket_notMem_text.1 (List.mem_of_head? h)

theorem count_text_ne_one (ip : IpAddress) : ip.text.count ':' ≠ 1 := by
  cases ip with
  | v4 ip =>
    have hzero := List.count_eq_zero_of_not_mem (ip.colon_notMem_text)
    exact fun hone => absurd (hzero.symm.trans hone) (by decide)
  | v6 ip =>
    have htwo := ip.two_le_count_text
    exact fun hone => absurd (htwo.trans_eq hone) (by decide)

end IpAddress

end GameQuery
