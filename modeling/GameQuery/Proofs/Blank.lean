import GameQuery.Text.Blank
import Mathlib.Data.List.Induction
import Mathlib.Data.List.TakeWhile

namespace GameQuery.Text

/-!
# Trimming and cutting

What is left of a text without the blanks at its ends, when the text is put together from parts,
and where a text is cut.
-/

section DropEnd

variable {p : Char → Bool}

theorem dropEndWhile_append_of_forall {cs : List Char} (h : ∀ c ∈ cs, p c = true)
    (before : List Char) : dropEndWhile p (before ++ cs) = dropEndWhile p before := by
  rw [dropEndWhile, List.reverse_append, List.dropWhile_append_of_pos, dropEndWhile]
  exact fun c hc => h c (List.mem_reverse.1 hc)

theorem dropEndWhile_append_of_ne_nil {cs : List Char} (h : dropEndWhile p cs ≠ [])
    (before : List Char) : dropEndWhile p (before ++ cs) = before ++ dropEndWhile p cs := by
  have hne : (cs.reverse.dropWhile p).isEmpty = false := by
    simpa [dropEndWhile] using h
  simp only [dropEndWhile, List.reverse_append, List.dropWhile_append, hne, Bool.false_eq_true,
    if_false, List.reverse_reverse]

theorem dropEndWhile_append_line {line : List Char} (hne : line ≠ [])
    (hline : ∀ c ∈ line, p c = false) (before : List Char) :
    dropEndWhile p (before ++ line) = before ++ line := by
  obtain ⟨line, c, rfl⟩ : ∃ start c, line = start ++ [c] :=
    ⟨_, _, (List.dropLast_concat_getLast hne).symm⟩
  rw [← List.append_assoc, dropEndWhile_concat, if_neg (by simp [hline c (by simp)])]

theorem dropEndWhile_cons {c : Char} (h : p c = false) (cs : List Char) :
    dropEndWhile p (c :: cs) = c :: dropEndWhile p cs := by
  simp only [dropEndWhile, List.reverse_cons, List.dropWhile_append]
  split
  · next hempty => simp_all
  · simp

theorem dropEndWhile_eq_nil {cs : List Char} :
    dropEndWhile p cs = [] ↔ ∀ c ∈ cs, p c = true := by
  simp [dropEndWhile, List.dropWhile_eq_nil_iff]

theorem mem_dropEndWhile {cs : List Char} {c : Char} (hc : c ∈ cs) (h : p c = false) :
    c ∈ dropEndWhile p cs := by
  induction cs using List.reverseRecOn with
  | nil => cases hc
  | append_singleton cs last ih =>
    rw [dropEndWhile_concat]
    split
    · next hlast =>
      rcases List.mem_append.1 hc with hc | hc
      · exact ih hc
      · rw [List.mem_singleton.1 hc, hlast] at h
        cases h
    · exact hc

theorem dropEndWhile_isPrefix (cs : List Char) : dropEndWhile p cs <+: cs := by
  rw [dropEndWhile, ← List.reverse_suffix, List.reverse_reverse]
  exact List.dropWhile_suffix p

theorem dropEndWhile_of_getLast? {cs : List Char}
    (h : ∀ c ∈ cs.getLast?, p c = false) : dropEndWhile p cs = cs := by
  induction cs using List.reverseRecOn with
  | nil => rfl
  | append_singleton cs c _ =>
    have hc := h c (by simp)
    simp [dropEndWhile_concat, hc]

theorem getLast?_dropEndWhile (p : Char → Bool) (cs : List Char) :
    ∀ c ∈ (dropEndWhile p cs).getLast?, p c = false := by
  induction cs using List.reverseRecOn with
  | nil => simp
  | append_singleton cs c ih =>
    rw [dropEndWhile_concat]
    split
    · exact ih
    · next hc => simpa using hc

end DropEnd

theorem trimStart_eq_nil {cs : List Char} : trimStart cs = [] ↔ ∀ c ∈ cs, isBlank c = true :=
  List.dropWhile_eq_nil_iff

theorem trimStart_append {cs : List Char} (h : trimStart cs ≠ []) (ds : List Char) :
    trimStart (cs ++ ds) = trimStart cs ++ ds := by
  rw [trimStart, List.dropWhile_append, if_neg (by simpa [trimStart] using h), trimStart]

theorem trim_eq_nil {cs : List Char} : trim cs = [] ↔ ∀ c ∈ cs, isBlank c = true := by
  rw [trim, trimEnd, dropEndWhile_eq_nil]
  constructor
  · intro h
    rw [← trimStart_eq_nil]
    by_contra hne
    obtain ⟨c, rest, hcs⟩ := List.exists_cons_of_ne_nil hne
    have hhead := List.head?_dropWhile_not isBlank cs
    rw [← trimStart, hcs] at hhead
    have hc := h c (by simp [hcs])
    simp [hc] at hhead
  · intro h c hc
    rw [trimStart_eq_nil.2 h] at hc
    cases hc

@[simp] theorem trim_nil : trim [] = [] := rfl

theorem trim_append_of_blank {cs : List Char} (h : ∀ c ∈ cs, isBlank c = true)
    (before : List Char) : trim (before ++ cs) = trim before := by
  by_cases hbefore : trimStart before = []
  · have hblank : ∀ c ∈ before ++ cs, isBlank c = true := by
      intro c hc
      rcases List.mem_append.1 hc with hc | hc
      · exact trimStart_eq_nil.1 hbefore c hc
      · exact h c hc
    rw [trim_eq_nil.2 hblank, trim, hbefore]
    rfl
  · rw [trim, trimStart_append hbefore, trimEnd, dropEndWhile_append_of_forall h]
    rfl

theorem trim_append_left {cs : List Char} (h : ∀ c ∈ cs, isBlank c = true) (behind : List Char) :
    trim (cs ++ behind) = trim behind := by
  rw [trim, trimStart, List.dropWhile_append_of_pos h]
  rfl

theorem head?_trim (cs : List Char) : (trim cs).head? = (trimStart cs).head? := by
  rw [trim, trimEnd]
  cases hcs : trimStart cs with
  | nil => rfl
  | cons c rest =>
    have hhead := List.head?_dropWhile_not isBlank cs
    rw [← trimStart, hcs] at hhead
    rw [dropEndWhile_cons (by simpa using hhead)]
    rfl

section Joined

variable {left right : List Char}

theorem trim_joined_of_left (h : trim left = []) : trim (left ++ ' ' :: right) = trim right := by
  have hleft := trim_eq_nil.1 h
  rw [← List.singleton_append, ← List.append_assoc]
  refine trim_append_left (fun c hc => ?_) right
  rcases List.mem_append.1 hc with hc | hc
  · exact hleft c hc
  · rw [List.mem_singleton.1 hc]
    decide

theorem trim_joined_of_right (h : trim right = []) : trim (left ++ ' ' :: right) = trim left := by
  refine trim_append_of_blank (fun c hc => ?_) left
  rcases List.mem_cons.1 hc with rfl | hc
  · decide
  · exact trim_eq_nil.1 h c hc

theorem trimStart_ne_nil (h : trim left ≠ []) : trimStart left ≠ [] :=
  fun hnil => h (trim_eq_nil.2 (trimStart_eq_nil.1 hnil))

theorem head?_trim_joined (h : trim left ≠ []) :
    (trim (left ++ ' ' :: right)).head? = (trim left).head? := by
  obtain ⟨c, rest, hstart⟩ := List.exists_cons_of_ne_nil (trimStart_ne_nil h)
  rw [head?_trim, head?_trim, trimStart_append (trimStart_ne_nil h), hstart]
  rfl

/-- Two texts with a space between them, without the blanks at both ends. -/
theorem trim_joined (hleft : trim left ≠ []) (hright : trim right ≠ []) :
    ∃ behind, trim (left ++ ' ' :: right) = trim left ++ behind ∧
      ' ' ∈ behind ∧ trim behind ≠ [] := by
  have hright' : dropEndWhile isBlank right ≠ [] := by
    rw [Ne, dropEndWhile_eq_nil, ← trim_eq_nil]
    exact hright
  have hend : dropEndWhile isBlank (' ' :: right) = ' ' :: trimEnd right := by
    rw [← List.singleton_append, dropEndWhile_append_of_ne_nil hright']
    rfl
  obtain ⟨blanks, hblanks⟩ := dropEndWhile_isPrefix (p := isBlank) (trimStart left)
  refine ⟨blanks ++ ' ' :: trimEnd right, ?_, by simp, ?_⟩
  · rw [trim, trimStart_append (trimStart_ne_nil hleft), trimEnd,
      dropEndWhile_append_of_ne_nil (by simp [hend]), hend, ← List.append_assoc]
    exact congrArg (· ++ ' ' :: trimEnd right) hblanks.symm
  · rw [Ne, trim_eq_nil] at hright ⊢
    refine fun hblank => hright fun c hc => ?_
    by_contra hc'
    have hmem := mem_dropEndWhile hc (Bool.eq_false_iff.2 hc')
    exact hc' (hblank c (List.mem_append_right _ (List.mem_cons_of_mem _ hmem)))

theorem space_mem_trim_joined (hleft : trim left ≠ []) (hright : trim right ≠ []) :
    ' ' ∈ trim (left ++ ' ' :: right) := by
  obtain ⟨behind, hjoined, hspace, -⟩ := trim_joined hleft hright
  rw [hjoined]
  exact List.mem_append_right _ hspace

/-- What is behind a text makes the trimmed text longer, unless it is blank. -/
theorem length_trim_lt (h : trim right ≠ []) (left : List Char) :
    (trim left).length < (trim (left ++ right)).length := by
  by_cases hleft : trimStart left = []
  · rw [trim_append_left (trimStart_eq_nil.1 hleft), trim, hleft]
    exact List.length_pos_iff.2 h
  · have hright : trimEnd right ≠ [] := by
      rw [trimEnd, Ne, dropEndWhile_eq_nil, ← trim_eq_nil]
      exact h
    have hle := (dropEndWhile_isPrefix (p := isBlank) (trimStart left)).length_le
    have hpos := List.length_pos_iff.2 hright
    rw [trim, trim, trimStart_append hleft, trimEnd, trimEnd, dropEndWhile_append_of_ne_nil hright,
      List.length_append]
    exact Nat.lt_of_le_of_lt hle (Nat.lt_add_of_pos_right hpos)

end Joined

theorem trim_dropReturn (line : List Char) : trim (dropReturn line) = trim line := by
  rw [dropReturn]
  split
  · next h =>
    obtain ⟨before, rfl⟩ := List.getLast?_eq_some_iff.1 h
    rw [List.dropLast_concat, trim_append_of_blank]
    exact fun c hc => by rw [List.mem_singleton.1 hc]; decide
  · rfl

/-! ## Cutting at a separator -/

theorem splitOnce_append {sep : Char} {cs : List Char} (h : sep ∉ cs) (ds : List Char) :
    splitOnce sep (cs ++ sep :: ds) = some (cs, ds) := by
  induction cs with
  | nil => simp [splitOnce]
  | cons c cs ih =>
    rw [List.mem_cons, not_or] at h
    rw [List.cons_append, splitOnce, if_neg (Ne.symm h.1), ih h.2]
    rfl

theorem splitOnce_eq_none_iff {sep : Char} {cs : List Char} :
    splitOnce sep cs = none ↔ sep ∉ cs := by
  constructor
  · intro hnone hmem
    obtain ⟨before, after, rfl, hbefore⟩ := List.eq_append_cons_of_mem hmem
    rw [splitOnce_append hbefore] at hnone
    cases hnone
  · intro h
    cases hsplit : splitOnce sep cs with
    | none => rfl
    | some parts =>
      rw [(splitOnce_eq_some hsplit).1] at h
      exact absurd (List.mem_append_right _ List.mem_cons_self) h

end GameQuery.Text
