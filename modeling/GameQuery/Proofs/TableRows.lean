import GameQuery.Proofs.StatusText

namespace GameQuery

/-!
# Words, quotes and slots of a row

A row is trimmed, its slot number is dropped, it is cut at its outer quotes, and what is on both
sides of them is split into words. Blanks do not matter for words, wherever they come from, and a
text that is put together from words and blanks has just these words.
-/

namespace Text

variable {cs gap s w : List Char}

/-! ## Words -/

theorem splitAtEach_append_of_pos {p : Char → Bool} {c : Char} (hc : p c = true)
    (cs ds : List Char) : splitAtEach p (cs ++ c :: ds) = splitAtEach p cs ++ splitAtEach p ds := by
  induction cs with
  | nil => simp [splitAtEach, hc]
  | cons d cs ih =>
    rw [List.cons_append, splitAtEach, splitAtEach, ih]
    split
    · rfl
    · obtain ⟨piece, pieces, hcs⟩ := List.exists_cons_of_ne_nil (splitAtEach_ne_nil p cs)
      rw [hcs]
      rfl

@[simp] theorem words_nil : words [] = [] := rfl

theorem words_append_cons {c : Char} (hc : isBlank c = true) (cs ds : List Char) :
    words (cs ++ c :: ds) = words cs ++ words ds := by
  rw [words, splitAtEach_append_of_pos hc, List.filter_append]
  rfl

theorem words_append_gap (h : ∀ c ∈ gap, isBlank c = true) (hne : gap ≠ []) (cs ds : List Char) :
    words (cs ++ gap ++ ds) = words cs ++ words ds := by
  induction gap generalizing cs with
  | nil => exact absurd rfl hne
  | cons c gap ih =>
    have hc := h c List.mem_cons_self
    by_cases hgap : gap = []
    · rw [hgap, List.append_assoc]
      exact words_append_cons hc cs ds
    · have hsplit := ih (fun d hd => h d (List.mem_cons_of_mem c hd)) hgap (cs ++ [c])
      rw [List.append_assoc cs, List.singleton_append] at hsplit
      rw [hsplit, words_append_cons hc, words_nil, List.append_nil]

theorem words_append_left (h : ∀ c ∈ gap, isBlank c = true) (cs : List Char) :
    words (gap ++ cs) = words cs := by
  by_cases hne : gap = []
  · rw [hne, List.nil_append]
  · rw [← List.nil_append gap, words_append_gap h hne]
    rfl

theorem words_append_right (h : ∀ c ∈ gap, isBlank c = true) (cs : List Char) :
    words (cs ++ gap) = words cs := by
  by_cases hne : gap = []
  · rw [hne, List.append_nil]
  · rw [← List.append_nil (cs ++ gap), words_append_gap h hne, words_nil, List.append_nil]

/-- A run of characters that are not blank. -/
def IsWord (w : List Char) : Prop := w ≠ [] ∧ ∀ c ∈ w, isBlank c = false

instance (w : List Char) : Decidable (IsWord w) :=
  @instDecidableAnd _ _ _ (List.decidableBAll _ w)

theorem IsWord.words_eq (h : IsWord w) : words w = [w] := by
  simp [words, splitAtEach_of_forall h.2, h.1]

theorem words_dropWhile {p : Char → Bool} (h : ∀ c, p c = true → isBlank c = true)
    (cs : List Char) : words (cs.dropWhile p) = words cs := by
  have hblank : ∀ c ∈ cs.takeWhile p, isBlank c = true := fun c hc =>
    h c (List.mem_takeWhile_imp hc)
  rw [← words_append_left hblank, List.takeWhile_append_dropWhile]

theorem words_trimStart (cs : List Char) : words (trimStart cs) = words cs :=
  words_dropWhile (fun _ h => h) cs

theorem trimEnd_append_blanks (cs : List Char) :
    ∃ gap, (∀ c ∈ gap, isBlank c = true) ∧ cs = trimEnd cs ++ gap := by
  refine ⟨(cs.reverse.takeWhile isBlank).reverse, fun c hc => ?_, ?_⟩
  · exact List.mem_takeWhile_imp (List.mem_reverse.1 hc)
  · rw [trimEnd, dropEndWhile, ← List.reverse_append, List.takeWhile_append_dropWhile,
      List.reverse_reverse]

theorem words_trimEnd (cs : List Char) : words (trimEnd cs) = words cs := by
  obtain ⟨gap, hgap, hcs⟩ := trimEnd_append_blanks cs
  conv_rhs => rw [hcs, words_append_right hgap]

theorem words_trim (cs : List Char) : words (trim cs) = words cs := by
  rw [trim, words_trimEnd, words_trimStart]

theorem trim_trimEnd (cs : List Char) : trim (trimEnd cs) = trim cs := by
  obtain ⟨gap, hgap, hcs⟩ := trimEnd_append_blanks cs
  conv_rhs => rw [hcs, trim_append_of_blank hgap]

/-- Words with blanks between neighbours. -/
inductive Spaced : List (List Char) → List Char → Prop
  | last (w : List Char) : Spaced [w] w
  | cons (w : List Char) {gap s : List Char} {ws : List (List Char)} (hne : gap ≠ [])
    (hgap : ∀ c ∈ gap, isBlank c = true) (h : Spaced ws s) : Spaced (w :: ws) (w ++ gap ++ s)

theorem spaced_join {ws : List (List Char)} (h : ws ≠ []) : Spaced ws (join [' '] ws) := by
  induction ws with
  | nil => exact absurd rfl h
  | cons w ws ih =>
    cases ws with
    | nil => exact .last w
    | cons next ws =>
      refine .cons w (List.cons_ne_nil ' ' []) (fun c hc => ?_) (ih (List.cons_ne_nil next ws))
      rw [List.mem_singleton.1 hc]
      decide

theorem Spaced.words_eq {ws : List (List Char)} (h : Spaced ws s) (hws : ∀ w ∈ ws, IsWord w) :
    words s = ws := by
  induction h with
  | last w => exact (hws w List.mem_cons_self).words_eq
  | cons w hne hgap _ ih =>
    rw [words_append_gap hgap hne, (hws w List.mem_cons_self).words_eq,
      ih fun v hv => hws v (List.mem_cons_of_mem w hv)]
    rfl

theorem Spaced.mem_cases {ws : List (List Char)} (h : Spaced ws s) :
    ∀ c ∈ s, isBlank c = true ∨ ∃ w ∈ ws, c ∈ w := by
  induction h with
  | last w => exact fun c hc => .inr ⟨w, List.mem_cons_self, hc⟩
  | cons w _ hgap _ ih =>
    intro c hc
    rcases List.mem_append.1 hc with hc | hc
    · rcases List.mem_append.1 hc with hc | hc
      · exact .inr ⟨w, List.mem_cons_self, hc⟩
      · exact .inl (hgap c hc)
    · exact (ih c hc).imp_right fun ⟨v, hv, hcv⟩ => ⟨v, List.mem_cons_of_mem w hv, hcv⟩

/-- A piece between words: the words before it and behind it. -/
theorem Spaced.split {before after : List (List Char)} {piece : List Char}
    (h : Spaced (before ++ piece :: after) s) (hbefore : ∀ w ∈ before, IsWord w)
    (hafter : ∀ w ∈ after, IsWord w) :
    ∃ left right, s = left ++ piece ++ right ∧ words left = before ∧ words right = after ∧
      (∀ c ∈ left, isBlank c = true ∨ ∃ w ∈ before, c ∈ w) ∧
      ∀ c ∈ right, isBlank c = true ∨ ∃ w ∈ after, c ∈ w := by
  induction before generalizing s with
  | nil =>
    rw [List.nil_append] at h
    cases h with
    | last => exact ⟨[], [], by simp, rfl, rfl, nofun, nofun⟩
    | @cons _ gap s _ hne hgap h =>
      refine ⟨[], gap ++ s, by simp, rfl, ?_, nofun, fun c hc => ?_⟩
      · rw [words_append_left hgap, h.words_eq hafter]
      · rcases List.mem_append.1 hc with hc | hc
        · exact .inl (hgap c hc)
        · exact h.mem_cases c hc
  | cons w before ih =>
    obtain ⟨hw, hbefore⟩ := List.forall_mem_cons.1 hbefore
    rw [List.cons_append] at h
    generalize hws : before ++ piece :: after = ws at h ih
    cases h with
    | last => exact absurd hws (by simp)
    | @cons _ gap s _ hne hgap h =>
      obtain ⟨left, right, rfl, hleft, hright, hinleft, hinright⟩ := ih h hbefore
      refine ⟨w ++ gap ++ left, right, by simp, ?_, hright, fun c hc => ?_, hinright⟩
      · rw [words_append_gap hgap hne, hw.words_eq, hleft]
        rfl
      · rcases List.mem_append.1 hc with hc | hc
        · rcases List.mem_append.1 hc with hc | hc
          · exact .inr ⟨w, List.mem_cons_self, hc⟩
          · exact .inl (hgap c hc)
        · exact (hinleft c hc).imp_right fun ⟨v, hv, hcv⟩ => ⟨v, List.mem_cons_of_mem w hv, hcv⟩

/-! ## Cutting at quotes -/

theorem dropWhile_append_cons {p : Char → Bool} {c : Char} (hc : p c = false)
    (cs ds : List Char) : (cs ++ c :: ds).dropWhile p = cs.dropWhile p ++ c :: ds := by
  rw [List.dropWhile_append, List.dropWhile_cons_of_neg (by simp [hc])]
  split
  · next h => rw [List.isEmpty_iff.1 h, List.nil_append]
  · rfl

theorem trim_append_cons_append {c d : Char} (hc : isBlank c = false) (hd : isBlank d = false)
    (before between after : List Char) :
    trim (before ++ c :: (between ++ d :: after)) =
      trimStart before ++ c :: (between ++ d :: trimEnd after) := by
  have hend : dropEndWhile isBlank (d :: after) = d :: trimEnd after := dropEndWhile_cons hd after
  rw [trim, trimStart, dropWhile_append_cons hc, trimEnd, ← List.cons_append, ← List.append_assoc,
    dropEndWhile_append_of_ne_nil (by simp [hend]), hend, List.append_assoc]
  rfl

end Text

namespace StatusTable

open Text

variable {before name after : List Char}

/-- Only the outer quotes count. -/
theorem splitQuotes_quoted (hbefore : '"' ∉ before) (hafter : '"' ∉ after) (name : List Char) :
    splitQuotes (before ++ '"' :: (name ++ '"' :: after)) = some (before, name, after) := by
  have hreverse : (name ++ '"' :: after).reverse = after.reverse ++ '"' :: name.reverse := by simp
  have hafter' : '"' ∉ after.reverse := fun h => hafter (List.mem_reverse.1 h)
  rw [splitQuotes, splitOnce_append hbefore]
  simp only [hreverse, splitOnce_append hafter', List.reverse_reverse]

theorem splitQuotes_eq_none {line : List Char} (h : line.count '"' < 2) :
    splitQuotes line = none := by
  rw [splitQuotes]
  cases hfirst : splitOnce '"' line with
  | none => rfl
  | some parts =>
    obtain ⟨left, rest⟩ := parts
    cases hlast : splitOnce '"' rest.reverse with
    | none => simp only [hlast]
    | some parts =>
      -- One quote is in front of the rest, and another one in it.
      obtain ⟨right, middle⟩ := parts
      have hline := (splitOnce_eq_some hfirst).1
      have hmem : '"' ∈ rest := by
        rw [← List.mem_reverse, (splitOnce_eq_some hlast).1]
        simp
      have hpos := List.count_pos_iff.2 hmem
      rw [hline, List.count_append, List.count_cons_self] at h
      omega

/-! ## The slot -/

theorem isBlank_of_isDigit {c : Char} (h : c.isDigit = true) : isBlank c = false := by
  rw [Char.isDigit, Bool.and_eq_true, decide_eq_true_eq, decide_eq_true_eq] at h
  have hlow : 48 ≤ c.toNat := h.1
  have hhigh : c.toNat ≤ 57 := h.2
  simp only [isBlank, decide_eq_false_iff_not]
  omega

/-- A slot number and a space, in the tables that have slots. -/
def IsSlot (hasSlots : Prop) (slot : List Char) : Prop :=
  (¬ hasSlots ∧ slot = []) ∨
    hasSlots ∧ ∃ digits, digits ≠ [] ∧ (∀ c ∈ digits, c.isDigit = true) ∧ slot = digits ++ [' ']

theorem stripSlot_append {digits : List Char} (hne : digits ≠ [])
    (hdigits : ∀ c ∈ digits, c.isDigit = true) (rest : List Char) :
    stripSlot (digits ++ ' ' :: rest) = rest.dropWhile (· = ' ') := by
  obtain ⟨c, more, rfl⟩ := List.exists_cons_of_ne_nil hne
  have hdrop : ((c :: more) ++ ' ' :: rest).dropWhile Char.isDigit = ' ' :: rest := by
    rw [List.dropWhile_append_of_pos hdigits]
    rfl
  rw [stripSlot, hdrop, if_pos (by simp [hdigits c List.mem_cons_self])]
  rfl

theorem stripSlot_suffix (line : List Char) : stripSlot line <:+ line := by
  rw [stripSlot]
  split
  · exact (List.dropWhile_suffix _).trans (List.dropWhile_suffix _)
  · exact List.suffix_refl line

theorem stripSlot_of_head {c : Char} (hc : c.isDigit = false) (rest : List Char) :
    stripSlot (c :: rest) = c :: rest := by
  simp [stripSlot, hc]

theorem stripSlot_append_quote (before rest : List Char) :
    stripSlot (before ++ '"' :: rest) = stripSlot before ++ '"' :: rest := by
  cases before with
  | nil => exact stripSlot_of_head (by decide) rest
  | cons c before =>
    have hdrop := dropWhile_append_cons (p := Char.isDigit) (c := '"') (by decide) (c :: before) rest
    rw [stripSlot, stripSlot, hdrop]
    cases (c :: before).dropWhile Char.isDigit with
    | nil => simp
    | cons d more =>
      have hspaces := dropWhile_append_cons (p := (· = ' ')) (c := '"') (by decide) (d :: more) rest
      rw [hspaces]
      exact (apply_ite (· ++ '"' :: rest) _ _ _).symm

/-- The words of a row before its quoted name. -/
def wordsBefore (columns : List Column) (before : List Char) : List (List Char) :=
  words (if columns.head? = some .userId then before else stripSlot before)

/-- The cells of a row: the words before the name, the name, and the words behind it. -/
theorem splitRow_of_quotes (hbefore : '"' ∉ before) (hafter : '"' ∉ after) (columns : List Column)
    (name : List Char) :
    splitRow columns (before ++ '"' :: (name ++ '"' :: after)) =
      fit columns ((wordsBefore columns before).map some ++ some name :: (words after).map some) := by
  have hstripped : (if columns.head? = some .userId then before ++ '"' :: (name ++ '"' :: after)
      else stripSlot (before ++ '"' :: (name ++ '"' :: after))) =
        (if columns.head? = some .userId then before else stripSlot before) ++
          '"' :: (name ++ '"' :: after) := by
    rw [stripSlot_append_quote]
    split <;> rfl
  have hfront : '"' ∉ (if columns.head? = some .userId then before else stripSlot before) := by
    split
    · exact hbefore
    · exact fun h => hbefore ((stripSlot_suffix before).subset h)
  rw [splitRow, hstripped, splitQuotes_quoted hfront hafter, wordsBefore]

theorem splitRow_quoted {columns : List Column} {spaces slot : List Char}
    (hspaces : ∀ c ∈ spaces, isBlank c = true)
    (hslot : IsSlot (columns.head? ≠ some .userId) slot) (hbefore : '"' ∉ before)
    (hafter : '"' ∉ after) (name : List Char) :
    splitRow columns
        (trim (spaces ++ (slot ++ (before ++ '"' :: (name ++ '"' :: after))))) =
      fit columns ((words before).map some ++ some name :: (words after).map some) := by
  have hquote : isBlank '"' = false := by decide
  have hend : '"' ∉ trimEnd after := fun h => hafter ((dropEndWhile_isPrefix after).subset h)
  have hfront : '"' ∉ trimStart (slot ++ before) := by
    refine fun h => absurd ((List.dropWhile_suffix _).subset h) ?_
    rcases hslot with ⟨-, rfl⟩ | ⟨-, digits, -, hdigits, rfl⟩
    · exact hbefore
    · simp only [List.mem_append, List.mem_singleton, not_or]
      exact ⟨⟨fun h => absurd (hdigits _ h) (by decide), by decide⟩, hbefore⟩
  have hwords : wordsBefore columns (trimStart (slot ++ before)) = words before := by
    rcases hslot with ⟨huserId, rfl⟩ | ⟨huserId, digits, hne, hdigits, rfl⟩
    · rw [wordsBefore, if_pos (not_not.1 huserId), List.nil_append, words_trimStart]
    · obtain ⟨c, more, rfl⟩ := List.exists_cons_of_ne_nil hne
      have hc := isBlank_of_isDigit (hdigits c List.mem_cons_self)
      have hstart : trimStart ((c :: more) ++ [' '] ++ before) = (c :: more) ++ ' ' :: before := by
        rw [List.append_assoc]
        exact List.dropWhile_cons_of_neg (by simp [hc])
      have hspace : ∀ c, decide (c = ' ') = true → isBlank c = true := fun c hc => by
        rw [of_decide_eq_true hc]
        decide
      rw [wordsBefore, if_neg huserId, hstart, stripSlot_append hne hdigits, words_dropWhile hspace]
  rw [trim_append_left hspaces, ← List.append_assoc, trim_append_cons_append hquote hquote,
    splitRow_of_quotes hfront hend, hwords, words_trimEnd]

/-- A row with fewer than two quotes is no entry. -/
theorem splitRow_of_count_lt (columns : List Column) {line : List Char} (h : line.count '"' < 2) :
    splitRow columns line = .unquoted := by
  have hstripped : (if columns.head? = some .userId then line else stripSlot line).count '"' < 2 := by
    split
    · exact h
    · exact Nat.lt_of_le_of_lt ((stripSlot_suffix line).sublist.count_le '"') h
  simp only [splitRow, splitQuotes_eq_none hstripped]

/-! ## Lines -/

variable {lead rest : List Char}

theorem trim_marked (hlead : ∀ c ∈ lead, isBlank c = true) (rest : List Char) :
    trim (lead ++ '#' :: rest) = '#' :: trimEnd rest := by
  have hmark : isBlank '#' = false := by decide
  rw [trim_append_left hlead, trim, trimStart, List.dropWhile_cons_of_neg (by simp [hmark])]
  exact dropEndWhile_cons hmark rest

theorem tableLine_marked (hlead : ∀ c ∈ lead, isBlank c = true)
    (h : trimEnd rest ≠ "end".toList) : tableLine (lead ++ '#' :: rest) = some (trim rest) := by
  have hend : '#' :: trimEnd rest ≠ "#end".toList := fun heq => h (List.cons.inj heq).2
  rw [tableLine, trim_marked hlead, if_pos ⟨rfl, hend⟩]
  exact congrArg some (trim_trimEnd rest)

theorem quote_notMem {cs : List Char} {ws : List (List Char)}
    (h : ∀ c ∈ cs, isBlank c = true ∨ ∃ w ∈ ws, c ∈ w) (hws : ∀ w ∈ ws, '"' ∉ w) : '"' ∉ cs := by
  intro hmem
  rcases h _ hmem with hblank | ⟨w, hw, hc⟩
  · revert hblank
    decide
  · exact hws w hw hc

theorem quote_notMem_of_blank {cs : List Char} (h : ∀ c ∈ cs, isBlank c = true) : '"' ∉ cs :=
  quote_notMem (fun c hc => .inl (h c hc)) (List.forall_mem_nil _)

theorem tableLine_quoted (hlead : ∀ c ∈ lead, isBlank c = true) (h : '"' ∈ rest) :
    tableLine (lead ++ '#' :: rest) = some (trim rest) := by
  refine tableLine_marked hlead fun hend => ?_
  obtain ⟨blanks, hblanks, hrest⟩ := trimEnd_append_blanks rest
  rw [hrest, hend] at h
  rcases List.mem_append.1 h with h | h
  · revert h
    decide
  · exact quote_notMem_of_blank hblanks h

theorem trim_sublist (cs : List Char) : (trim cs).Sublist cs :=
  (dropEndWhile_isPrefix _).sublist.trans (List.dropWhile_suffix _).sublist

theorem count_tableLine_le {line t : List Char} (h : tableLine line = some t) (c : Char) :
    t.count c ≤ line.count c := by
  obtain ⟨rest, htrim, rfl⟩ := eq_of_tableLine_eq_some h
  have hrest : rest.Sublist line := by
    have hline := trim_sublist line
    rw [htrim] at hline
    exact (List.sublist_cons_self '#' rest).trans hline
  exact ((trim_sublist rest).trans hrest).count_le c

end StatusTable

end GameQuery
