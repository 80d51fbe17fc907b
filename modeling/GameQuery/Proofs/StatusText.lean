import GameQuery.Proofs.Blank
import GameQuery.StatusTable
import Mathlib.Data.List.Induction

namespace GameQuery

/-!
# Status tables in pieces

A table is found line by line, so a text of complete lines can be cut between any two of them. If
the pieces lose the line feeds at their ends and are joined by spaces, the lines at both sides of a
cut become one. `glueAll` says which lines there are then, `SafeCut` at which cuts the table stays
the same, and `KeepsLine` at which it loses no line.
-/

namespace Text

/-- Complete lines, each with the line feed that ends it. -/
def ofLines (ls : List (List Char)) : List Char := ls.flatMap (· ++ ['\n'])

section Split

variable {p : Char → Bool}

theorem splitAtEach_of_forall {cs : List Char} (h : ∀ c ∈ cs, p c = false) :
    splitAtEach p cs = [cs] := by
  induction cs with
  | nil => rfl
  | cons c cs ih =>
    rw [splitAtEach, if_neg (by simp [h c List.mem_cons_self]),
      ih fun d hd => h d (List.mem_cons_of_mem c hd)]

theorem splitAtEach_append_cons {line : List Char} (h : ∀ c ∈ line, p c = false) {sep : Char}
    (hsep : p sep = true) (cs : List Char) :
    splitAtEach p (line ++ sep :: cs) = line :: splitAtEach p cs := by
  induction line with
  | nil => rw [List.nil_append, splitAtEach, if_pos hsep]
  | cons c line ih =>
    rw [List.cons_append, splitAtEach, if_neg (by simp [h c List.mem_cons_self]),
      ih fun d hd => h d (List.mem_cons_of_mem c hd)]

/-- What is joined by a separator falls apart at it. -/
theorem splitAtEach_join {sep : Char} {parts : List (List Char)} (hne : parts ≠ [])
    (h : ∀ part ∈ parts, sep ∉ part) : splitAtEach (· = sep) (join [sep] parts) = parts := by
  have hfree : ∀ part : List Char, sep ∉ part → ∀ c ∈ part, decide (c = sep) = false :=
    fun part hpart c hc => decide_eq_false fun he => hpart (he ▸ hc)
  induction parts with
  | nil => exact absurd rfl hne
  | cons part parts ih =>
    obtain ⟨hpart, hparts⟩ := List.forall_mem_cons.1 h
    cases parts with
    | nil => exact splitAtEach_of_forall (hfree part hpart)
    | cons next parts =>
      have hsplit := splitAtEach_append_cons (hfree part hpart) (decide_eq_true rfl)
        (join [sep] (next :: parts))
      rw [join, List.append_assoc, List.singleton_append, hsplit,
        ih (List.cons_ne_nil next parts) hparts]
      exact nofun

end Split

def AreLines (ls : List (List Char)) : Prop := ∀ l ∈ ls, '\n' ∉ l

theorem AreLines.of_cons {l : List Char} {ls : List (List Char)} (h : AreLines (l :: ls)) :
    (∀ c ∈ l, decide (c = '\n') = false) ∧ AreLines ls := by
  refine ⟨fun c hc => ?_, fun m hm => h m (List.mem_cons_of_mem l hm)⟩
  exact decide_eq_false fun he => h l List.mem_cons_self (he ▸ hc)

theorem splitAtEach_ofLines_append {ls : List (List Char)} (h : AreLines ls) (cs : List Char) :
    splitAtEach (· = '\n') (ofLines ls ++ cs) = ls ++ splitAtEach (· = '\n') cs := by
  induction ls with
  | nil => rfl
  | cons l ls ih =>
    obtain ⟨hl, hls⟩ := h.of_cons
    rw [ofLines, List.flatMap_cons, List.append_assoc, List.append_assoc, List.singleton_append,
      splitAtEach_append_cons hl (decide_eq_true rfl), List.cons_append]
    exact congrArg (l :: ·) (ih hls)

/-- The last piece of a text and the first piece of another one that follows behind a space. -/
def glue : List (List Char) → List (List Char) → List (List Char)
  | [], right => right
  | [last], [] => [last]
  | [last], first :: rest => (last ++ ' ' :: first) :: rest
  | line :: next :: left, right => line :: glue (next :: left) right

theorem glue_cons {line : List Char} {left : List (List Char)} (h : left ≠ [])
    (right : List (List Char)) : glue (line :: left) right = line :: glue left right := by
  obtain ⟨next, left, rfl⟩ := List.exists_cons_of_ne_nil h
  rw [glue]

theorem glue_concat (left : List (List Char)) (last first : List Char)
    (rest : List (List Char)) :
    glue (left ++ [last]) (first :: rest) = left ++ (last ++ ' ' :: first) :: rest := by
  induction left with
  | nil => rfl
  | cons line left ih => rw [List.cons_append, glue_cons (by simp), ih, List.cons_append]

theorem splitAtEach_append_space {p : Char → Bool} (hp : p ' ' = false) (cs ds : List Char) :
    splitAtEach p (cs ++ ' ' :: ds) = glue (splitAtEach p cs) (splitAtEach p ds) := by
  induction cs with
  | nil =>
    obtain ⟨first, rest, hds⟩ := List.exists_cons_of_ne_nil (splitAtEach_ne_nil p ds)
    simp [splitAtEach, hp, hds, glue]
  | cons c cs ih =>
    rw [List.cons_append, splitAtEach, splitAtEach, ih]
    obtain ⟨piece, pieces, hcs⟩ := List.exists_cons_of_ne_nil (splitAtEach_ne_nil p cs)
    obtain ⟨first, rest, hds⟩ := List.exists_cons_of_ne_nil (splitAtEach_ne_nil p ds)
    rw [hcs, hds]
    split
    · exact (glue_cons (List.cons_ne_nil piece pieces) _).symm
    · cases pieces <;> rfl

/-- Lines without the empty ones at the end. -/
def dropEmptyEnd (ls : List (List Char)) : List (List Char) :=
  (ls.reverse.dropWhile List.isEmpty).reverse

theorem dropEmptyEnd_concat (ls : List (List Char)) (l : List Char) :
    dropEmptyEnd (ls ++ [l]) = if l = [] then dropEmptyEnd ls else ls ++ [l] := by
  cases l <;> simp [dropEmptyEnd]

theorem splitAtEach_dropEndWhile_ofLines {p : Char → Bool} (hp : p '\n' = true)
    {ls : List (List Char)} (hls : ∀ l ∈ ls, ∀ c ∈ l, p c = false) (hne : dropEmptyEnd ls ≠ []) :
    splitAtEach (· = '\n') (dropEndWhile p (ofLines ls)) = dropEmptyEnd ls := by
  induction ls using List.reverseRecOn with
  | nil => exact absurd rfl hne
  | append_singleton ls l ih =>
    have hend : dropEndWhile p (ofLines (ls ++ [l])) = dropEndWhile p (ofLines ls ++ l) := by
      have hsplit : ofLines (ls ++ [l]) = (ofLines ls ++ l) ++ ['\n'] := by simp [ofLines]
      rw [hsplit, dropEndWhile_concat, if_pos hp]
    rw [hend]
    rw [dropEmptyEnd_concat] at hne ⊢
    by_cases hl : l = []
    · rw [if_pos hl] at hne ⊢
      rw [hl, List.append_nil]
      exact ih (fun m hm => hls m (by simp [hm])) hne
    · have hline : AreLines (ls ++ [l]) := by
        intro m hm hmem
        have hpm := hls m hm _ hmem
        rw [hp] at hpm
        cases hpm
      rw [if_neg hl, dropEndWhile_append_line hl (hls l (by simp)),
        splitAtEach_ofLines_append fun m hm => hline m (by simp [hm]), splitAtEach_of_forall]
      exact fun c hc => decide_eq_false fun he => hline l (by simp) (he ▸ hc)

/-- The lines of some groups of lines, if the last line of each group and the first line of the next
one become one. -/
def glueAll : List (List (List Char)) → List (List Char)
  | [] => []
  | [ls] => ls
  | ls :: rest => glue ls (glueAll rest)

theorem glueAll_cons {rest : List (List (List Char))} (h : rest ≠ []) (ls : List (List Char)) :
    glueAll (ls :: rest) = glue ls (glueAll rest) := by
  obtain ⟨next, rest, rfl⟩ := List.exists_cons_of_ne_nil h
  rw [glueAll]
  exact List.cons_ne_nil next rest

theorem splitAtEach_intercalate {p : Char → Bool} (hp : p ' ' = false) {texts : List (List Char)}
    (h : texts ≠ []) :
    splitAtEach p ([' '].intercalate texts) = glueAll (texts.map (splitAtEach p)) := by
  induction texts with
  | nil => exact absurd rfl h
  | cons text rest ih =>
    cases rest with
    | nil => simp [glueAll]
    | cons next rest =>
      rw [List.intercalate_cons_cons, List.append_assoc, List.singleton_append,
        splitAtEach_append_space hp, ih (List.cons_ne_nil next rest)]
      rfl

end Text

namespace StatusTable

/-- What a line adds to the table. -/
def tableLine (line : List Char) : Option (List Char) :=
  if (Text.trim line).head? = some '#' ∧ Text.trim line ≠ "#end".toList then
    some (Text.trim ((Text.trim line).drop 1))
  else none

theorem tableLine_eq_none {line : List Char} :
    tableLine line = none ↔
      ((Text.trim line).head? = some '#' → Text.trim line = "#end".toList) := by
  simp only [tableLine, ite_eq_right_iff, reduceCtorEq, imp_false, not_and, not_not]

theorem tableLine_congr {line other : List Char} (h : Text.trim line = Text.trim other) :
    tableLine line = tableLine other := by
  rw [tableLine, tableLine, h]

theorem tableLine_of_blank {line : List Char} (h : Text.trim line = []) :
    tableLine line = none := tableLine_congr (h.trans Text.trim_nil.symm)

theorem filterMap_tableLine (ls : List (List Char)) :
    ((ls.map Text.trim).filter fun line =>
      line.head? = some '#' && line ≠ "#end".toList).map (fun line => Text.trim (line.drop 1)) =
    ls.filterMap tableLine := by
  induction ls with
  | nil => rfl
  | cons line ls ih =>
    rw [List.filterMap_cons, List.map_cons, List.filter_cons, tableLine]
    by_cases h : (Text.trim line).head? = some '#' ∧ Text.trim line ≠ "#end".toList
    · rw [if_pos h, if_pos (by simpa using h), List.map_cons, ih]
    · rw [if_neg h, if_neg (by simpa using h), ih]

theorem filterMap_linesOfPieces (pieces : List (List Char)) :
    (Text.linesOfPieces pieces).filterMap tableLine = pieces.filterMap tableLine := by
  fun_induction Text.linesOfPieces pieces with
  | case1 => rfl
  | case2 => rfl
  | case3 last h => rfl
  | case4 line rest hne ih =>
    rw [List.filterMap_cons, List.filterMap_cons, ih,
      tableLine_congr (Text.trim_dropReturn line)]

theorem tableLines_eq (output : List Char) :
    tableLines output = (Text.splitAtEach (· = '\n') output).filterMap tableLine :=
  (filterMap_tableLine _).trans (filterMap_linesOfPieces _)

/-! ## Cuts -/

/-- Between these two lines a text can be cut, and nothing happens to the table: one of them is
blank, or the first one has no number sign in front and the second one is no line of the table. -/
def SafeCut (a b : List Char) : Prop :=
  Text.trim a = [] ∨ Text.trim b = [] ∨ ((Text.trim a).head? ≠ some '#' ∧ tableLine b = none)

variable {a b c : List Char}

theorem tableLine_joined_of_head (ha : Text.trim a ≠ []) (h : (Text.trim a).head? ≠ some '#') :
    tableLine (a ++ ' ' :: b) = none := by
  rw [tableLine_eq_none, Text.head?_trim_joined ha]
  exact fun h' => absurd h' h

theorem tableLine_joined_of_left (h : Text.trim a = []) :
    tableLine (a ++ ' ' :: b) = tableLine b := tableLine_congr (Text.trim_joined_of_left h)

theorem tableLine_joined_of_right (h : Text.trim b = []) :
    tableLine (a ++ ' ' :: b) = tableLine a := tableLine_congr (Text.trim_joined_of_right h)

theorem SafeCut.filterMap_eq (h : SafeCut a b) :
    [a ++ ' ' :: b].filterMap tableLine = [a, b].filterMap tableLine := by
  rcases h with ha | hb | ⟨ha, hb⟩
  · simp only [List.filterMap_cons, tableLine_joined_of_left ha, tableLine_of_blank ha]
  · simp only [List.filterMap_cons, tableLine_joined_of_right hb, tableLine_of_blank hb,
      List.filterMap_nil]
  · have hnone : tableLine a = none := tableLine_eq_none.2 fun h => absurd h ha
    have hjoined : tableLine (a ++ ' ' :: b) = none := by
      by_cases hblank : Text.trim a = []
      · rw [tableLine_joined_of_left hblank, hb]
      · exact tableLine_joined_of_head hblank ha
    simp only [List.filterMap_cons, hjoined, hnone, hb]

/-- Two cuts around a line that is not blank. -/
theorem SafeCut.joined (hab : SafeCut a b) (hbc : SafeCut b c) (hb : Text.trim b ≠ []) :
    SafeCut a (b ++ ' ' :: c) := by
  rcases hab with ha | hblank | ⟨ha, hnone⟩
  · exact .inl ha
  · exact absurd hblank hb
  · refine .inr (.inr ⟨ha, ?_⟩)
    rcases hbc with hblank | hc | ⟨hhead, -⟩
    · exact absurd hblank hb
    · rw [tableLine_joined_of_right hc, hnone]
    · exact tableLine_joined_of_head hb hhead

/-- Groups of lines, each with a line that is not blank. -/
def AreGroups (groups : List (List (List Char))) : Prop :=
  ∀ ls ∈ groups, ∃ l ∈ ls, Text.trim l ≠ []

/-- A condition on the lines at both sides of every cut between groups. -/
def AtCuts (P : List Char → List Char → Prop) (groups : List (List (List Char))) : Prop :=
  groups.IsChain fun ls next => ∀ a ∈ ls.getLast?, ∀ b ∈ next.head?, P a b

section Groups

variable {ls next : List (List Char)} {rest : List (List (List Char))}

/-- The first of the lines that groups are glued to: that of the first group, or, if the group has
no other, that line and what is glued to it. -/
theorem head?_glueAll (hls : ls ≠ []) (rest : List (List (List Char))) :
    ∃ b, ls.head? = some b ∧ ((Text.glueAll (ls :: rest)).head? = some b ∨
      ls = [b] ∧ ∃ c, (Text.glueAll rest).head? = some c ∧
        (Text.glueAll (ls :: rest)).head? = some (b ++ ' ' :: c)) := by
  obtain ⟨b, more, rfl⟩ := List.exists_cons_of_ne_nil hls
  refine ⟨b, rfl, ?_⟩
  by_cases hrest : rest = []
  · subst hrest
    exact .inl rfl
  · rw [Text.glueAll_cons hrest]
    cases more with
    | cons second more => exact .inl rfl
    | nil =>
      cases hglued : Text.glueAll rest with
      | nil => exact .inl rfl
      | cons c lines => exact .inr ⟨rfl, c, rfl, rfl⟩

theorem glueAll_ne_nil {groups : List (List (List Char))} (hne : groups ≠ [])
    (h : AreGroups groups) : Text.glueAll groups ≠ [] := by
  obtain ⟨ls, rest, rfl⟩ := List.exists_cons_of_ne_nil hne
  obtain ⟨l, hl, -⟩ := h ls List.mem_cons_self
  obtain ⟨b, -, hb | ⟨-, c, -, hb⟩⟩ := head?_glueAll (List.ne_nil_of_mem hl) rest
  · exact fun hnil => by rw [hnil] at hb; cases hb
  · exact fun hnil => by rw [hnil] at hb; cases hb

theorem AreGroups.of_cons (h : AreGroups (ls :: rest)) : ls ≠ [] ∧ AreGroups rest := by
  obtain ⟨l, hl, -⟩ := h ls List.mem_cons_self
  exact ⟨List.ne_nil_of_mem hl, fun m hm => h m (List.mem_cons_of_mem ls hm)⟩

/-- The cut in front of some groups, seen from the line that they are glued to. -/
theorem safeCut_glueAll {groups : List (List (List Char))} (hgroups : AreGroups groups)
    (hcuts : AtCuts SafeCut groups) {b : List Char} (hb : groups.head?.bind List.head? = some b)
    (hfirst : SafeCut a b) : ∀ r ∈ (Text.glueAll groups).head?, SafeCut a r := by
  induction groups generalizing a b with
  | nil => cases hb
  | cons ls rest ih =>
    intro r hr
    obtain ⟨hls, hrest⟩ := hgroups.of_cons
    obtain ⟨b', hb', hglued | ⟨rfl, c, hc, hglued⟩⟩ := head?_glueAll hls rest
    · cases hb.symm.trans hb'
      cases hglued.symm.trans hr
      exact hfirst
    · cases hb
      cases hglued.symm.trans hr
      obtain ⟨l, hl, hblank⟩ := hgroups [b] List.mem_cons_self
      rw [List.mem_singleton.1 hl] at hblank
      cases rest with
      | nil => cases hc
      | cons next rest =>
        obtain ⟨hcut, hcuts'⟩ := List.isChain_cons_cons.1 hcuts
        obtain ⟨d, more, rfl⟩ := List.exists_cons_of_ne_nil hrest.of_cons.1
        have hd : SafeCut b d := hcut b rfl d rfl
        exact hfirst.joined (ih hrest hcuts' rfl hd c hc) hblank

/-- The cut behind the first of several groups: the lines at both sides of it. -/
theorem glueAll_cut (h : AreGroups (ls :: next :: rest)) :
    ∃ init a d r lines, ls = init ++ [a] ∧ next.head? = some d ∧
      Text.glueAll (next :: rest) = r :: lines ∧
      Text.glueAll (ls :: next :: rest) = init ++ (a ++ ' ' :: r) :: lines := by
  obtain ⟨hls, hrest⟩ := h.of_cons
  obtain ⟨d, more, hnext⟩ := List.exists_cons_of_ne_nil hrest.of_cons.1
  obtain ⟨r, lines, hglued⟩ :=
    List.exists_cons_of_ne_nil (glueAll_ne_nil (List.cons_ne_nil _ _) hrest)
  refine ⟨ls.dropLast, ls.getLast hls, d, r, lines, (List.dropLast_concat_getLast hls).symm,
    by rw [hnext]; rfl, hglued, ?_⟩
  rw [Text.glueAll_cons (List.cons_ne_nil _ _), hglued, ← Text.glue_concat,
    List.dropLast_concat_getLast hls]

/-- Safe cuts leave the table as it is. -/
theorem filterMap_glueAll {groups : List (List (List Char))} (hgroups : AreGroups groups)
    (hcuts : AtCuts SafeCut groups) :
    (Text.glueAll groups).filterMap tableLine = groups.flatten.filterMap tableLine := by
  -- The line behind a cut may be glued together itself, so the cut is seen from that line.
  induction groups with
  | nil => rfl
  | cons ls rest ih =>
    cases rest with
    | nil => simp [Text.glueAll]
    | cons next rest =>
      obtain ⟨hcut, hcuts'⟩ := List.isChain_cons_cons.1 hcuts
      have hrest := hgroups.of_cons.2
      obtain ⟨init, a, d, r, lines, rfl, hd, hglued, hall⟩ := glueAll_cut hgroups
      have hr : SafeCut a r :=
        safeCut_glueAll hrest hcuts' hd (hcut a (by simp) d hd) r (by rw [hglued]; rfl)
      have hline : ((a ++ ' ' :: r) :: lines).filterMap tableLine =
          ([a] ++ (r :: lines)).filterMap tableLine := by
        rw [← List.singleton_append, List.filterMap_append, hr.filterMap_eq,
          ← List.filterMap_append]
        rfl
      rw [hall, List.flatten_cons, List.filterMap_append, List.filterMap_append,
        List.filterMap_append, hline, List.filterMap_append, ← ih hrest hcuts', hglued,
        List.append_assoc]

/-! ## Cuts that lose a line of the table -/

def tableSize (ls : List (List Char)) : Nat := (ls.filterMap tableLine).length

theorem tableSize_append (ls ms : List (List Char)) :
    tableSize (ls ++ ms) = tableSize ls + tableSize ms := by
  rw [tableSize, List.filterMap_append, List.length_append]
  rfl

theorem tableSize_singleton (l : List Char) :
    tableSize [l] = if (tableLine l).isSome then 1 else 0 := by
  rw [tableSize, List.filterMap_cons]
  cases tableLine l <;> rfl

/-- A line of the table that is glued to the end of another line is lost. -/
theorem tableSize_joined_le (ha : Text.trim a ≠ []) (hend : Text.trim a ≠ "#end".toList) :
    tableSize [a ++ ' ' :: b] ≤ tableSize [a] := by
  rw [tableSize_singleton, tableSize_singleton]
  split
  · next hsome =>
    have hhead : (Text.trim a).head? = some '#' := by
      by_contra h
      rw [tableLine_joined_of_head ha h] at hsome
      cases hsome
    have hline : tableLine a ≠ none := fun h => hend (tableLine_eq_none.1 h hhead)
    rw [if_pos (Option.isSome_iff_ne_none.2 hline)]
  · exact Nat.zero_le _

theorem tableSize_joined_le_add (hend : Text.trim a ≠ "#end".toList) :
    tableSize [a ++ ' ' :: b] ≤ tableSize [a] + tableSize [b] := by
  by_cases ha : Text.trim a = []
  · rw [tableSize_singleton, tableLine_joined_of_left ha, ← tableSize_singleton]
    exact Nat.le_add_left _ _
  · exact Nat.le_add_right_of_le (tableSize_joined_le ha hend)

theorem tableLine_joined_isSome (h : (tableLine a).isSome) :
    (tableLine (a ++ ' ' :: b)).isSome := by
  have ha : Text.trim a ≠ [] := by
    intro hblank
    rw [tableLine_of_blank hblank] at h
    cases h
  by_cases hb : Text.trim b = []
  · rwa [tableLine_joined_of_right hb]
  · rw [Option.isSome_iff_ne_none, Ne, tableLine_eq_none] at h ⊢
    rw [Text.head?_trim_joined ha]
    refine fun hend => h fun hhead => ?_
    have hspace := Text.space_mem_trim_joined ha hb
    rw [hend hhead] at hspace
    exact absurd hspace (by decide)

/-- Between these two lines a text can be cut, and no line of the table is lost. -/
def KeepsLine (a b : List Char) : Prop := Text.trim a = [] ∨ tableLine b = none

/-- No group that another one follows ends with the line behind a table. -/
def NoEndAtCuts (groups : List (List (List Char))) : Prop :=
  AtCuts (fun a _ => Text.trim a ≠ "#end".toList) groups

theorem tableSize_cut (init lines : List (List Char)) (l : List Char) :
    tableSize (init ++ l :: lines) = tableSize init + (tableSize [l] + tableSize lines) := by
  rw [tableSize_append, ← List.singleton_append, tableSize_append]

theorem tableSize_glueAll_le {groups : List (List (List Char))} (hgroups : AreGroups groups)
    (hend : NoEndAtCuts groups) : tableSize (Text.glueAll groups) ≤ tableSize groups.flatten := by
  induction groups with
  | nil => exact Nat.le_refl _
  | cons ls rest ih =>
    cases rest with
    | nil => simp [Text.glueAll]
    | cons next rest =>
      obtain ⟨hcut, hend'⟩ := List.isChain_cons_cons.1 hend
      have hle := ih hgroups.of_cons.2 hend'
      obtain ⟨init, a, d, r, lines, rfl, hd, hglued, hall⟩ := glueAll_cut hgroups
      have hjoined : tableSize [a ++ ' ' :: r] ≤ tableSize [a] + tableSize [r] :=
        tableSize_joined_le_add (hcut a (by simp) d hd)
      rw [hglued, ← List.nil_append (r :: lines), tableSize_cut] at hle
      rw [hall, tableSize_cut, List.flatten_cons, tableSize_append, tableSize_append]
      omega

theorem tableLine_glueAll {d r : List Char} {lines : List (List Char)} (h : AreGroups (ls :: rest))
    (hd : ls.head? = some d) (hline : (tableLine d).isSome)
    (hglued : Text.glueAll (ls :: rest) = r :: lines) : (tableLine r).isSome := by
  obtain ⟨b, hb, hhead | ⟨-, c, -, hhead⟩⟩ := head?_glueAll h.of_cons.1 rest
  all_goals
    cases hd.symm.trans hb
    rw [hglued] at hhead
    cases hhead
  · exact hline
  · exact tableLine_joined_isSome hline

/-- A cut in front of a line of the table, behind a line that is not blank, loses a line. -/
theorem tableSize_glueAll_lt {groups : List (List (List Char))} (hgroups : AreGroups groups)
    (hend : NoEndAtCuts groups)
    (hcuts : ¬ AtCuts KeepsLine groups) :
    tableSize (Text.glueAll groups) < tableSize groups.flatten := by
  induction groups with
  | nil => exact absurd List.IsChain.nil hcuts
  | cons ls rest ih =>
    cases rest with
    | nil => exact absurd (List.IsChain.singleton ls) hcuts
    | cons next rest =>
      obtain ⟨hcut, hend'⟩ := List.isChain_cons_cons.1 hend
      have hrest := hgroups.of_cons.2
      have hle := tableSize_glueAll_le hrest hend'
      obtain ⟨init, a, d, r, lines, rfl, hd, hglued, hall⟩ := glueAll_cut hgroups
      have ha := hcut a (by simp) d hd
      rw [hall, tableSize_cut, List.flatten_cons, tableSize_append, tableSize_append]
      rw [AtCuts, List.isChain_cons_cons, not_and_or] at hcuts
      rcases hcuts with hhere | hlater
      · have hcut' : Text.trim a ≠ [] ∧ tableLine d ≠ none := by
          rw [← not_or]
          refine fun hsafe => hhere fun a' ha' b hb => ?_
          rw [List.getLast?_concat] at ha'
          cases ha'
          cases hd.symm.trans hb
          exact hsafe
        have hjoined : tableSize [a ++ ' ' :: r] ≤ tableSize [a] :=
          tableSize_joined_le hcut'.1 ha
        have hr : tableSize [r] = 1 := by
          rw [tableSize_singleton, if_pos]
          exact tableLine_glueAll hrest hd (Option.isSome_iff_ne_none.2 hcut'.2) hglued
        rw [hglued, ← List.nil_append (r :: lines), tableSize_cut] at hle
        omega
      · have hlt := ih hrest hend' hlater
        have hjoined : tableSize [a ++ ' ' :: r] ≤ tableSize [a] + tableSize [r] :=
          tableSize_joined_le_add ha
        rw [hglued, ← List.nil_append (r :: lines), tableSize_cut] at hlt
        omega

/-! ## Cuts that change a line of the table -/

theorem eq_of_tableLine_eq_some {l x : List Char} (h : tableLine l = some x) :
    ∃ rest, Text.trim l = '#' :: rest ∧ x = Text.trim rest := by
  rw [tableLine] at h
  split at h
  · next hmarked =>
    obtain ⟨c, rest, hrest⟩ := List.exists_cons_of_ne_nil
      (fun hnil : Text.trim l = [] => by simp [hnil] at hmarked)
    rw [hrest] at h hmarked
    cases hmarked.1
    cases h
    exact ⟨rest, hrest, rfl⟩
  · cases h

theorem tableLine_joined_ne (h : (tableLine a).isSome) (hb : Text.trim b ≠ []) :
    tableLine (a ++ ' ' :: b) ≠ tableLine a := by
  obtain ⟨x, hx⟩ := Option.isSome_iff_exists.1 h
  obtain ⟨rest, ha, rfl⟩ := eq_of_tableLine_eq_some hx
  intro heq
  obtain ⟨rest', hjoined, hrest'⟩ := eq_of_tableLine_eq_some (heq.trans hx)
  have hne : Text.trim a ≠ [] := by
    rw [ha]
    exact List.cons_ne_nil _ _
  obtain ⟨behind, htrim, -, hbehind⟩ := Text.trim_joined hne hb
  rw [hjoined, ha, List.cons_append, List.cons.injEq] at htrim
  have hlt := Text.length_trim_lt hbehind rest
  rw [← htrim.2, ← hrest'] at hlt
  exact Nat.lt_irrefl _ hlt

/-- The line that is glued together behind a cut, from the first line of a group on. -/
theorem glueAll_first {d r : List Char} {lines : List (List Char)}
    (hgroups : AreGroups (ls :: rest)) (hend : NoEndAtCuts (ls :: rest)) (hd : ls.head? = some d)
    (hglued : Text.glueAll (ls :: rest) = r :: lines) :
    (Text.trim r = [] → Text.trim d = []) ∧ (tableLine d = none → tableLine r = none) := by
  obtain ⟨b, hb, hhead | ⟨rfl, c, hc, hhead⟩⟩ := head?_glueAll hgroups.of_cons.1 rest
  · cases hd.symm.trans hb
    rw [hglued] at hhead
    cases hhead
    exact ⟨id, id⟩
  · cases hd
    rw [hglued] at hhead
    cases hhead
    obtain ⟨l, hl, hblank⟩ := hgroups [d] List.mem_cons_self
    rw [List.mem_singleton.1 hl] at hblank
    have hhead : (Text.trim (d ++ ' ' :: c)).head? = (Text.trim d).head? :=
      Text.head?_trim_joined hblank
    refine ⟨fun hr => ?_, fun hnone => tableLine_joined_of_head hblank fun hmarked => ?_⟩
    · rw [hr] at hhead
      exact List.head?_eq_none_iff.1 hhead.symm
    · cases rest with
      | nil => cases hc
      | cons next rest =>
        obtain ⟨e, more, rfl⟩ := List.exists_cons_of_ne_nil hgroups.of_cons.2.of_cons.1
        have hnoEnd := (List.isChain_cons_cons.1 hend).1 d rfl e rfl
        exact hnoEnd (tableLine_eq_none.1 hnone hmarked)

/-- A cut that leaves the table as it is, and loses no line of it, is safe. -/
theorem safeCut_of_filterMap_eq {d r : List Char} {lines after : List (List Char)}
    (hend : Text.trim a ≠ "#end".toList) (hkeeps : KeepsLine a d)
    (hblank : Text.trim r = [] → Text.trim d = []) (hnone : tableLine d = none → tableLine r = none)
    (heq : ((a ++ ' ' :: r) :: lines).filterMap tableLine = (a :: after).filterMap tableLine) :
    SafeCut a d ∧ (r :: lines).filterMap tableLine = after.filterMap tableLine := by
  -- A table line is longer with something behind it, so the two tables differ in their heads
  -- unless the line behind the cut is blank.
  by_cases ha : Text.trim a = []
  · rw [List.filterMap_cons_none (tableLine_of_blank ha), List.filterMap_cons,
      tableLine_joined_of_left ha, ← List.filterMap_cons] at heq
    exact ⟨.inl ha, heq⟩
  · have hd := hkeeps.resolve_left ha
    rw [List.filterMap_cons_none (hnone hd)]
    cases hline : tableLine a with
    | none =>
      have hhead : (Text.trim a).head? ≠ some '#' := fun h => hend (tableLine_eq_none.1 hline h)
      rw [List.filterMap_cons_none hline,
        List.filterMap_cons_none (tableLine_joined_of_head ha hhead)] at heq
      exact ⟨.inr (.inr ⟨hhead, hd⟩), heq⟩
    | some x =>
      have hsome : (tableLine a).isSome := by rw [hline]; rfl
      obtain ⟨y, hy⟩ := Option.isSome_iff_exists.1 (tableLine_joined_isSome hsome (b := r))
      rw [List.filterMap_cons_some hline, List.filterMap_cons_some hy, List.cons.injEq] at heq
      obtain ⟨rfl, heq⟩ := heq
      refine ⟨.inr (.inl (hblank ?_)), heq⟩
      by_contra hr
      exact tableLine_joined_ne hsome hr (hy.trans hline.symm)

/-- If no line of the table is lost, only safe cuts leave the table as it is. -/
theorem atCuts_safeCut_of_filterMap_eq {groups : List (List (List Char))}
    (hgroups : AreGroups groups) (hend : NoEndAtCuts groups) (hkeeps : AtCuts KeepsLine groups)
    (heq : (Text.glueAll groups).filterMap tableLine = groups.flatten.filterMap tableLine) :
    AtCuts SafeCut groups := by
  induction groups with
  | nil => exact List.IsChain.nil
  | cons ls rest ih =>
    cases rest with
    | nil => exact List.IsChain.singleton ls
    | cons next rest =>
      obtain ⟨hcut, hend'⟩ := List.isChain_cons_cons.1 hend
      obtain ⟨hkeep, hkeeps'⟩ := List.isChain_cons_cons.1 hkeeps
      have hrest := hgroups.of_cons.2
      obtain ⟨init, a, d, r, lines, rfl, hd, hglued, hall⟩ := glueAll_cut hgroups
      have hlast : (init ++ [a]).getLast? = some a := List.getLast?_concat
      obtain ⟨hblank, hnone⟩ := glueAll_first hrest hend' hd hglued
      rw [hall, List.flatten_cons, List.filterMap_append, List.append_assoc,
        List.filterMap_append, List.append_cancel_left_eq, List.singleton_append] at heq
      obtain ⟨hsafe, heq⟩ := safeCut_of_filterMap_eq (hcut a hlast d hd) (hkeep a hlast d hd)
        hblank hnone heq
      rw [hglued] at ih
      refine List.isChain_cons_cons.2 ⟨fun a' ha' b hb => ?_, ih hrest hend' hkeeps' heq⟩
      cases hlast.symm.trans ha'
      cases hd.symm.trans hb
      exact hsafe

/-- Unless a cut follows the line behind a table, a table stays as it is exactly when every cut is
safe. -/
theorem filterMap_glueAll_eq_iff {groups : List (List (List Char))} (hgroups : AreGroups groups)
    (hend : NoEndAtCuts groups) :
    (Text.glueAll groups).filterMap tableLine = groups.flatten.filterMap tableLine ↔
      AtCuts SafeCut groups := by
  refine ⟨fun heq => ?_, filterMap_glueAll hgroups⟩
  refine atCuts_safeCut_of_filterMap_eq hgroups hend ?_ heq
  by_contra hcuts
  have hlt := tableSize_glueAll_lt hgroups hend hcuts
  rw [tableSize, tableSize, heq] at hlt
  exact Nat.lt_irrefl _ hlt

end Groups

/-- The rows of a table, given by its lines, if the reader survives them. -/
def readTable (table : List (List Char)) : Option (List StatusRow) :=
  match table with
  | [] => some []
  | header :: lines => lines.mapM (readRow (columns header))

/-- The entries of a table, given by its lines. -/
def entriesOf (table : List (List Char)) : Option (List StatusEntry) :=
  (readTable table).map (·.filterMap StatusRow.entry?)

theorem length_of_mapM_eq_some {α β : Type} {f : α → Option β} {xs : List α} {ys : List β}
    (h : xs.mapM f = some ys) : ys.length = xs.length := by
  induction xs generalizing ys with
  | nil =>
    cases h
    rfl
  | cons x xs ih =>
    rw [List.mapM_cons] at h
    obtain ⟨y, -, h⟩ := Option.bind_eq_some_iff.1 h
    obtain ⟨zs, hzs, h⟩ := Option.bind_eq_some_iff.1 h
    cases h
    rw [List.length_cons, List.length_cons, ih hzs]

theorem length_entriesOf_le {table : List (List Char)} {entries : List StatusEntry}
    (h : entriesOf table = some entries) : entries.length ≤ table.length - 1 := by
  obtain ⟨rows, hrows, rfl⟩ := Option.map_eq_some_iff.1 h
  refine Nat.le_trans (List.length_filterMap_le _ rows) ?_
  cases table with
  | nil =>
    cases hrows
    exact Nat.le_refl _
  | cons header lines =>
    rw [length_of_mapM_eq_some hrows]
    exact Nat.le_refl _

theorem parse_eq (output : String) : parse output = entriesOf (tableLines output.toList) := rfl

end StatusTable

end GameQuery
