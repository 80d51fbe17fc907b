import GameQuery.Proofs.PrintedTable
import GameQuery.Proofs.TextOffsets

namespace GameQuery.StatusTable

open Text

/-!
# Tables that cannot be read

The reader cuts lines at offsets of digits and quotes, and it puts cells in and takes one out by
their places. `parseByIndex` does so with every offset and every place checked, and it agrees with
`parse`: the only place that may be missing is that of the cell that is taken out of a row. This
happens if the header names no column and a row has nothing but a name.
-/

/-! ## Reading by offsets and places -/

def stripSlotByIndex (line : List Char) : Option (List Char) := do
  let digits := digitBytes line
  let (_, rest) ← cutAt? line digits
  if 0 < digits ∧ rest.head? = some ' ' then some (rest.dropWhile (· = ' ')) else some line

/-- Cuts a line at its outer quotes, if it has two quotes. -/
def splitQuotesByIndex (line : List Char) :
    Option (Option (List Char × List Char × List Char)) :=
  match firstOffset? '"' line, lastOffset? '"' line with
  | some first, some last =>
    if first = last then some none
    else do
      let (before, _) ← cutAt? line first
      let name ← slice? line (first + 1) last
      let (_, after) ← cutAt? line (last + 1)
      some (some (before, name, after))
  | _, _ => some none

section Places

variable {α : Type}

def insertAt? (n : Nat) (x : α) (xs : List α) : Option (List α) :=
  if n ≤ xs.length then some (xs.insertIdx n x) else none

def removeAt? (n : Nat) (xs : List α) : Option (List α) :=
  if n < xs.length then some (xs.eraseIdx n) else none

end Places

def fitByIndex (columns : List Column) (values : List (Option (List Char))) :
    Option (List (Option (List Char))) :=
  if values.length < columns.length ∧ Column.state ∈ columns then do
    let place := min values.length 3
    let values ← insertAt? place none values
    let values ← insertAt? place none values
    insertAt? place none values
  else if columns.length < values.length then removeAt? 1 values
  else some values

def rowTextByIndex (columns : List Column) (line : List Char) : Option (List Char) :=
  if columns.head? = some .userId then some line else stripSlotByIndex line

def readRowByIndex (columns : List Column) (line : List Char) : Option StatusRow := do
  let stripped ← rowTextByIndex columns line
  match ← splitQuotesByIndex stripped with
  | none => some (.unreadable line)
  | some (before, name, after) =>
    let values ← fitByIndex columns
      ((words before).map some ++ some name :: (words after).map some)
    some (readCells columns line values)

def tableLinesByIndex (output : List Char) : Option (List (List Char)) :=
  let marked := ((Text.lines output).map trim).filter fun line =>
    line.head? = some '#' && line ≠ "#end".toList
  marked.mapM fun line => do
    let (_, rest) ← cutAt? line 1
    some (trim rest)

def parseByIndex (output : String) : Option (List StatusEntry) := do
  match ← tableLinesByIndex output.toList with
  | [] => some []
  | header :: lines =>
    let rows ← lines.mapM (readRowByIndex (columns header))
    some (rows.filterMap StatusRow.entry?)

/-! ## Offsets are in range -/

theorem digitBytes_pos_iff (line : List Char) :
    0 < digitBytes line ↔ line.head?.any Char.isDigit = true := by
  rw [digitBytes_eq]
  cases line with
  | nil => simp
  | cons c line =>
    by_cases hc : c.isDigit = true
    · simp [hc, utf8Size_of_isDigit hc, Nat.add_comm 1]
    · simp [hc]

theorem stripSlotByIndex_eq (line : List Char) :
    stripSlotByIndex line = some (stripSlot line) := by
  have hcut : cutAt? line (digitBytes line) =
      some (line.takeWhile Char.isDigit, line.dropWhile Char.isDigit) := by
    have happend := cutAt?_append (line.takeWhile Char.isDigit) (line.dropWhile Char.isDigit)
    rwa [List.takeWhile_append_dropWhile, ← digitBytes_eq] at happend
  simp only [stripSlotByIndex, stripSlot, hcut, Option.bind_eq_bind, Option.bind_some,
    digitBytes_pos_iff, Bool.and_eq_true, decide_eq_true_eq]
  exact (apply_ite some _ _ _).symm

theorem splitQuotesByIndex_eq (line : List Char) :
    splitQuotesByIndex line = some (splitQuotes line) := by
  rcases outer_cases '"' line with
    hnone | ⟨before, after, rfl, hbefore, hafter⟩ | ⟨before, name, after, rfl, hbefore, hafter⟩
  · have hcount : line.count '"' < 2 := by simp [List.count_eq_zero.2 hnone]
    rw [splitQuotes_eq_none hcount, splitQuotesByIndex, firstOffset?_of_notMem hnone]
  · have hcount : (before ++ '"' :: after).count '"' < 2 := by
      simp [List.count_eq_zero.2 hbefore, List.count_eq_zero.2 hafter]
    rw [splitQuotes_eq_none hcount, splitQuotesByIndex, firstOffset?_append hbefore,
      lastOffset?_append hafter]
    exact if_pos rfl
  · -- A quote takes one byte, so the text behind it starts one byte later.
    have hquote : '"'.utf8Size = 1 := by decide
    have hfirst := firstOffset?_append hbefore (name ++ '"' :: after)
    have hlast : lastOffset? '"' (before ++ '"' :: (name ++ '"' :: after)) =
        some (byteLength before + 1 + byteLength name) := by
      have happend := lastOffset?_append hafter (before ++ '"' :: name)
      simpa [hquote, Nat.add_assoc] using happend
    have hname : slice? (before ++ '"' :: (name ++ '"' :: after)) (byteLength before + 1)
        (byteLength before + 1 + byteLength name) = some name := by
      have happend := slice?_append (before ++ ['"']) name ('"' :: after)
      simpa [hquote] using happend
    have hbehind : cutAt? (before ++ '"' :: (name ++ '"' :: after))
        (byteLength before + 1 + byteLength name + 1) =
          some (before ++ '"' :: (name ++ ['"']), after) := by
      have happend := cutAt?_append (before ++ '"' :: (name ++ ['"'])) after
      simpa [hquote, Nat.add_assoc] using happend
    have hne : byteLength before ≠ byteLength before + 1 + byteLength name := by omega
    rw [splitQuotes_quoted hbefore hafter, splitQuotesByIndex, hfirst, hlast]
    simp only [if_neg hne, cutAt?_append, hname, hbehind, Option.bind_eq_bind, Option.bind_some]

/-! ## Places are in range -/

theorem insertAt?_append {α : Type} (xs : List α) (x : α) (ys : List α) :
    insertAt? xs.length x (xs ++ ys) = some (xs ++ x :: ys) := by
  have hinsert : (xs ++ ys).insertIdx xs.length x = xs ++ x :: ys := by
    induction xs with
    | nil => exact List.insertIdx_zero
    | cons a xs ih => exact congrArg (a :: ·) ih
  rw [insertAt?, if_pos (by simp), hinsert]

theorem fitByIndex_eq (columns : List Column) (values : List (Option (List Char))) :
    (fit columns values = .crash ∧ fitByIndex columns values = none) ∨
      ∃ cells, fit columns values = .cells cells ∧ fitByIndex columns values = some cells := by
  rw [fit, fitByIndex]
  split
  · right
    have hplace : (values.take (min values.length 3)).length = min values.length 3 := by
      rw [List.length_take]
      omega
    have hinsert : ∀ ys, insertAt? (min values.length 3) none
        (values.take (min values.length 3) ++ ys) =
          some (values.take (min values.length 3) ++ none :: ys) := by
      intro ys
      have happend := insertAt?_append (values.take (min values.length 3)) none ys
      rwa [hplace] at happend
    have hfirst := hinsert (values.drop (min values.length 3))
    rw [List.take_append_drop] at hfirst
    refine ⟨_, rfl, ?_⟩
    simp only [hfirst, hinsert, Option.bind_eq_bind, Option.bind_some, List.append_assoc,
      List.cons_append, List.nil_append]
  split
  · next hmore =>
    by_cases hone : values.length = 1
    · left
      rw [if_pos hone, removeAt?, if_neg (by omega)]
      exact ⟨rfl, rfl⟩
    · right
      rw [if_neg hone, removeAt?, if_pos (by omega)]
      exact ⟨_, rfl, rfl⟩
  · right
    exact ⟨values, rfl, rfl⟩

theorem readRowByIndex_eq (columns : List Column) (line : List Char) :
    readRowByIndex columns line = readRow columns line := by
  have hstripped : rowTextByIndex columns line =
      some (if columns.head? = some .userId then line else stripSlot line) := by
    rw [rowTextByIndex, stripSlotByIndex_eq]
    exact (apply_ite some _ _ _).symm
  rw [readRowByIndex, hstripped, readRow, splitRow]
  simp only [Option.bind_eq_bind, Option.bind_some, splitQuotesByIndex_eq]
  cases splitQuotes (if columns.head? = some .userId then line else stripSlot line) with
  | none => rfl
  | some parts =>
    obtain ⟨before, name, after⟩ := parts
    rcases fitByIndex_eq columns ((words before).map some ++ some name :: (words after).map some)
      with ⟨hfit, hindex⟩ | ⟨cells, hfit, hindex⟩
    · simp only [hfit, hindex, Option.bind_none]
    · simp only [hfit, hindex, Option.bind_some]

theorem mapM_of_forall {α β : Type} {f : α → Option β} {g : α → β} {xs : List α}
    (h : ∀ x ∈ xs, f x = some (g x)) : xs.mapM f = some (xs.map g) := by
  induction xs with
  | nil => rfl
  | cons x xs ih =>
    obtain ⟨hx, hxs⟩ := List.forall_mem_cons.1 h
    rw [List.mapM_cons, hx, ih hxs]
    rfl

/-- A line of the table starts with a number sign, which takes one byte. -/
theorem tableLinesByIndex_eq (output : List Char) :
    tableLinesByIndex output = some (tableLines output) := by
  apply mapM_of_forall
  intro line hline
  have hmarked := (List.mem_filter.1 hline).2
  rw [Bool.and_eq_true, decide_eq_true_eq] at hmarked
  obtain ⟨rest, rfl⟩ := List.head?_eq_some_iff.1 hmarked.1
  have hcut : cutAt? ('#' :: rest) 1 = some (['#'], rest) := cutAt?_append ['#'] rest
  rw [hcut]
  rfl

theorem parseByIndex_eq (output : String) : parseByIndex output = parse output := by
  rw [parseByIndex, tableLinesByIndex_eq, parse, rows]
  simp only [Option.bind_eq_bind, Option.bind_some]
  cases tableLines output.toList with
  | nil => rfl
  | cons header lines =>
    have hrow : readRowByIndex (columns header) = readRow (columns header) :=
      funext (readRowByIndex_eq (columns header))
    simp only [hrow]
    cases lines.mapM (readRow (columns header)) <;> rfl

/-! ## Rows that crash -/

theorem fit_eq_crash {columns : List Column} {values : List (Option (List Char))} :
    fit columns values = .crash ↔ columns = [] ∧ values.length = 1 := by
  rw [fit, ← List.length_eq_zero_iff]
  split
  · next hless => simp only [reduceCtorEq, false_iff]; omega
  split
  · next hmore =>
    split
    · next hone => simp only [true_iff]; omega
    · next hone => simp only [reduceCtorEq, false_iff]; omega
  · next hmore => simp only [reduceCtorEq, false_iff]; omega

theorem words_cons_ne_nil {c : Char} (hc : isBlank c = false) (cs : List Char) :
    words (c :: cs) ≠ [] := by
  obtain ⟨piece, pieces, hcs⟩ := List.exists_cons_of_ne_nil (splitAtEach_ne_nil isBlank cs)
  simp [words, splitAtEach, hc, hcs]

theorem words_eq_nil {cs : List Char} : words cs = [] ↔ AllBlank cs := by
  induction cs with
  | nil => exact iff_of_true rfl (List.forall_mem_nil _)
  | cons c cs ih =>
    rw [AllBlank, List.forall_mem_cons]
    by_cases hc : isBlank c = true
    · have hdrop : words (c :: cs) = words cs := words_append_cons hc [] cs
      rw [hdrop, ih]
      exact (and_iff_right hc).symm
    · have hne := words_cons_ne_nil (Bool.eq_false_iff.2 hc) cs
      exact iff_of_false hne fun h => hc h.1

/-- A row that crashes has a name and no words. -/
theorem quoted_of_crash {columns : List Column} {line : List Char}
    (h : splitRow columns line = .crash) :
    columns = [] ∧ ∃ before name after, line = before ++ '"' :: (name ++ '"' :: after) ∧
      AllBlank (stripSlot before) ∧ AllBlank after := by
  rcases count_lt_or_outer '"' line with hcount | ⟨before, name, after, rfl, hbefore, hafter⟩
  · rw [splitRow_of_count_lt columns hcount] at h
    cases h
  · rw [splitRow_of_quotes hbefore hafter, fit_eq_crash] at h
    obtain ⟨rfl, hone⟩ := h
    have hwords : (wordsBefore [] before).length = 0 ∧ (words after).length = 0 := by
      simp only [List.length_append, List.length_cons, List.length_map] at hone
      omega
    rw [List.length_eq_zero_iff, List.length_eq_zero_iff, words_eq_nil] at hwords
    exact ⟨rfl, before, name, after, rfl, words_eq_nil.1 hwords.1, hwords.2⟩

theorem readRow_eq_none {columns : List Column} {line : List Char} :
    readRow columns line = none ↔ splitRow columns line = .crash := by
  rw [readRow]
  split
  · next hcells => simp [hcells]
  · next hquotes => simp [hquotes]
  · next hcrash => simp [hcrash]

theorem mapM_eq_none {α β : Type} {f : α → Option β} {xs : List α} :
    xs.mapM f = none ↔ ∃ x ∈ xs, f x = none := by
  induction xs with
  | nil => simp
  | cons x xs ih =>
    rw [List.mapM_cons, List.exists_mem_cons_iff, ← ih]
    cases f x with
    | none => simp
    | some y => cases xs.mapM f <;> simp

theorem readTable_eq_none {table : List (List Char)} :
    readTable table = none ↔ ∃ header lines, table = header :: lines ∧
      ∃ line ∈ lines, readRow (columns header) line = none := by
  cases table with
  | nil => simp [readTable]
  | cons header lines => simp [readTable, mapM_eq_none]

/-! ## Lines of a table that cannot be read -/

/-- A header that names no column. -/
inductive IsBareHeader : List Char → Prop
  | mk {lead trail : List Char} (hlead : AllBlank lead) (htrail : AllBlank trail) :
    IsBareHeader (lead ++ '#' :: trail)

/-- A row with a name and nothing else but a slot number. -/
inductive IsLoneName : List Char → Prop
  | mk {lead spaces slot gap trail : List Char} (hlead : AllBlank lead) (hspaces : AllBlank spaces)
    (hslot : slot = [] ∨ IsSlot True slot) (hgap : AllBlank gap) (name : List Char)
    (htrail : AllBlank trail) :
    IsLoneName (lead ++ '#' :: (spaces ++ slot ++ gap ++ '"' :: (name ++ '"' :: trail)))

theorem allBlank_append {cs ds : List Char} (hcs : AllBlank cs) (hds : AllBlank ds) :
    AllBlank (cs ++ ds) := List.forall_mem_append.2 ⟨hcs, hds⟩

theorem exists_blanks_trim (cs : List Char) :
    ∃ lead trail, AllBlank lead ∧ AllBlank trail ∧ cs = lead ++ (trim cs ++ trail) := by
  obtain ⟨trail, htrail, hstart⟩ := trimEnd_append_blanks (trimStart cs)
  refine ⟨cs.takeWhile isBlank, trail, fun c hc => List.mem_takeWhile_imp hc, htrail, ?_⟩
  rw [trim, ← hstart]
  exact List.takeWhile_append_dropWhile.symm

/-- A line of the table is its text behind a number sign, with blanks around both. -/
theorem eq_marked_of_tableLine {line text : List Char} (h : tableLine line = some text) :
    ∃ lead spaces trail, AllBlank lead ∧ AllBlank spaces ∧ AllBlank trail ∧
      line = lead ++ '#' :: (spaces ++ (text ++ trail)) := by
  obtain ⟨rest, htrim, rfl⟩ := eq_of_tableLine_eq_some h
  obtain ⟨lead, outer, hlead, houter, hline⟩ := exists_blanks_trim line
  obtain ⟨spaces, inner, hspaces, hinner, hrest⟩ := exists_blanks_trim rest
  refine ⟨lead, spaces, inner ++ outer, hlead, hspaces, allBlank_append hinner houter, ?_⟩
  rw [hline, htrim]
  conv_lhs => rw [hrest]
  simp

theorem isBareHeader_iff {line : List Char} :
    IsBareHeader line ↔ ∃ header, tableLine line = some header ∧ columns header = [] := by
  constructor
  · rintro ⟨hlead, htrail⟩
    rename_i lead trail
    have hend : trimEnd trail ≠ "end".toList := by
      rw [trimEnd, dropEndWhile_eq_nil.2 htrail]
      decide
    refine ⟨trim trail, tableLine_marked hlead hend, ?_⟩
    rw [columns, words_trim, words_eq_nil.2 htrail, List.map_nil]
  · rintro ⟨header, hline, hcolumns⟩
    obtain ⟨lead, spaces, trail, hlead, hspaces, htrail, rfl⟩ := eq_marked_of_tableLine hline
    have hheader : AllBlank header := words_eq_nil.1 (List.map_eq_nil_iff.1 hcolumns)
    exact ⟨hlead, allBlank_append hspaces (allBlank_append hheader htrail)⟩

/-- What is dropped in front of a row is a slot number, if anything, and spaces. -/
theorem exists_slot (text : List Char) :
    ∃ slot gap, (slot = [] ∨ IsSlot True slot) ∧ AllBlank gap ∧
      text = slot ++ gap ++ stripSlot text := by
  rw [stripSlot]
  split
  · next hslot =>
    rw [Bool.and_eq_true, decide_eq_true_eq] at hslot
    obtain ⟨hdigit, hspace⟩ := hslot
    obtain ⟨more, hrest⟩ := List.head?_eq_some_iff.1 hspace
    have hne : text.takeWhile Char.isDigit ≠ [] := by
      cases text with
      | nil => simp at hdigit
      | cons c text =>
        rw [List.takeWhile_cons_of_pos (by simpa using hdigit)]
        exact List.cons_ne_nil _ _
    refine ⟨text.takeWhile Char.isDigit ++ [' '], more.takeWhile (· = ' '), .inr (.inr ⟨trivial,
      _, hne, fun c hc => List.mem_takeWhile_imp hc, rfl⟩), fun c hc => ?_, ?_⟩
    · have hspace : c = ' ' := by simpa using List.mem_takeWhile_imp hc
      rw [hspace]
      decide
    · have hdrop : (' ' :: more).dropWhile (· = ' ') = more.dropWhile (· = ' ') := rfl
      rw [hrest, hdrop, List.append_assoc, List.takeWhile_append_dropWhile, List.append_assoc,
        List.singleton_append, ← hrest, List.takeWhile_append_dropWhile]
  · exact ⟨[], [], .inl rfl, List.forall_mem_nil _, rfl⟩

theorem splitRow_lone {spaces slot gap trail : List Char} (hspaces : AllBlank spaces)
    (hslot : slot = [] ∨ IsSlot True slot) (hgap : AllBlank gap) (name : List Char)
    (htrail : AllBlank trail) :
    splitRow [] (trim (spaces ++ slot ++ gap ++ '"' :: (name ++ '"' :: trail))) = .crash := by
  rw [List.append_assoc spaces, List.append_assoc spaces, List.append_assoc slot]
  rcases hslot with rfl | hslot
  · -- Without a slot number the row starts with the quote.
    have hquote : isBlank '"' = false := by decide
    rw [trim_append_left hspaces, List.nil_append, trim_append_cons_append hquote hquote,
      trimStart_eq_nil.2 hgap, trimEnd, dropEndWhile_eq_nil.2 htrail,
      splitRow_of_quotes List.not_mem_nil List.not_mem_nil]
    rfl
  · have hslots : (([] : List Column).head? ≠ some .userId) = True := by simp
    rw [splitRow_quoted hspaces (hslots ▸ hslot) (quote_notMem_of_blank hgap)
      (quote_notMem_of_blank htrail), words_eq_nil.2 hgap, words_eq_nil.2 htrail]
    rfl

theorem isLoneName_iff {line : List Char} :
    IsLoneName line ↔ ∃ text, tableLine line = some text ∧ splitRow [] text = .crash := by
  constructor
  · rintro ⟨hlead, hspaces, hslot, hgap, name, htrail⟩
    exact ⟨_, tableLine_quoted hlead (by simp), splitRow_lone hspaces hslot hgap name htrail⟩
  · rintro ⟨text, hline, hcrash⟩
    obtain ⟨lead, spaces, trail, hlead, hspaces, htrail, rfl⟩ := eq_marked_of_tableLine hline
    obtain ⟨-, before, name, after, rfl, hbefore, hafter⟩ := quoted_of_crash hcrash
    obtain ⟨slot, gap, hslot, hgap, hfront⟩ := exists_slot before
    have hlone := IsLoneName.mk hlead hspaces hslot (allBlank_append hgap hbefore) name
      (allBlank_append hafter htrail)
    rw [hfront]
    simpa using hlone

/-! ## Texts with such a table -/

/-- The table has a header that names no column, and one of its rows is nothing but a name. -/
def IsFatal (ls : List (List Char)) : Prop :=
  ∃ front header behind, ls = front ++ header :: behind ∧ (∀ l ∈ front, IsForeign l) ∧
    IsBareHeader header ∧ ∃ line ∈ behind, IsLoneName line

theorem isFatal_iff {ls : List (List Char)} :
    IsFatal ls ↔ readTable (ls.filterMap tableLine) = none := by
  rw [readTable_eq_none]
  constructor
  · rintro ⟨front, header, behind, rfl, hfront, hheader, line, hline, hlone⟩
    obtain ⟨text, htext, hcolumns⟩ := isBareHeader_iff.1 hheader
    obtain ⟨row, hrow, hcrash⟩ := isLoneName_iff.1 hlone
    refine ⟨text, behind.filterMap tableLine, ?_, row, List.mem_filterMap.2 ⟨line, hline, hrow⟩, ?_⟩
    · apply List.filterMap_eq_cons_iff.2
      exact ⟨front, header, behind, rfl, fun l hl => isForeign_iff.1 (hfront l hl), htext, rfl⟩
    · rw [readRow_eq_none, hcolumns]
      exact hcrash
  · rintro ⟨text, lines, htable, row, hrow, hnone⟩
    obtain ⟨front, header, behind, rfl, hfront, htext, rfl⟩ := List.filterMap_eq_cons_iff.1 htable
    obtain ⟨line, hline, hlineRow⟩ := List.mem_filterMap.1 hrow
    have hcrash := readRow_eq_none.1 hnone
    have hcolumns := (quoted_of_crash hcrash).1
    rw [hcolumns] at hcrash
    exact ⟨front, header, behind, rfl, fun l hl => isForeign_iff.2 (hfront l hl),
      isBareHeader_iff.2 ⟨text, htext, hcolumns⟩, line, hline,
      isLoneName_iff.2 ⟨row, hlineRow, hcrash⟩⟩

/-- The reader fails exactly on the texts with such a table, and it does the same if every offset and
every place is checked. -/
theorem parse_eq_none_iff (output : String) :
    parseByIndex output = parse output ∧
      (parse output = none ↔ IsFatal (Text.lines output.toList)) ∧
      (¬ IsFatal (Text.lines output.toList) → ∃ entries, parse output = some entries) := by
  have htable : tableLines output.toList = (Text.lines output.toList).filterMap tableLine :=
    filterMap_tableLine _
  have hiff : parse output = none ↔ IsFatal (Text.lines output.toList) := by
    rw [isFatal_iff, parse_eq, htable, entriesOf, Option.map_eq_none_iff]
  refine ⟨parseByIndex_eq output, hiff, fun hfatal => ?_⟩
  exact Option.ne_none_iff_exists'.1 (mt hiff.1 hfatal)

/-! A slot number is dropped in front of the name only with a space behind it. -/

example : parse "#\n# 7 \"ann\" \n" = none := by decide +kernel

example : parse "#\n# 7\"ann\" \n" = some [] := by decide +kernel

end GameQuery.StatusTable
