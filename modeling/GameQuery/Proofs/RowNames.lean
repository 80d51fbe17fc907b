import GameQuery.Proofs.RowCrash

namespace GameQuery.StatusTable

open Text

/-!
# The names of entries

A row that does not have a cell for every column is fitted to the columns, whatever its cells are,
and then an entry takes its name from the column of the name. `movedTo` says where a cell of a row
ends up. The entry has the quoted name of its row exactly if this is the cell that ends up there.
-/

/-! ## Cells -/

/-- The texts of the cells that a row has itself. -/
def rowWords (columns : List Column) (before name after : List Char) : List (List Char) :=
  wordsBefore columns before ++ name :: words after

/-- The column that a cell ends up in, of a row of `count` cells. -/
def movedTo (columns : List Column) (count i : Nat) : Option Nat :=
  if count < columns.length ∧ Column.state ∈ columns then some (if i < 3 then i else i + 3)
  else if columns.length < count then
    if i = 0 then some 0 else if i = 1 then none else some (i - 1)
  else some i

/-- The quoted name of a row ends up in the column of the name. -/
def QuotedInPlace (columns : List Column) (before after : List Char) : Prop :=
  movedTo columns ((wordsBefore columns before).length + 1 + (words after).length)
    (wordsBefore columns before).length = some (columns.idxOf .name)

theorem length_rowWords (columns : List Column) (before name after : List Char) :
    (rowWords columns before name after).length =
      (wordsBefore columns before).length + 1 + (words after).length := by
  rw [rowWords, List.length_append, List.length_cons]
  omega

theorem getElem?_rowWords (columns : List Column) (before name after : List Char) :
    (rowWords columns before name after)[(wordsBefore columns before).length]? = some name := by
  rw [rowWords, List.getElem?_append_right (Nat.le_refl _), Nat.sub_self]
  rfl

theorem movedTo_inj {columns : List Column} {count i j k : Nat}
    (hi : movedTo columns count i = some k) (hj : movedTo columns count j = some k) : i = j := by
  grind [movedTo]

theorem getElem?_padded {α : Type} (xs : List (Option α)) {n : Nat} (hn : n ≤ xs.length)
    (k : Nat) :
    (xs.take n ++ [none, none, none] ++ xs.drop n)[k]? =
      if k < n then xs[k]? else if k < n + 3 then some none else xs[k - 3]? := by
  have htake : (xs.take n).length = n := List.length_take_of_le hn
  split
  · next hlow =>
    rw [List.append_assoc, List.getElem?_append_left (by omega), List.getElem?_take_of_lt hlow]
  split
  · next hlow hmiddle =>
    have hgap : k - n = 0 ∨ k - n = 1 ∨ k - n = 2 := by omega
    rw [List.append_assoc, List.getElem?_append_right (by omega), htake]
    rcases hgap with hgap | hgap | hgap
    all_goals
      rw [hgap]
      rfl
  · next hlow hhigh =>
    have hfront : (xs.take n ++ [none, none, none]).length = n + 3 := by
      rw [List.length_append, htake]
      rfl
    have hplace : n + (k - (n + 3)) = k - 3 := by omega
    rw [List.getElem?_append_right (by omega), hfront, List.getElem?_drop, hplace]

theorem getElem?_padded_eq_some {α : Type} {xs : List (Option α)} {k : Nat} {v : α} :
    (xs.take (min xs.length 3) ++ [none, none, none] ++ xs.drop (min xs.length 3))[k]? =
        some (some v) ↔
      ∃ i, xs[i]? = some (some v) ∧ (if i < 3 then i else i + 3) = k := by
  rw [getElem?_padded xs (Nat.min_le_left _ _)]
  have hlength : ∀ i : Nat, xs[i]? = some (some v) → i < xs.length := fun i hi =>
    (List.getElem?_eq_some_iff.1 hi).1
  constructor
  · intro hk
    split at hk
    · exact ⟨k, hk, if_pos (by omega)⟩
    split at hk
    · cases hk
    · have hlt := hlength _ hk
      refine ⟨k - 3, hk, ?_⟩
      rw [if_neg (by omega)]
      omega
  · rintro ⟨i, hi, hmoved⟩
    have hlt := hlength i hi
    split at hmoved
    · subst hmoved
      rw [if_pos (by omega)]
      exact hi
    · subst hmoved
      rw [if_neg (by omega), if_neg (by omega), Nat.add_sub_cancel]
      exact hi

theorem getElem?_erased_eq_some {α : Type} {xs : List α} {k : Nat} {x : α} :
    (xs.eraseIdx 1)[k]? = some x ↔
      ∃ i, xs[i]? = some x ∧
        (if i = 0 then some 0 else if i = 1 then none else some (i - 1)) = some k := by
  rw [List.getElem?_eraseIdx]
  constructor
  · intro hk
    split at hk
    · next hfirst =>
      have hzero : k = 0 := Nat.lt_one_iff.1 hfirst
      subst hzero
      exact ⟨0, hk, rfl⟩
    · refine ⟨k + 1, hk, ?_⟩
      rw [if_neg (by omega), if_neg (by omega), Nat.add_sub_cancel]
  · rintro ⟨i, hi, hmoved⟩
    split at hmoved
    · next hzero =>
      cases hmoved
      rw [if_pos Nat.zero_lt_one, ← hzero]
      exact hi
    split at hmoved
    · cases hmoved
    · cases hmoved
      have hplace : i - 1 + 1 = i := by omega
      rw [if_neg (by omega), hplace]
      exact hi

/-- A cell of a fitted row is one that the row has itself, or it is empty. -/
theorem getElem?_fit {columns : List Column} {ws : List (List Char)}
    {values : List (Option (List Char))} (h : fit columns (ws.map some) = .cells values)
    (k : Nat) (v : List Char) :
    values[k]? = some (some v) ↔ ∃ i, ws[i]? = some v ∧ movedTo columns ws.length i = some k := by
  have hcell : ∀ i : Nat, ws[i]? = some v ↔ (ws.map some)[i]? = some (some v) := by simp
  simp only [hcell, movedTo]
  rw [fit, List.length_map] at h
  split at h
  · next hless =>
    cases h
    simp only [if_pos hless, Option.some.injEq]
    have hlength : (ws.map some).length = ws.length := List.length_map _
    rw [← hlength]
    exact getElem?_padded_eq_some
  split at h
  · next hless hmore =>
    split at h
    · cases h
    cases h
    simp only [if_neg hless, if_pos hmore]
    exact getElem?_erased_eq_some
  · next hless hmore =>
    cases h
    simp [if_neg hless, if_neg hmore]

/-! ## The name -/

theorem fst_assign {column : Column} (h : column ≠ .name) (value : Option (List Char))
    (row : Option String × PlayerStatus) : (assign row (column, value)).1 = row.1 := by
  cases value with
  | none => rfl
  | some value => cases column <;> first | rfl | exact absurd rfl h

theorem fst_foldl_assign_of_notMem {columns : List Column} (h : .name ∉ columns)
    (values : List (Option (List Char))) (row : Option String × PlayerStatus) :
    ((columns.zip values).foldl assign row).1 = row.1 := by
  induction columns generalizing values row with
  | nil => rfl
  | cons column columns ih =>
    rw [List.mem_cons, not_or] at h
    cases values with
    | nil => rfl
    | cons value values =>
      rw [List.zip_cons_cons, List.foldl_cons, ih h.2, fst_assign (Ne.symm h.1)]

/-- The name is what the cell of its column says. -/
theorem fst_foldl_assign {columns : List Column} (h : columns.count .name = 1)
    (values : List (Option (List Char))) (row : Option String × PlayerStatus) :
    ((columns.zip values).foldl assign row).1 =
      values[columns.idxOf .name]?.join.elim row.1 fun v => some (String.ofList v) := by
  induction columns generalizing values row with
  | nil => cases h
  | cons column columns ih =>
    cases values with
    | nil => rfl
    | cons value values =>
      rw [List.zip_cons_cons, List.foldl_cons]
      by_cases hname : column = .name
      · subst hname
        rw [List.count_cons_self, Nat.add_eq_right, List.count_eq_zero] at h
        rw [fst_foldl_assign_of_notMem h, List.idxOf_cons_self]
        cases value <;> rfl
      · rw [List.count_cons_of_ne hname] at h
        rw [ih h, fst_assign hname, List.idxOf_cons_ne _ hname]
        rfl

/-! ## Rows -/

/-- What becomes of a row, in a table with one column for the name. -/
inductive RowRule (columns : List Column) : List Char → StatusRow → Prop
  | unquoted {line : List Char} (h : line.count '"' < 2) : RowRule columns line (.unreadable line)
  /-- The entry has the quoted name. -/
  | inPlace {before after : List Char} (name : List Char) (status : PlayerStatus)
    (hbefore : '"' ∉ before) (hafter : '"' ∉ after) (hplace : QuotedInPlace columns before after) :
    RowRule columns (before ++ '"' :: (name ++ '"' :: after)) (.entry ⟨String.ofList name, status⟩)
  /-- The entry is named by a word of another column. -/
  | misnamed {before name after word : List Char} {i : Nat} (status : PlayerStatus)
    (hbefore : '"' ∉ before) (hafter : '"' ∉ after) (hplace : ¬ QuotedInPlace columns before after)
    (hne : i ≠ (wordsBefore columns before).length)
    (hword : (rowWords columns before name after)[i]? = some word)
    (hmoved : movedTo columns (rowWords columns before name after).length i =
      some (columns.idxOf .name)) :
    RowRule columns (before ++ '"' :: (name ++ '"' :: after)) (.entry ⟨String.ofList word, status⟩)
  | nameless {before after : List Char} (name : List Char) (hbefore : '"' ∉ before)
    (hafter : '"' ∉ after)
    (h : ∀ i < (rowWords columns before name after).length,
      movedTo columns (rowWords columns before name after).length i ≠ some (columns.idxOf .name)) :
    RowRule columns (before ++ '"' :: (name ++ '"' :: after))
      (.nameless (before ++ '"' :: (name ++ '"' :: after)))

theorem readCells_cases {columns : List Column} (h : columns.count .name = 1) (line : List Char)
    (values : List (Option (List Char))) :
    (∃ v status, values[columns.idxOf .name]? = some (some v) ∧
      readCells columns line values = .entry ⟨String.ofList v, status⟩) ∨
    (∀ v, values[columns.idxOf .name]? ≠ some (some v)) ∧
      readCells columns line values = .nameless line := by
  have hname := fst_foldl_assign h values (none, {})
  rw [readCells]
  generalize (columns.zip values).foldl assign (none, {}) = row at hname ⊢
  obtain ⟨name, status⟩ := row
  cases hcell : values[columns.idxOf .name]?.join with
  | none =>
    rw [hcell] at hname
    cases hname
    right
    refine ⟨fun v hv => ?_, rfl⟩
    rw [hv] at hcell
    cases hcell
  | some v =>
    rw [hcell] at hname
    cases hname
    left
    exact ⟨v, dropConnection status, Option.join_eq_some_iff.1 hcell, rfl⟩

theorem readRow_rule {columns : List Column} (h : columns.count .name = 1) (line : List Char) :
    ∃ result, readRow columns line = some result ∧ RowRule columns line result := by
  rcases count_lt_or_outer '"' line with hcount | ⟨before, name, after, rfl, hbefore, hafter⟩
  · refine ⟨.unreadable line, ?_, .unquoted hcount⟩
    rw [readRow, splitRow_of_count_lt columns hcount]
  · have hlength := length_rowWords columns before name after
    have hsplit : splitRow columns (before ++ '"' :: (name ++ '"' :: after)) =
        fit columns ((rowWords columns before name after).map some) := by
      rw [splitRow_of_quotes hbefore hafter, rowWords, List.map_append, List.map_cons]
    rw [readRow, hsplit]
    rcases fitByIndex_eq columns ((rowWords columns before name after).map some) with
      ⟨hfit, -⟩ | ⟨values, hfit, -⟩
    · rw [(fit_eq_crash.1 hfit).1] at h
      cases h
    rw [hfit]
    refine ⟨_, rfl, ?_⟩
    rcases readCells_cases h (before ++ '"' :: (name ++ '"' :: after)) values with
      ⟨word, status, hcell, hread⟩ | ⟨hcell, hread⟩
    · rw [hread]
      obtain ⟨i, hword, hmoved⟩ := (getElem?_fit hfit _ _).1 hcell
      by_cases hplace : QuotedInPlace columns before after
      · have hi : i = (wordsBefore columns before).length := by
          rw [QuotedInPlace, ← hlength] at hplace
          exact movedTo_inj hmoved hplace
        rw [hi, getElem?_rowWords] at hword
        cases hword
        exact .inPlace name status hbefore hafter hplace
      · refine .misnamed status hbefore hafter hplace (fun hi => hplace ?_) hword hmoved
        rw [QuotedInPlace, ← hlength, ← hi]
        exact hmoved
    · rw [hread]
      apply RowRule.nameless name hbefore hafter
      intro i hi hmoved
      exact hcell _ ((getElem?_fit hfit _ _).2 ⟨i, List.getElem?_eq_getElem hi, hmoved⟩)

theorem exists_mapM_forall₂ {α β : Type} {f : α → Option β} {R : α → β → Prop} {xs : List α}
    (h : ∀ x ∈ xs, ∃ y, f x = some y ∧ R x y) : ∃ ys, xs.mapM f = some ys ∧ List.Forall₂ R xs ys := by
  induction xs with
  | nil => exact ⟨[], rfl, .nil⟩
  | cons x xs ih =>
    obtain ⟨⟨y, hy, hxy⟩, hxs⟩ := List.forall_mem_cons.1 h
    obtain ⟨ys, hys, hrest⟩ := ih hxs
    refine ⟨y :: ys, ?_, .cons hxy hrest⟩
    rw [List.mapM_cons, hy, hys]
    rfl

/-- An entry has the quoted name of its row exactly if this is the cell that ends up in the column
of the name. -/
theorem rows_follow_rule (output : String) {header : List Char} {lines : List (List Char)}
    (htable : tableLines output.toList = header :: lines)
    (hname : (columns header).count .name = 1) :
    ∃ results, rows output.toList = some results ∧
      parse output = some (results.filterMap StatusRow.entry?) ∧
      List.Forall₂ (RowRule (columns header)) lines results := by
  obtain ⟨results, hresults, hrule⟩ :=
    exists_mapM_forall₂ fun line (_ : line ∈ lines) => readRow_rule hname line
  have hrows : rows output.toList = some results := by
    rw [rows, htable]
    exact hresults
  refine ⟨results, hrows, ?_, hrule⟩
  rw [parse, hrows]
  rfl

/-! A row with a word too many, and the one cell that is dropped is the name. -/

def surplusOutput : String := "# userid name uniqueid\n# 1 \"ann\" STEAM_1 extra\n# 2 \"bob\" STEAM_2\n"

def surplusHeader : List Char := "userid name uniqueid".toList

def surplusRow : List Char := "1 \"ann\" STEAM_1 extra".toList

def fittingRow : List Char := "2 \"bob\" STEAM_2".toList

theorem rows_follow_rule_surplus :
    tableLines surplusOutput.toList = [surplusHeader, surplusRow, fittingRow] ∧
      (columns surplusHeader).count .name = 1 ∧
      ∃ results, rows surplusOutput.toList = some results ∧
        parse surplusOutput = some (results.filterMap StatusRow.entry?) ∧
        List.Forall₂ (RowRule (columns surplusHeader)) [surplusRow, fittingRow] results := by
  have htable : tableLines surplusOutput.toList = [surplusHeader, surplusRow, fittingRow] := by
    decide +kernel
  have hname : (columns surplusHeader).count .name = 1 := by decide +kernel
  exact ⟨htable, hname, rows_follow_rule surplusOutput htable hname⟩

/-- The first entry is not named by the quoted name of any row. -/
theorem surplus_row_loses_its_name :
    tableLines surplusOutput.toList = [surplusHeader, surplusRow, fittingRow] ∧
      (columns surplusHeader).count .name = 1 ∧
      (parse surplusOutput).map (·.map (·.name)) = some ["STEAM_1", "bob"] ∧
      splitQuotes surplusRow = some ("1 ".toList, "ann".toList, " STEAM_1 extra".toList) := by
  decide +kernel

end GameQuery.StatusTable
