import GameQuery.Proofs.TableRows
import Mathlib.Data.List.Nodup

namespace GameQuery

/-!
# Tables as servers print them

A header names the columns, and every row has a value for each of them, the name in quotes. Between
the rows there may be lines that do not belong to the table. `Printed` says which lines are such a
table, whatever blanks are in them; reading them gives back what is in the columns of every row.
-/

/-- The name that a column is known by: servers have two names for some. -/
def standardName : String → String
  | "connected" => "time"
  | "frag" => "score"
  | name => name

namespace Column

def title : Column → String
  | name => "name"
  | userId => "userid"
  | uniqueId => "uniqueid"
  | state => "state"
  | connected => "time"
  | ping => "ping"
  | loss => "loss"
  | rate => "rate"
  | address => "adr"
  | other => ""

theorem ofName_eq_iff {k : Column} (hk : k ≠ other) (s : String) :
    ofName s.toList = k ↔ standardName s = k.title := by
  unfold ofName standardName
  rw [String.ofList_toList]
  constructor
  · intro h
    split at h <;> subst h <;> first | rfl | exact absurd rfl hk
  · intro h
    split at h
    · cases k <;> revert h <;> decide
    · cases k <;> revert h <;> decide
    · subst h
      cases k <;> rfl

def Told : Column → Type
  | userId | ping | loss | rate => UInt32
  | name | uniqueId | state | connected | address | other => String

def read : (k : Column) → List Char → Option k.Told
  | userId, value | ping, value | loss, value | rate, value => Text.readUInt32 value
  | name, value | uniqueId, value | state, value | connected, value | address, value =>
    some (String.ofList value)
  | other, _ => none

/-- What is known from a column. -/
def told (row : Option String × PlayerStatus) : (k : Column) → Option k.Told
  | name => row.1
  | userId => row.2.userId
  | uniqueId => row.2.uniqueId
  | state => row.2.state
  | connected => row.2.connected
  | ping => row.2.ping
  | loss => row.2.loss
  | rate => row.2.rate
  | address => row.2.address
  | other => none

theorem ext_told {row row' : Option String × PlayerStatus}
    (h : ∀ k, k ≠ other → told row k = told row' k) : row = row' := by
  obtain ⟨n, status⟩ := row
  obtain ⟨n', status'⟩ := row'
  cases status
  cases status'
  cases h .name (by decide)
  cases h .userId (by decide)
  cases h .uniqueId (by decide)
  cases h .state (by decide)
  cases h .connected (by decide)
  cases h .ping (by decide)
  cases h .loss (by decide)
  cases h .rate (by decide)
  cases h .address (by decide)
  rfl

open StatusTable in
/-- A cell changes what is known from its own column only. -/
theorem told_assign (row : Option String × PlayerStatus) (c k : Column) (value : List Char) :
    told (assign row (c, some value)) k = if c = k then read k value else told row k := by
  cases c <;> cases k <;> rfl

end Column

namespace StatusTable

open Text Column

/-- A text without blanks and quotes. -/
def IsValue (s : String) : Prop := IsWord s.toList ∧ '"' ∉ s.toList

instance (s : String) : Decidable (IsValue s) := inferInstanceAs (Decidable (_ ∧ _))

/-- The columns of a table: those before the name and those behind it. -/
structure Layout where
  before : List String
  after : List String
  isWord : ∀ c ∈ before ++ after, IsWord c.toList
  nodup : ((before ++ "name" :: after).map standardName).Nodup

namespace Layout

variable (t : Layout)

def columns : List String := t.before ++ "name" :: t.after

/-- Rows start with a slot number, unless the first column has the number of the player. -/
def HasSlots : Prop := t.columns.head? ≠ some "userid"

instance : Decidable t.HasSlots := inferInstanceAs (Decidable (_ ≠ _))

end Layout

/-- A row: the name and a value for each of the other columns. -/
structure Row (t : Layout) where
  before : List String
  name : String
  after : List String
  length_before : before.length = t.before.length
  length_after : after.length = t.after.length
  isValue : ∀ v ∈ before ++ after, IsValue v

namespace Row

variable {t : Layout} (r : Row t)

def cells : List String := r.before ++ r.name :: r.after

/-- What is in the column of this name. -/
def cell (column : String) : Option String :=
  ((t.columns.map standardName).zip r.cells).lookup column

/-- What is in the column of this name, as a number. -/
def number (column : String) : Option UInt32 := (r.cell column).bind fun v => readUInt32 v.toList

def status : PlayerStatus where
  userId := r.number "userid"
  uniqueId := r.cell "uniqueid"
  state := r.cell "state"
  connected := r.cell "time"
  ping := r.number "ping"
  loss := r.number "loss"
  rate := r.number "rate"
  address := r.cell "adr"

/-- What a row tells about a player. A bot has no connection. -/
def entry : StatusEntry where
  name := r.name
  status :=
    if r.cell "uniqueid" = some "BOT" then
      { r.status with ping := none, loss := none, rate := none, address := none }
    else r.status

def texts : List (List Char) :=
  r.before.map String.toList ++ ('"' :: r.name.toList ++ ['"']) :: r.after.map String.toList

end Row

/-! ## Lines -/

def AllBlank (cs : List Char) : Prop := ∀ c ∈ cs, isBlank c = true

instance (cs : List Char) : Decidable (AllBlank cs) := List.decidableBAll _ cs

inductive IsHeaderLine (t : Layout) : List Char → Prop
  | mk {lead gap s trail : List Char} (hlead : AllBlank lead) (hgap : AllBlank gap)
    (hs : Spaced (t.columns.map String.toList) s) (htrail : AllBlank trail) :
    IsHeaderLine t (lead ++ '#' :: (gap ++ s ++ trail))

inductive IsRowLine {t : Layout} (r : Row t) : List Char → Prop
  | mk {lead spaces slot gap s trail : List Char} (hlead : AllBlank lead) (hspaces : AllBlank spaces)
    (hslot : IsSlot t.HasSlots slot) (hgap : AllBlank gap) (hs : Spaced r.texts s)
    (htrail : AllBlank trail) : IsRowLine r (lead ++ '#' :: (spaces ++ slot ++ gap ++ s ++ trail))

/-- A line that does not belong to a table. -/
def IsForeign (line : List Char) : Prop :=
  (trim line).head? ≠ some '#' ∨ trim line = "#end".toList

/-- The lines behind a header. -/
inductive PrintedRows {t : Layout} : List (Row t) → List (List Char) → Prop
  | nil : PrintedRows [] []
  | row {r : Row t} {rs line ls} (hline : IsRowLine r line) (h : PrintedRows rs ls) :
    PrintedRows (r :: rs) (line :: ls)
  | foreign {rs line ls} (hline : IsForeign line) (h : PrintedRows rs ls) :
    PrintedRows rs (line :: ls)
  | unquoted {rs line ls} (hline : line.count '"' < 2) (h : PrintedRows rs ls) :
    PrintedRows rs (line :: ls)

/-- The lines of a text with a table. -/
inductive Printed {t : Layout} (rs : List (Row t)) : List (List Char) → Prop
  | header {line ls} (hline : IsHeaderLine t line) (h : PrintedRows rs ls) : Printed rs (line :: ls)
  | foreign {line ls} (hline : IsForeign line) (h : Printed rs ls) : Printed rs (line :: ls)

theorem Layout.isHeaderLine (t : Layout) (gap : List Char) (hgap : AllBlank gap) :
    IsHeaderLine t ('#' :: (gap ++ join [' '] (t.columns.map String.toList))) := by
  have hspaced : Spaced (t.columns.map String.toList) (join [' '] (t.columns.map String.toList)) :=
    spaced_join (by simp [columns])
  have hline := IsHeaderLine.mk (List.forall_mem_nil _) hgap hspaced (List.forall_mem_nil _)
  rwa [List.nil_append, List.append_nil] at hline

theorem Row.isRowLine {t : Layout} (r : Row t) (spaces : List Char) {slot : List Char}
    (hspaces : AllBlank spaces) (hslot : IsSlot t.HasSlots slot) :
    IsRowLine r ('#' :: (spaces ++ slot ++ join [' '] r.texts)) := by
  have hspaced : Spaced r.texts (join [' '] r.texts) := spaced_join (by simp [texts])
  have hline := IsRowLine.mk (List.forall_mem_nil _) hspaces hslot (List.forall_mem_nil _) hspaced
    (List.forall_mem_nil _)
  rwa [List.nil_append, List.append_nil, List.append_nil] at hline

theorem isForeign_iff {line : List Char} : IsForeign line ↔ tableLine line = none := by
  rw [tableLine_eq_none, IsForeign, imp_iff_not_or]

/-! ## The header -/

theorem Layout.isWord_columns (t : Layout) : ∀ c ∈ t.columns.map String.toList, IsWord c := by
  intro c hc
  obtain ⟨s, hs, rfl⟩ := List.mem_map.1 hc
  rcases List.mem_append.1 hs with hs | hs
  · exact t.isWord s (List.mem_append_left _ hs)
  rcases List.mem_cons.1 hs with rfl | hs
  · have hname : IsWord "name".toList := by decide
    exact hname
  · exact t.isWord s (List.mem_append_right _ hs)

theorem IsHeaderLine.tableLine_eq {t : Layout} {line : List Char} (h : IsHeaderLine t line) :
    ∃ header, tableLine line = some header ∧
      words header = t.columns.map String.toList := by
  obtain ⟨hlead, hgap, hs, htrail⟩ := h
  rename_i lead gap s trail
  have hwords : words (gap ++ s ++ trail) = t.columns.map String.toList := by
    rw [words_append_right htrail, words_append_left hgap, hs.words_eq t.isWord_columns]
  refine ⟨_, tableLine_marked hlead fun hend => ?_, (words_trim _).trans hwords⟩
  rw [← words_trimEnd, hend] at hwords
  have hname : "name".toList ∈ t.columns.map String.toList :=
    List.mem_map_of_mem (List.mem_append_right _ List.mem_cons_self)
  rw [← hwords] at hname
  revert hname
  decide

/-! ## Cells -/

/-- A column tells what its cell says, if there is no other column of that kind. -/
theorem told_foldl_assign {k : Column} {cells : List (Column × List Char)}
    (hone : (cells.map (·.1)).count k ≤ 1) (row : Option String × PlayerStatus) :
    told ((cells.map fun c => (c.1, some c.2)).foldl assign row) k =
      (cells.lookup k).elim (told row k) k.read := by
  induction cells generalizing row with
  | nil => rfl
  | cons cell cells ih =>
    obtain ⟨c, v⟩ := cell
    rw [List.map_cons, List.count_cons] at hone
    rw [List.map_cons, List.foldl_cons, List.lookup_cons, ih (by omega), told_assign]
    by_cases hc : c = k
    · subst hc
      have hnone : cells.lookup c = none := by
        have hcount : (cells.map (·.1)).count c = 0 := by simpa using hone
        refine List.lookup_eq_none_iff.2 fun other hother => ?_
        have hmem := List.count_eq_zero.1 hcount
        exact bne_iff_ne.2 fun heq => hmem (heq ▸ List.mem_map_of_mem hother)
      rw [hnone, beq_self_eq_true, if_pos rfl]
      rfl
    · rw [beq_false_of_ne (Ne.symm hc), if_neg hc]

namespace Layout

variable (t : Layout)

def kinds : List Column := (t.columns.map String.toList).map Column.ofName

theorem length_kinds : t.kinds.length = t.columns.length := by
  rw [kinds, List.length_map, List.length_map]

theorem count_kinds_le {k : Column} (hk : k ≠ .other) : t.kinds.count k ≤ 1 := by
  have hcount : t.kinds.count k = (t.columns.map standardName).count k.title := by
    rw [kinds, List.map_map, List.count, List.count, List.countP_map, List.countP_map]
    refine List.countP_congr fun c _ => ?_
    simpa using Column.ofName_eq_iff hk c
  rw [hcount]
  exact List.nodup_iff_count_le_one.1 t.nodup _

theorem hasSlots_iff : t.HasSlots ↔ t.kinds.head? ≠ some .userId := by
  have hname : ∀ c : String, Column.ofName c.toList = .userId ↔ c = "userid" := by
    intro c
    rw [Column.ofName_eq_iff (by decide)]
    unfold standardName
    split
    · decide
    · decide
    · rfl
  rw [HasSlots, kinds, List.map_map, List.head?_map, Ne, Ne, not_iff_not]
  cases t.columns.head? with
  | none => simp
  | some c => simp [hname]

end Layout

namespace Row

variable {t : Layout} (r : Row t)

theorem length_cells : r.cells.length = t.columns.length := by
  simp [cells, Layout.columns, r.length_before, r.length_after]

theorem lookup_kinds {k : Column} (hk : k ≠ .other) :
    (t.kinds.zip (r.cells.map String.toList)).lookup k = (r.cell k.title).map String.toList := by
  rw [cell, Layout.kinds]
  generalize t.columns = names
  generalize r.cells = values
  induction names generalizing values with
  | nil => rfl
  | cons name names ih =>
    cases values with
    | nil => rfl
    | cons v values =>
      simp only [List.map_cons, List.zip_cons_cons, List.lookup_cons, ih]
      have hname := Column.ofName_eq_iff hk name
      by_cases h : standardName name = k.title
      · simp [h, hname.2 h]
      · simp [beq_false_of_ne (Ne.symm h), beq_false_of_ne (Ne.symm (mt hname.1 h))]

theorem cell_name : r.cell "name" = some r.name := by
  have hnodup := t.nodup
  rw [List.map_append, List.nodup_append] at hnodup
  have hbefore : ((t.before.map standardName).zip r.before).lookup "name" = none := by
    refine List.lookup_eq_none_iff.2 fun p hp => bne_iff_ne.2 fun heq => ?_
    exact hnodup.2.2 _ (List.of_mem_zip hp).1 "name" List.mem_cons_self heq.symm
  have hlength : (t.before.map standardName).length = r.before.length := by
    rw [List.length_map, r.length_before]
  rw [cell, cells, Layout.columns, List.map_append, List.zip_append hlength, List.lookup_append,
    hbefore]
  rfl

theorem told_foldl_cells {k : Column} (hk : k ≠ .other) :
    told ((t.kinds.zip (r.cells.map fun v => some v.toList)).foldl assign (none, {})) k =
      (r.cell k.title).elim (told (none, {}) k) fun v => k.read v.toList := by
  have hzip : t.kinds.zip (r.cells.map fun v => some v.toList) =
      (t.kinds.zip (r.cells.map String.toList)).map fun c => (c.1, some c.2) := by
    have hcomp : r.cells.map (fun v => some v.toList) = (r.cells.map String.toList).map some :=
      (List.map_map ..).symm
    rw [hcomp, List.zip_map_right]
    rfl
  have hfst : (t.kinds.zip (r.cells.map String.toList)).map (·.1) = t.kinds := by
    refine List.map_fst_zip ?_
    rw [List.length_map, r.length_cells, t.length_kinds]
  have hone : ((t.kinds.zip (r.cells.map String.toList)).map (·.1)).count k ≤ 1 := by
    rw [hfst]
    exact t.count_kinds_le hk
  rw [hzip, told_foldl_assign hone, r.lookup_kinds hk, Option.elim_map]
  rfl

theorem foldl_cells :
    (t.kinds.zip (r.cells.map fun v => some v.toList)).foldl assign (none, {}) =
      (some r.name, r.status) := by
  have htext : ∀ column, (r.cell column).elim none (fun v => some (String.ofList v.toList)) =
      r.cell column := by
    intro column
    cases r.cell column with
    | none => rfl
    | some v => exact congrArg some String.ofList_toList
  have hnumber : ∀ column, (r.cell column).elim none (fun v => readUInt32 v.toList) =
      r.number column := by
    intro column
    rw [number]
    cases r.cell column <;> rfl
  refine Column.ext_told fun k hk => (r.told_foldl_cells hk).trans ?_
  cases k
  case name => exact (htext "name").trans r.cell_name
  case userId => exact hnumber "userid"
  case uniqueId => exact htext "uniqueid"
  case state => exact htext "state"
  case connected => exact htext "time"
  case ping => exact hnumber "ping"
  case loss => exact hnumber "loss"
  case rate => exact hnumber "rate"
  case address => exact htext "adr"
  case other => exact absurd rfl hk

theorem readCells_eq (line : List Char) :
    readCells t.kinds line (r.cells.map fun v => some v.toList) = .entry r.entry := by
  rw [readCells, r.foldl_cells]
  simp only [dropConnection, PlayerStatus.isBot, botId, beq_iff_eq]
  rfl

theorem isValue_texts : ∀ w ∈ r.before.map String.toList ++ r.after.map String.toList,
    IsWord w ∧ '"' ∉ w := by
  intro w hw
  rw [← List.map_append] at hw
  obtain ⟨v, hv, rfl⟩ := List.mem_map.1 hw
  exact r.isValue v hv

end Row

/-! ## Rows -/

theorem fit_of_length_eq {columns : List Column} {values : List (Option (List Char))}
    (h : values.length = columns.length) : fit columns values = .cells values := by
  simp [fit, h]

theorem IsRowLine.readRow_eq {t : Layout} {r : Row t} {line : List Char} (h : IsRowLine r line) :
    ∃ text, tableLine line = some text ∧ readRow t.kinds text = some (.entry r.entry) := by
  obtain ⟨hlead, hspaces, hslot, hgap, hs, htrail⟩ := h
  rename_i lead spaces slot gap s trail
  obtain ⟨hbefore, hafter⟩ := List.forall_mem_append.1 r.isValue_texts
  obtain ⟨left, right, rfl, hleft, hright, hinleft, hinright⟩ :=
    hs.split (fun w hw => (hbefore w hw).1) (fun w hw => (hafter w hw).1)
  have hquote : '"' ∉ gap ++ left := by
    rw [List.mem_append, not_or]
    exact ⟨quote_notMem_of_blank hgap, quote_notMem hinleft fun w hw => (hbefore w hw).2⟩
  have hquote' : '"' ∉ right ++ trail := by
    rw [List.mem_append, not_or]
    exact ⟨quote_notMem hinright fun w hw => (hafter w hw).2, quote_notMem_of_blank htrail⟩
  have hrest : spaces ++ slot ++ gap ++ (left ++ ('"' :: r.name.toList ++ ['"']) ++ right) ++ trail =
      spaces ++ (slot ++ ((gap ++ left) ++ '"' :: (r.name.toList ++ '"' :: (right ++ trail)))) := by
    simp
  rw [hrest]
  refine ⟨_, tableLine_quoted hlead (by simp), ?_⟩
  have hcells : (words (gap ++ left)).map some ++ some r.name.toList ::
      (words (right ++ trail)).map some = r.cells.map fun v => some v.toList := by
    rw [words_append_left hgap, words_append_right htrail, hleft, hright]
    simp [Row.cells, Function.comp_def]
  have hlength : (r.cells.map fun v => some v.toList).length = t.kinds.length := by
    rw [List.length_map, r.length_cells, t.length_kinds]
  rw [t.hasSlots_iff] at hslot
  rw [readRow, splitRow_quoted hspaces hslot hquote hquote', hcells, fit_of_length_eq hlength]
  exact congrArg some (r.readCells_eq _)

theorem tableLine_unquoted {line : List Char} (h : line.count '"' < 2) (columns : List Column) :
    tableLine line = none ∨
      ∃ text, tableLine line = some text ∧ readRow columns text = some (.unreadable text) := by
  cases hline : tableLine line with
  | none => exact .inl rfl
  | some text =>
    have hcount := Nat.lt_of_le_of_lt (count_tableLine_le hline '"') h
    refine .inr ⟨text, rfl, ?_⟩
    rw [readRow, splitRow_of_count_lt columns hcount]

/-- Behind a header, the rows are read, and nothing else is an entry. -/
theorem PrintedRows.mapM_eq {t : Layout} {rs : List (Row t)} {ls : List (List Char)}
    (h : PrintedRows rs ls) :
    ∃ results, (ls.filterMap tableLine).mapM (readRow t.kinds) = some results ∧
      results.filterMap StatusRow.entry? = rs.map Row.entry := by
  induction h with
  | nil => exact ⟨[], rfl, rfl⟩
  | @row r _ _ _ hline _ ih =>
    obtain ⟨results, hresults, hentries⟩ := ih
    obtain ⟨text, htext, hread⟩ := hline.readRow_eq
    refine ⟨.entry r.entry :: results, ?_, ?_⟩
    · rw [List.filterMap_cons_some htext, List.mapM_cons, hread, hresults]
      rfl
    · rw [List.filterMap_cons_some (by rfl), hentries, List.map_cons]
  | foreign hline _ ih =>
    rw [List.filterMap_cons_none (isForeign_iff.1 hline)]
    exact ih
  | unquoted hline _ ih =>
    rcases tableLine_unquoted hline t.kinds with hnone | ⟨text, htext, hread⟩
    · rw [List.filterMap_cons_none hnone]
      exact ih
    · obtain ⟨results, hresults, hentries⟩ := ih
      refine ⟨.unreadable text :: results, ?_, ?_⟩
      · rw [List.filterMap_cons_some htext, List.mapM_cons, hread, hresults]
        rfl
      · rw [List.filterMap_cons_none (by rfl), hentries]

theorem Printed.entriesOf_eq {t : Layout} {rs : List (Row t)} {ls : List (List Char)}
    (h : Printed rs ls) : entriesOf (ls.filterMap tableLine) = some (rs.map Row.entry) := by
  induction h with
  | header hline h =>
    obtain ⟨header, hheader, hwords⟩ := hline.tableLine_eq
    obtain ⟨results, hresults, hentries⟩ := h.mapM_eq
    have hcolumns : columns header = t.kinds := congrArg (List.map Column.ofName) hwords
    rw [List.filterMap_cons_some hheader, entriesOf, readTable, hcolumns, hresults]
    exact congrArg some hentries
  | foreign hline _ ih =>
    rw [List.filterMap_cons_none (isForeign_iff.1 hline)]
    exact ih

theorem Printed.ne_nil {t : Layout} {rs : List (Row t)} {ls : List (List Char)}
    (h : Printed rs ls) : ls ≠ [] := by
  cases h <;> exact List.cons_ne_nil _ _

/-- Reading what a server prints gives back its rows. -/
theorem parse_of_printed {t : Layout} {rs : List (Row t)} {ls : List (List Char)}
    (hlines : AreLines ls) (h : Printed rs ls) :
    parse (String.ofList (join ['\n'] ls)) = some (rs.map Row.entry) := by
  rw [parse_eq, String.toList_ofList, tableLines_eq, splitAtEach_join h.ne_nil hlines]
  exact h.entriesOf_eq

/-! A table of Half-Life, with slots, a line that has no name and one that is not of the table. -/

def halfLifeLayout : Layout where
  before := []
  after := ["userid", "uniqueid", "frag", "connected", "ping", "loss", "adr"]
  isWord := by decide
  nodup := by decide

def halfLifePlayer : Row halfLifeLayout where
  before := []
  name := "some \"quoted\" # player"
  after := ["1", "STEAM_0:0:42", "3", "10:02", "34", "lost", "10.0.0.5:27005"]
  length_before := rfl
  length_after := rfl
  isValue := by decide

def halfLifeBot : Row halfLifeLayout where
  before := []
  name := ""
  after := ["2", "BOT", "0", "00:12", "5", "0", "loopback"]
  length_before := rfl
  length_after := rfl
  isValue := by decide

def halfLifeLines : List (List Char) :=
  ["players :  2 active (16 max)".toList,
    "#      name userid uniqueid frag connected ping loss adr".toList,
    "#  1 \"some \"quoted\" # player\" 1 STEAM_0:0:42 3 10:02 34 lost 10.0.0.5:27005".toList,
    "# 2 \"no name".toList,
    "# 3 \"\" 2 BOT 0 00:12 5 0 loopback".toList,
    "#end".toList]

theorem areLines_halfLife : AreLines halfLifeLines := by
  rw [AreLines]
  decide

theorem printed_halfLife : Printed [halfLifePlayer, halfLifeBot] halfLifeLines := by
  have hslot : ∀ d : Char, d.isDigit = true → IsSlot halfLifeLayout.HasSlots [d, ' '] :=
    fun d hd => .inr ⟨by decide, [d], List.cons_ne_nil d [],
      fun c hc => List.mem_singleton.1 hc ▸ hd, rfl⟩
  have hheader := halfLifeLayout.isHeaderLine "      ".toList (by decide)
  have hplayer := halfLifePlayer.isRowLine [' ', ' '] (by decide) (hslot '1' rfl)
  have hbot := halfLifeBot.isRowLine [' '] (by decide) (hslot '3' rfl)
  exact .foreign (.inl (by decide)) (.header hheader (.row hplayer (.unquoted (by decide)
    (.row hbot (.foreign (.inr (by decide)) .nil)))))

theorem parse_of_printed_halfLife :
    AreLines halfLifeLines ∧ Printed [halfLifePlayer, halfLifeBot] halfLifeLines ∧
      parse (String.ofList (join ['\n'] halfLifeLines)) = some
        [{ name := "some \"quoted\" # player"
           status :=
            { userId := some 1, uniqueId := some "STEAM_0:0:42", connected := some "10:02"
              ping := some 34, address := some "10.0.0.5:27005" } },
         { name := ""
           status := { userId := some 2, uniqueId := some "BOT", connected := some "00:12" } }] := by
  refine ⟨areLines_halfLife, printed_halfLife, ?_⟩
  rw [parse_of_printed areLines_halfLife printed_halfLife]
  decide

end StatusTable

end GameQuery
