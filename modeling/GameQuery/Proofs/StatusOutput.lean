import GameQuery.Proofs.CommandAnswer
import GameQuery.Proofs.StatusText

namespace GameQuery

/-!
# Status tables in several datagrams

A server that cuts its status text into datagrams cuts it between two lines. The client takes the
line feeds off the end of every datagram and puts spaces between the texts, so the two lines at a
cut become one, and the table that is read is not always that of the uncut text.
-/

namespace Text

theorem mem_dropEmptyEnd {ls : List (List Char)} {l : List Char} (hl : l ∈ ls) (hne : l ≠ []) :
    l ∈ dropEmptyEnd ls := by
  induction ls using List.reverseRecOn with
  | nil => cases hl
  | append_singleton ls last ih =>
    rw [dropEmptyEnd_concat]
    split
    · next hlast =>
      rcases List.mem_append.1 hl with hl | hl
      · exact ih hl
      · exact absurd ((List.mem_singleton.1 hl).trans hlast) hne
    · exact hl

theorem mem_ofLines {ls : List (List Char)} {l : List Char} {c : Char} (hl : l ∈ ls) (hc : c ∈ l) :
    c ∈ ofLines ls := List.mem_flatMap.2 ⟨l, hl, List.mem_append_left _ hc⟩

theorem nul_notMem_ofLines {ls : List (List Char)} (h : ∀ l ∈ ls, '\x00' ∉ l) :
    '\x00' ∉ ofLines ls := by
  intro hmem
  obtain ⟨l, hl, hmem⟩ := List.mem_flatMap.1 hmem
  rcases List.mem_append.1 hmem with hmem | hmem
  · exact h l hl hmem
  · exact absurd hmem (by decide)

end Text

namespace StatusTable

theorem filterMap_empty_line : [[]].filterMap tableLine = [] :=
  List.filterMap_cons_none (tableLine_of_blank Text.trim_nil)

theorem filterMap_dropEmptyEnd (ls : List (List Char)) :
    (Text.dropEmptyEnd ls).filterMap tableLine = ls.filterMap tableLine := by
  induction ls using List.reverseRecOn with
  | nil => rfl
  | append_singleton ls l ih =>
    rw [Text.dropEmptyEnd_concat]
    split
    · next hl =>
      subst hl
      rw [ih, List.filterMap_append, filterMap_empty_line, List.append_nil]
    · rfl

theorem filterMap_flatten_dropEmptyEnd (groups : List (List (List Char))) :
    (groups.map Text.dropEmptyEnd).flatten.filterMap tableLine =
      groups.flatten.filterMap tableLine := by
  induction groups with
  | nil => rfl
  | cons ls rest ih =>
    rw [List.map_cons, List.flatten_cons, List.flatten_cons, List.filterMap_append,
      List.filterMap_append, filterMap_dropEmptyEnd, ih]

theorem AreGroups.dropEmptyEnd {groups : List (List (List Char))} (h : AreGroups groups) :
    AreGroups (groups.map Text.dropEmptyEnd) := by
  intro ls hls
  obtain ⟨ms, hms, rfl⟩ := List.mem_map.1 hls
  obtain ⟨l, hl, hblank⟩ := h ms hms
  refine ⟨l, Text.mem_dropEmptyEnd hl fun hnil => hblank ?_, hblank⟩
  rw [hnil, Text.trim_nil]

theorem tableLines_ofLines {ls : List (List Char)} (h : Text.AreLines ls) :
    tableLines (Text.ofLines ls) = ls.filterMap tableLine := by
  rw [tableLines_eq, ← List.append_nil (Text.ofLines ls), Text.splitAtEach_ofLines_append h,
    List.filterMap_append, Text.splitAtEach, filterMap_empty_line, List.append_nil]

end StatusTable

/-! ## Received texts -/

section Received

variable {ls : List (List Char)}

theorem not_isTextEnd (hlines : Text.AreLines ls) (hnul : ∀ l ∈ ls, '\x00' ∉ l) :
    ∀ l ∈ ls, ∀ c ∈ l, isTextEnd c = false := by
  intro l hl c hc
  have hline : c ≠ '\n' := fun he => hlines l hl (he ▸ hc)
  have hzero : c ≠ '\x00' := fun he => hnul l hl (he ▸ hc)
  simp [isTextEnd, hline, hzero]

theorem receivedText_ofLines_ne (hlines : Text.AreLines ls) (hnul : ∀ l ∈ ls, '\x00' ∉ l)
    (hblank : ∃ l ∈ ls, Text.trim l ≠ []) : receivedText (Text.ofLines ls) ≠ "" := by
  obtain ⟨l, hl, hblank⟩ := hblank
  cases l with
  | nil => exact absurd Text.trim_nil hblank
  | cons c l =>
    intro hempty
    rw [receivedText, ← String.toList_inj, String.toList_ofList] at hempty
    have hend := Text.dropEndWhile_eq_nil.1 hempty c (Text.mem_ofLines hl List.mem_cons_self)
    rw [not_isTextEnd hlines hnul _ hl c List.mem_cons_self] at hend
    cases hend

theorem splitAtEach_receivedText (hlines : Text.AreLines ls) (hnul : ∀ l ∈ ls, '\x00' ∉ l)
    (hblank : ∃ l ∈ ls, Text.trim l ≠ []) :
    Text.splitAtEach (· = '\n') (receivedText (Text.ofLines ls)).toList = Text.dropEmptyEnd ls := by
  obtain ⟨l, hl, hblank⟩ := hblank
  have hne : l ≠ [] := fun hnil => hblank (by rw [hnil, Text.trim_nil])
  rw [receivedText, String.toList_ofList]
  exact Text.splitAtEach_dropEndWhile_ofLines (by decide) (not_isTextEnd hlines hnul)
    (List.ne_nil_of_mem (Text.mem_dropEmptyEnd hl hne))

end Received

/-! ## Status output -/

/-- A server that answers a command with a status text, cut between lines into groups with a line
that is not blank in each. -/
structure StatusExchange (command : String) where
  /-- The lines of the first datagram. -/
  first : List (List Char)
  /-- The lines of all other datagrams. -/
  more : List (List (List Char))
  exchange : CommandExchange command (Text.ofLines first) (more.map Text.ofLines)
  lines : ∀ ls ∈ first :: more, Text.AreLines ls
  nulFree : ∀ ls ∈ first :: more, ∀ l ∈ ls, '\x00' ∉ l
  notBlank : StatusTable.AreGroups (first :: more)

namespace StatusExchange

open StatusTable

variable {command : String} (x : StatusExchange command)

def groups : List (List (List Char)) := x.first :: x.more

/-- The text that is not cut. -/
def text : String := String.ofList (Text.ofLines x.groups.flatten)

/-- The table in the text that is not cut. -/
def table : List (List Char) := x.groups.flatten.filterMap tableLine

/-- The lines of each datagram as they are received: the empty ones at the end are lost. -/
def received : List (List (List Char)) := x.groups.map Text.dropEmptyEnd

/-- The table that is left when the lines at both sides of every cut have become one. -/
def gluedTable : List (List Char) := (Text.glueAll x.received).filterMap tableLine

theorem tableLines_text : tableLines x.text.toList = x.table := by
  rw [text, String.toList_ofList]
  refine tableLines_ofLines fun l hl => ?_
  obtain ⟨ls, hls, hl⟩ := List.mem_flatten.1 hl
  exact x.lines ls hls l hl

theorem map_splitAtEach :
    (((x.groups.map Text.ofLines).map receivedText).map String.toList).map
      (Text.splitAtEach (· = '\n')) = x.received := by
  rw [List.map_map, List.map_map, List.map_map, received]
  exact List.map_congr_left fun ls hls =>
    splitAtEach_receivedText (x.lines ls hls) (x.nulFree ls hls) (x.notBlank ls hls)

/-- The output is the received texts with spaces in between, and its table is the glued one. -/
theorem execute_eq : ∃ output v, GoldSrcSession.execute command x.exchange.start = .ok output v ∧
    tableLines output.toList = x.gluedTable := by
  have hnul : ∀ text ∈ x.groups.map Text.ofLines, '\x00' ∉ text := by
    intro text htext
    obtain ⟨ls, hls, rfl⟩ := List.mem_map.1 htext
    exact Text.nul_notMem_ofLines (x.nulFree ls hls)
  have hne : ∀ text ∈ x.groups.map Text.ofLines, receivedText text ≠ "" := by
    intro text htext
    obtain ⟨ls, hls, rfl⟩ := List.mem_map.1 htext
    exact receivedText_ofLines_ne (x.lines ls hls) (x.nulFree ls hls) (x.notBlank ls hls)
  obtain ⟨v, hv⟩ := x.exchange.execute_eq hnul hne
  refine ⟨_, v, hv, ?_⟩
  rw [tableLines_eq, String.toList_intercalate, gluedTable, ← x.map_splitAtEach]
  rw [show " ".toList = [' '] from rfl, Text.splitAtEach_intercalate (by decide) (by simp)]
  rfl

/-- A lost line of the table is a lost entry, if every row of the uncut table has one. -/
theorem parse_ne_of_lost {output : String} (htable : tableLines output.toList = x.gluedTable)
    (hend : NoEndAtCuts x.received) (hcuts : ¬ AtCuts KeepsLine x.received)
    {entries : List StatusEntry} (hne : entries ≠ []) (htext : parse x.text = some entries)
    (hrows : entries.length + 1 = x.table.length) : parse output ≠ parse x.text := by
  intro heq
  rw [htext, parse_eq, htable] at heq
  have hle := length_entriesOf_le heq
  have hlt : x.gluedTable.length < x.table.length := by
    have hlost := tableSize_glueAll_lt x.notBlank.dropEmptyEnd hend hcuts
    rw [tableSize, tableSize, filterMap_flatten_dropEmptyEnd] at hlost
    exact hlost
  have hpos := List.length_pos_iff.2 hne
  omega

/-- The entries of the output are those of the uncut text exactly when the glued table has the
same entries as the uncut one. Safe cuts change nothing for the players. Other cuts change the
table, unless one of them is behind the end of a table; and a cut that loses a line of the table
changes the entries, if every row of the uncut table has one. -/
theorem parse_output_eq_iff (x : StatusExchange command) :
    ∃ output v, GoldSrcSession.execute command x.exchange.start = .ok output v ∧
      (parse output = parse x.text ↔ entriesOf x.gluedTable = entriesOf x.table) ∧
      (AtCuts SafeCut x.received → parse output = parse x.text ∧
        ∀ players, merge players output = merge players x.text) ∧
      (NoEndAtCuts x.received →
        (tableLines output.toList = tableLines x.text.toList ↔ AtCuts SafeCut x.received)) ∧
      (NoEndAtCuts x.received → ¬ AtCuts KeepsLine x.received →
        ∀ entries, entries ≠ [] → parse x.text = some entries →
          entries.length + 1 = x.table.length → parse output ≠ parse x.text) := by
  obtain ⟨output, v, hv, htable⟩ := x.execute_eq
  have hgroups := x.notBlank.dropEmptyEnd
  have hflat := filterMap_flatten_dropEmptyEnd x.groups
  have hiff : parse output = parse x.text ↔ entriesOf x.gluedTable = entriesOf x.table := by
    rw [parse_eq, parse_eq, htable, x.tableLines_text]
  refine ⟨output, v, hv, hiff, fun hsafe => ?_, fun hend => ?_, fun hend hcuts entries => ?_⟩
  · have heq : parse output = parse x.text := by
      refine hiff.2 (congrArg entriesOf ?_)
      exact (filterMap_glueAll hgroups hsafe).trans hflat
    refine ⟨heq, fun players => ?_⟩
    rw [merge, merge, heq]
  · rw [htable, x.tableLines_text, table, ← hflat]
    exact filterMap_glueAll_eq_iff hgroups hend
  · exact x.parse_ne_of_lost htable hend hcuts

/-! ## A cut between two rows -/

section BetweenRows

def headerLine : List Char := "# name userid ping".toList

def firstRow : List Char := "# \"ann\" 1 20".toList

def secondRow : List Char := "# \"bob\" 2 30".toList

def serverAddress : SocketAddress := .v4 ⟨⟨10, 0, 0, 1⟩, 27015⟩

def statusRequest : ConsoleLine := .exec 7 "secret" "status"

/-- A world in which a command is answered with two datagrams, and anything else with an empty
text. -/
def cuttingWorld : World where
  connect _ _ _ := none
  react _ _ _ bytes := .ok <|
    if bytes = statusRequest.bytes then
      [.data (textDatagram (Text.ofLines [headerLine, firstRow])),
        .data (textDatagram (Text.ofLines [secondRow]))]
    else [.data (textDatagram [])]
  resolve _ := none
  sessionId _ := 0

def openChannel : QueryChannel where
  channel :=
    { socket := { transport := .udp, peer := serverAddress }, buffer := .clamp queryBufferSize }
  reassembler := { framing := .goldSrc }

def loggedIn : GoldSrcSession × Network :=
  ({ query := some openChannel, password := some "secret", challenge := some 7 },
    { world := cuttingWorld })

/-- A header and a row in one datagram, and one more row in another. -/
def betweenRows : StatusExchange "status" where
  first := [headerLine, firstRow]
  more := [[secondRow]]
  exchange :=
    { start := loggedIn
      password := "secret"
      number := 7
      ready := loggedIn
      peer := serverAddress
      answer := _
      ending := _
      password_eq := rfl
      number_eq := rfl
      waiting := ⟨openChannel, rfl, rfl, rfl, rfl, rfl, rfl⟩
      fits := by decide
      answer_eq := congrArg Except.ok (if_pos rfl)
      answer_datagrams := rfl
      ending_eq := congrArg Except.ok (if_neg (by decide))
      ending_datagrams := rfl
      sizes := by decide
      notBanned := by decide
      notRefused := by decide
      notExpired := by decide }
  lines := by unfold Text.AreLines; decide
  nulFree := by decide
  notBlank := by unfold AreGroups; decide

theorem parse_output_eq_iff_betweenRows :
    NoEndAtCuts betweenRows.received ∧ ¬ AtCuts KeepsLine betweenRows.received ∧
      ∃ entries, entries ≠ [] ∧ parse betweenRows.text = some entries ∧
        entries.length + 1 = betweenRows.table.length ∧
        ∃ output v, GoldSrcSession.execute "status" betweenRows.exchange.start = .ok output v ∧
          entriesOf betweenRows.gluedTable ≠ entriesOf betweenRows.table ∧
          parse output ≠ parse betweenRows.text := by
  have hend : NoEndAtCuts betweenRows.received := by
    unfold NoEndAtCuts AtCuts
    decide +kernel
  have hcuts : ¬ AtCuts KeepsLine betweenRows.received := by
    unfold AtCuts KeepsLine
    decide +kernel
  have htext : parse betweenRows.text = entriesOf betweenRows.table := by
    rw [parse_eq, betweenRows.tableLines_text]
  have hsome : (entriesOf betweenRows.table).isSome = true := by decide +kernel
  obtain ⟨entries, hentries⟩ := Option.isSome_iff_exists.1 hsome
  have hlength : (entriesOf betweenRows.table).map List.length = some 2 := by decide +kernel
  rw [hentries, Option.map_some, Option.some.injEq] at hlength
  have hne : entries ≠ [] := List.ne_nil_of_length_pos (by omega)
  have hrows : entries.length + 1 = betweenRows.table.length := by
    rw [hlength]
    decide +kernel
  obtain ⟨output, v, hrun, hiff, -, -, hlost⟩ := parse_output_eq_iff betweenRows
  have hparse := hlost hend hcuts entries hne (htext.trans hentries) hrows
  exact ⟨hend, hcuts, entries, hne, htext.trans hentries, hrows, output, v, hrun,
    fun heq => hparse (hiff.2 heq), hparse⟩

/-- A cut between two rows leaves neither of the players. -/
theorem cut_between_rows_joins_them :
    ∃ output v, GoldSrcSession.execute "status" betweenRows.exchange.start = .ok output v ∧
      (∃ header ∈ betweenRows.table.head?, Text.words header ≠ []) ∧
      (parse betweenRows.text).map (·.map (·.name)) = some ["ann", "bob"] ∧
      (parse output).map (·.map (·.name)) = some ["ann\" 1 20 # \"bob"] ∧
      parse output ≠ parse betweenRows.text := by
  obtain ⟨output, v, hv, htable⟩ := betweenRows.execute_eq
  have htext : (parse betweenRows.text).map (·.map (·.name)) = some ["ann", "bob"] := by
    rw [parse_eq, betweenRows.tableLines_text]
    decide +kernel
  have houtput : (parse output).map (·.map (·.name)) = some ["ann\" 1 20 # \"bob"] := by
    rw [parse_eq, htable]
    decide +kernel
  refine ⟨output, v, hv, by decide +kernel, htext, houtput, fun heq => ?_⟩
  rw [heq, htext] at houtput
  exact absurd houtput (by decide)

end BetweenRows

end StatusExchange

end GameQuery
