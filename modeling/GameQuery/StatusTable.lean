import GameQuery.Player
import GameQuery.Text.Blank
import GameQuery.Text.Numeral

namespace GameQuery

/-!
# Status tables

The output of the console command `status` holds a table of the players: lines that start with a
number sign, the first of which names the columns. A row has its name in quotes; everything else
is split at blanks.
-/

/-- What a column of the table tells. -/
inductive Column where
  | name | userId | uniqueId | state | connected | ping | loss | rate | address | other
  deriving DecidableEq, Repr

namespace Column

/-- Engines differ in what they call the connection time. -/
def ofName (name : List Char) : Column :=
  match String.ofList name with
  | "name" => .name
  | "userid" => userId
  | "uniqueid" => uniqueId
  | "state" => state
  | "time" => connected
  | "connected" => connected
  | "ping" => ping
  | "loss" => loss
  | "rate" => rate
  | "adr" => address
  | _ => other

end Column

/-- A row of the table: a name and what belongs to it. -/
structure StatusEntry where
  name : String
  status : PlayerStatus
  deriving DecidableEq, Repr

/-- What becomes of a row. -/
inductive StatusRow where
  | entry (entry : StatusEntry)
  /-- The row has no quoted name. -/
  | unreadable (line : List Char)
  /-- No column takes the name. -/
  | nameless (line : List Char)
  deriving DecidableEq, Repr

def StatusRow.entry? : StatusRow → Option StatusEntry
  | entry e => some e
  | _ => none

/-- What there is to say about a row that is no entry. -/
def StatusRow.warning? : StatusRow → Option String
  | entry _ => none
  | unreadable line => some ("failed to parse status line \"" ++ String.ofList line ++ "\"")
  | nameless line => some ("status line without a name \"" ++ String.ofList line ++ "\"")

/-- The cells of a row. A bot has none for some columns. -/
inductive Cells where
  | cells (values : List (Option (List Char)))
  /-- The row has no quoted name. -/
  | unquoted
  /-- A cell too many is to be dropped from a row that has only one. -/
  | crash
  deriving DecidableEq, Repr

namespace StatusTable

/-- The lines of the table, without their number signs. The first is the header. -/
def tableLines (output : List Char) : List (List Char) :=
  let marked := ((Text.lines output).map Text.trim).filter fun line =>
    line.head? = some '#' && line ≠ "#end".toList
  marked.map fun line => Text.trim (line.drop 1)

def columns (header : List Char) : List Column := (Text.words header).map Column.ofName

/-- Drops the slot number in front of a row: digits and the spaces behind them. -/
def stripSlot (line : List Char) : List Char :=
  let rest := line.dropWhile Char.isDigit
  if line.head?.any Char.isDigit && rest.head? = some ' ' then rest.dropWhile (· = ' ') else line

/-- The text before the first quote, between the first and the last, and after the last. -/
def splitQuotes (line : List Char) : Option (List Char × List Char × List Char) :=
  match Text.splitOnce '"' line with
  | none => none
  | some (before, rest) =>
    match Text.splitOnce '"' rest.reverse with
    | none => none
    | some (after, name) => some (before, name.reverse, after.reverse)

/-- Fits cells to the columns: bots lack three of them, and some servers print one more. -/
def fit (columns : List Column) (values : List (Option (List Char))) : Cells :=
  if values.length < columns.length ∧ Column.state ∈ columns then
    let place := min values.length 3
    .cells (values.take place ++ [none, none, none] ++ values.drop place)
  else if columns.length < values.length then
    if values.length = 1 then .crash else .cells (values.eraseIdx 1)
  else .cells values

def splitRow (columns : List Column) (line : List Char) : Cells :=
  let line := if columns.head? = some .userId then line else stripSlot line
  match splitQuotes line with
  | none => .unquoted
  | some (before, name, after) =>
    fit columns ((Text.words before).map some ++ some name :: (Text.words after).map some)

/-- Takes a cell over into what is known of a row. -/
def assign (row : Option String × PlayerStatus) : Column × Option (List Char) →
    Option String × PlayerStatus
  | (_, none) => row
  | (column, some value) =>
    let (name, status) := row
    let text := String.ofList value
    match column with
    | .name => (some text, status)
    | .userId => (name, { status with userId := Text.readUInt32 value })
    | .uniqueId => (name, { status with uniqueId := some text })
    | .state => (name, { status with state := some text })
    | .connected => (name, { status with connected := some text })
    | .ping => (name, { status with ping := Text.readUInt32 value })
    | .loss => (name, { status with loss := Text.readUInt32 value })
    | .rate => (name, { status with rate := Text.readUInt32 value })
    | .address => (name, { status with address := some text })
    | .other => row

/-- A bot has no connection. -/
def dropConnection (s : PlayerStatus) : PlayerStatus :=
  if s.isBot then { s with ping := none, loss := none, rate := none, address := none } else s

/-- What becomes of a row with cells. -/
def readCells (columns : List Column) (line : List Char) (values : List (Option (List Char))) :
    StatusRow :=
  match (columns.zip values).foldl assign (none, {}) with
  | (some name, status) => .entry ⟨name, dropConnection status⟩
  | (none, _) => .nameless line

/-- What becomes of a row, if the reader survives it. -/
def readRow (columns : List Column) (line : List Char) : Option StatusRow :=
  match splitRow columns line with
  | .cells values => some (readCells columns line values)
  | .unquoted => some (.unreadable line)
  | .crash => none

/-- The rows of the table in some console output, if the reader survives them. -/
def rows (output : List Char) : Option (List StatusRow) :=
  match tableLines output with
  | [] => some []
  | header :: lines => lines.mapM (readRow (columns header))

/-- The entries of the table in some console output. -/
def parse (output : String) : Option (List StatusEntry) :=
  (rows output.toList).map (·.filterMap StatusRow.entry?)

/-- Gives the first player with the name of an entry the status of the entry. -/
def applyEntry (e : StatusEntry) : List Player → Option (List Player)
  | [] => none
  | p :: players =>
    if p.name = e.name then some ({ p with status := some e.status } :: players)
    else (applyEntry e players).map (p :: ·)

/-- Applies entries one after another. The number counts those that met a player. -/
def applyEntries : List StatusEntry → List Player → Nat × List Player
  | [], players => (0, players)
  | e :: entries, players =>
    match applyEntry e players with
    | some players =>
      let (n, players) := applyEntries entries players
      (n + 1, players)
    | none => applyEntries entries players

/-- Merges the table in some console output into a list of players. -/
def merge (players : List Player) (output : String) : Option (Nat × List Player) :=
  (parse output).map fun entries => applyEntries entries players

end StatusTable

end GameQuery
