import GameQuery.Net.Network

namespace GameQuery

/-!
# Log lines

How much a line of the log matters, by name and by number, and which lines are shown.
-/

namespace LogLevel

/-- The levels, each one of which shows more than the one before. -/
def all : List LogLevel := [off, error, warn, info, debug, trace]

/-- The place of a level among all levels. -/
def toNat : LogLevel → Nat
  | off => 0
  | error => 1
  | warn => 2
  | info => 3
  | debug => 4
  | trace => 5

def name : LogLevel → String
  | off => "off"
  | error => "error"
  | warn => "warn"
  | info => "info"
  | debug => "debug"
  | trace => "trace"

/-- Reads a level: the start of a name, of two names the first one, or a number. -/
def parse? (text : List Char) : Option LogLevel :=
  (all.find? fun l => text.isPrefixOf l.name.toList).or
    ((Text.readUInt8 text).bind fun n => all[n.toNat]?)

end LogLevel

/-- The text of a line. -/
def LogLine.shown (l : LogLine) : String := l.level.name.toUpper ++ " - " ++ l.text

/-- What is shown of a log that has the latest line first: the lines that matter enough. -/
def shownLines (level : LogLevel) (log : List LogLine) : List String :=
  (log.reverse.filter fun l => l.level.toNat ≤ level.toNat).map LogLine.shown

end GameQuery
