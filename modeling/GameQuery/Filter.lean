import GameQuery.Error
import GameQuery.Text.Blank
import GameQuery.Text.Numeral

namespace GameQuery

/-!
# Filters

What servers a master server is asked for, written as keys and values between backslashes.
-/

/-- A set of yes-or-no conditions. The lowest bits have the names in `Flags.names`, the bits above
them have none. -/
abbrev Flags := BitVec 16

namespace Flags

/-- The names of the conditions, the lowest bit first. -/
def names : List String :=
  ["dedicated", "secure", "linux", "password", "empty", "full", "proxy", "noplayers", "white"]

/-- The set with the condition at a position. -/
def single (i : Nat) : Flags := BitVec.twoPow 16 i

/-- The condition with a name. -/
def ofName? (name : String) : Option Flags := (names.idxOf? name).map single

end Flags

/-- A filter for servers. -/
structure Filter where
  gamedir : Option String := none
  map : Option String := none
  appId : Option UInt32 := none
  /-- An application whose servers are left out. -/
  napp : Option UInt32 := none
  /-- Tags, all of which a server has to have. -/
  gametype : List String := []
  nameMatch : Option String := none
  versionMatch : Option String := none
  gameaddr : Option String := none
  /-- The conditions that have to hold. -/
  flags : Flags := 0
  /-- The conditions that are asked about. -/
  mask : Flags := 0
  deriving DecidableEq, Repr

namespace Filter

/-- Whether the filter lets every server pass. -/
def isEmpty (f : Filter) : Bool := f = {}

/-- Asks about some conditions: they have to hold, or have to fail. -/
def setFlags (f : Filter) (flags : Flags) (value : Bool) : Filter :=
  { f with
    flags := if value then f.flags ||| flags else f.flags &&& ~~~flags
    mask := f.mask ||| flags }

/-- Adds a tag. -/
def addTag (f : Filter) (tag : String) : Filter := { f with gametype := f.gametype ++ [tag] }

def readFlag : List Char → Option Bool
  | ['0'] => some false
  | ['1'] => some true
  | _ => none

/-- The tags between commas, without empty ones. -/
def readTags (value : List Char) : List String :=
  ((Text.splitAtEach (· = ',') value).filter (· ≠ [])).map String.ofList

/-- Adds what a key and its value ask for. A key that is not known asks for nothing. -/
def addPair (f : Filter) (key value : List Char) : Option Filter :=
  let text := String.ofList value
  match String.ofList key with
  | "gamedir" => some { f with gamedir := some text }
  | "map" => some { f with map := some text }
  | "appid" => (Text.readUInt32 value).map fun n => { f with appId := some n }
  | "napp" => (Text.readUInt32 value).map fun n => { f with napp := some n }
  | "gametype" => some { f with gametype := f.gametype ++ readTags value }
  | "name_match" => some { f with nameMatch := some text }
  | "version_match" => some { f with versionMatch := some text }
  | "gameaddr" => some { f with gameaddr := some text }
  | name =>
    match Flags.ofName? name with
    | some flags => (readFlag value).map fun v => f.setFlags flags v
    | none => some f

/-- Adds keys and values that alternate. -/
def addPairs (f : Filter) : List (List Char) → Option Filter
  | [] => some f
  | [_] => none
  | key :: value :: rest => (f.addPair key value).bind fun f => f.addPairs rest

/-- Reads a filter: nothing, or a backslash and pairs of keys and values. -/
def parse (text : List Char) : Except CodecError Filter :=
  match text with
  | [] => .ok {}
  | '\\' :: rest =>
    match addPairs {} (Text.splitAtEach (· = '\\') rest) with
    | some f => .ok f
    | none => .error .malformed
  | _ => .error .malformed

def pairText (key value : List Char) : List Char := '\\' :: key ++ '\\' :: value

/-- A pair, if there is a value. -/
def optionText (key : String) (value : Option (List Char)) : List Char :=
  match value with
  | some v => pairText key.toList v
  | none => []

def tagsText (tags : List String) : List Char :=
  if tags.isEmpty then []
  else pairText "gametype".toList (Text.join [','] (tags.map String.toList))

/-- The conditions asked about, from position `i` on. -/
def flagsText (f : Filter) : Nat → List String → List Char
  | _, [] => []
  | i, name :: names =>
    (if f.mask.getLsbD i then pairText name.toList [if f.flags.getLsbD i then '1' else '0']
     else []) ++ f.flagsText (i + 1) names

/-- The text of a filter. -/
def text (f : Filter) : List Char :=
  optionText "gamedir" (f.gamedir.map String.toList) ++
  optionText "map" (f.map.map String.toList) ++
  optionText "appid" (f.appId.map fun n => Text.decimal n.toNat) ++
  optionText "napp" (f.napp.map fun n => Text.decimal n.toNat) ++
  tagsText f.gametype ++
  optionText "name_match" (f.nameMatch.map String.toList) ++
  optionText "version_match" (f.versionMatch.map String.toList) ++
  optionText "gameaddr" (f.gameaddr.map String.toList) ++
  f.flagsText 0 Flags.names

@[simp] theorem parse_nil : parse [] = .ok {} := rfl

end Filter

end GameQuery
