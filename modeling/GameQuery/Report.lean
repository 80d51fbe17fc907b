import GameQuery.JsonValue
import GameQuery.Net.Address
import GameQuery.Player
import GameQuery.Filter
import GameQuery.Region
import GameQuery.Reply.Info
import GameQuery.Reply.Rules

namespace GameQuery

/-!
# Reports

What the query tool has found out, as JSON or as lines for a reader.
-/

/-- What came of asking a server for its information. -/
inductive ServerOutcome where
  /-- The server took some microseconds to answer. -/
  | answered (ping : Nat) (info : ServerInfo)
  | timedOut
  | failed (message : String)

structure ServerReport where
  /-- The host as it was asked for. -/
  host : String
  outcome : ServerOutcome

inductive Report where
  /-- Addresses that master servers have listed. -/
  | listing (masters : List String) (region : Region) (filter : Filter) (servers : List String)
  /-- Information on servers, each of which had some milliseconds to answer. -/
  | servers (timeout : Nat) (servers : List ServerReport)
  | rules (address : SocketAddress) (rules : Rules)
  | players (address : SocketAddress) (players : List Player)
  | output (address : SocketAddress) (command : String) (output : String)

/-- Milliseconds, from microseconds. -/
def millis (micros : Nat) : Single := (Single.ofNat micros).divNat 1000

/-! ## JSON -/

/-- A field that is there only if it has a value. -/
def optionalField {α : Type} (name : String) (toJson : α → JsonValue) (a : Option α) :
    List (String × JsonValue) :=
  (a.map fun a => (name, toJson a)).toList

def jsonWord (n : UInt32) : JsonValue := .integer n.toNat

def jsonAddress (a : SocketAddress) : JsonValue := .text (toString a)

def ServerInfo.json (i : ServerInfo) : JsonValue :=
  .object ([
    ("name", .text i.name),
    ("map", .text i.map),
    ("folder", .text i.folder),
    ("game", .text i.game),
    ("app_id", .integer i.appId.toNat),
    ("protocol", .integer i.protocol.toNat),
    ("players", .integer i.players.toNat),
    ("max_players", .integer i.maxPlayers.toNat),
    ("bots", .integer i.bots.toNat),
    ("server_type", .text i.serverType.name),
    ("os", .text i.os.name),
    ("password", .bool i.hasPassword),
    ("secure", .bool i.isSecure),
    ("version", .text i.version)] ++ optionalField "keywords" .text i.extra.keywords)

def ServerOutcome.fields : ServerOutcome → List (String × JsonValue)
  | answered ping info =>
    [("status", .text "ok"), ("ping", .single (millis ping)), ("info", info.json)]
  | timedOut => [("status", .text "timeout")]
  | failed message => [("status", .text "error"), ("message", .text message)]

def ServerReport.json (r : ServerReport) : JsonValue :=
  .object (("address", .text r.host) :: r.outcome.fields)

def Player.json (p : Player) : JsonValue :=
  let s := p.status.getD {}
  .object ([
    ("index", .integer p.index.toNat),
    ("name", .text p.name),
    ("score", .integer p.score.toInt),
    ("time", .single p.time)] ++
    optionalField "user_id" jsonWord s.userId ++
    optionalField "unique_id" .text s.uniqueId ++
    optionalField "ping" jsonWord s.ping ++
    optionalField "loss" jsonWord s.loss ++
    optionalField "address" .text s.address)

/-! ## Lines -/

/-- A text that takes at least `width` columns, at the left of them. -/
def padRight (width : Nat) (s : String) : String :=
  s ++ String.ofList (List.replicate (width - s.length) ' ')

/-- A text that takes at least `width` columns, at the right of them. -/
def padLeft (width : Nat) (s : String) : String :=
  String.ofList (List.replicate (width - s.length) ' ') ++ s

/-- A text between quotes. Quotes in it stay as they are. -/
def betweenQuotes (s : String) : String := "\"" ++ s ++ "\""

/-- A line with a name and a value. -/
def entryLine (name value : String) : String := "    " ++ name ++ ": " ++ value

def ServerInfo.plain (i : ServerInfo) : List String :=
  [entryLine "name" (betweenQuotes i.name),
   entryLine "map" (betweenQuotes i.map),
   entryLine "folder" (betweenQuotes i.folder),
   entryLine "game" (betweenQuotes i.game),
   entryLine "app_id" (toString i.appId),
   entryLine "protocol" (toString i.protocol),
   entryLine "players" (toString i.players ++ "/" ++ toString i.maxPlayers ++ " (" ++
     toString i.bots ++ " bots)"),
   entryLine "server_type" i.serverType.name,
   entryLine "os" i.os.name,
   entryLine "password" (toString i.hasPassword),
   entryLine "secure" (toString i.isSecure),
   entryLine "version" (betweenQuotes i.version)] ++
  (i.extra.keywords.map fun s => entryLine "keywords" (betweenQuotes s)).toList

/-- Milliseconds with three places. -/
def millisText (micros : Nat) : String :=
  String.ofList (fixedText 3 (millis micros).units Single.unitsPerOne)

def ServerReport.plain (r : ServerReport) : List String :=
  (match r.outcome with
    | .answered ping info =>
      ("server: " ++ r.host ++ " [" ++ millisText ping ++ " ms]") ::
        entryLine "status" (betweenQuotes "ok") :: info.plain
    | .timedOut => ["server: " ++ r.host, entryLine "status" (betweenQuotes "timeout")]
    | .failed message =>
      ["server: " ++ r.host, entryLine "status" (betweenQuotes "error"),
       entryLine "message" (betweenQuotes message)]) ++ [""]

/-- Whole minutes and seconds. -/
def clockText (seconds : UInt32) : String :=
  padLeft 3 (toString (seconds / 60)) ++ ":" ++
    String.ofList (if seconds % 60 < 10 then ['0'] else []) ++ toString (seconds % 60)

def Player.plain (p : Player) : String :=
  let s := p.status.getD {}
  "    #" ++ padRight 3 (toString p.index) ++ " " ++ betweenQuotes p.name ++ " " ++
    padLeft 5 (toString p.score) ++ " " ++ clockText p.time.toUInt32 ++
    ((s.ping.map fun n => " " ++ padLeft 4 (toString n) ++ " ms").getD "") ++
    ((s.uniqueId.map (" " ++ ·)).getD "") ++ ((s.address.map (" " ++ ·)).getD "")

namespace Report

def json : Report → JsonValue
  | listing masters region filter found =>
    .object [
      ("masters", .list (masters.map .text)),
      ("region", .integer region.toByte.toNat),
      ("filter", .text (String.ofList filter.text)),
      ("servers", .list (found.map .text))]
  | servers timeout reports =>
    .object [("timeout", .integer timeout), ("servers", .list (reports.map ServerReport.json))]
  | rules address settings =>
    .object [
      ("address", jsonAddress address),
      ("rules", .object (settings.entries.map fun (name, value) => (name, .text value)))]
  | players address present =>
    .object [("address", jsonAddress address), ("players", .list (present.map Player.json))]
  | output address command text =>
    .object [("address", jsonAddress address), ("command", .text command), ("output", .text text)]

def plain : Report → List String
  | listing _ _ _ found => found
  | servers _ reports => reports.flatMap ServerReport.plain
  | rules address settings =>
    ("server: " ++ toString address) ::
      settings.entries.map fun (name, value) => "    " ++ name ++ " = " ++ betweenQuotes value
  | players address present =>
    ("server: " ++ toString address ++ " [" ++ toString present.length ++ " players]") ::
      present.map Player.plain
  | output _ _ text => [text]

/-- The lines of a report. -/
def lines (asJson : Bool) (r : Report) : List String :=
  if asJson then r.json.lines.map String.ofList else r.plain

end Report

end GameQuery
