import GameQuery.CommandLine.Log
import GameQuery.CommandLine.Option
import GameQuery.Filter
import GameQuery.Region
import GameQuery.Session.Engine

namespace GameQuery

/-!
# Arguments

The options of the query tool and the values they may have. A command line that asks for help or
for the version is not looked at any further.
-/

/-- The engines of game servers. -/
inductive Engine where
  | source
  | goldSrc
  /-- A relay for spectators of a GoldSrc server. -/
  | hltv
  deriving DecidableEq, Repr, Inhabited

namespace Engine

/-- A session that has not been opened. -/
def session : Engine → EngineSession
  | source => .source {}
  | goldSrc => .goldSrc {}
  | hltv => .goldSrc { isHltv := true }

def parse? (text : String) : Option Engine :=
  match text.toLower with
  | "source" | "src" => some source
  | "goldsrc" | "gs" => some goldSrc
  | "hltv" => some hltv
  | _ => none

end Engine

/-- The region with a name or a number. -/
def Region.parse? (text : String) : Option Region :=
  match text.toLower with
  | "us-east" => some usEast
  | "us-west" => some usWest
  | "south-america" => some southAmerica
  | "europe" => some europe
  | "asia" => some asia
  | "australia" => some australia
  | "middle-east" => some middleEast
  | "africa" => some africa
  | "all" | "world" => some world
  | other => (Text.readUInt8 other.toList).bind ofByte?

/-- What a command line asks for. -/
structure Arguments where
  configPath : Option String := none
  logLevel : Option LogLevel := none
  masters : Option (List String) := none
  region : Option Region := none
  filter : Filter := {}
  /-- Whether other addresses of a master server are tried. -/
  force : Bool := false
  engine : Engine := .source
  password : Option String := none
  /-- How many milliseconds a receive waits. -/
  timeout : Option Nat := none
  /-- How often a page is asked for. -/
  retries : Option Nat := none
  json : Bool := false
  /-- The command and what it is about. -/
  words : List String := []
  deriving DecidableEq, Repr

/-- What a command line is for. -/
inductive Invocation where
  | help
  | version
  | run (arguments : Arguments)
  deriving DecidableEq, Repr

/-- What is wrong with a command line. -/
inductive UsageError where
  | options (e : OptionError)
  /-- An option has a value that it cannot have. -/
  | invalid (what : String) (value : String)
  deriving DecidableEq, Repr

def UsageError.message : UsageError → String
  | options e => e.message
  | invalid what value => "Invalid " ++ what ++ " \"" ++ value ++ "\""

namespace Arguments

def options : List CommandOption :=
  [{ letter := 'h', name := "help", description := ["print usage help"] },
   { letter := 'v', name := "version", description := ["print program version"] },
   { letter := 'c', name := "config", argument := some "PATH", description := ["config path"] },
   { letter := 'l', name := "log", argument := some "LEVEL"
     description := ["logging level [default: warn(2)]",
       "LEVEL: 0-5, off, error, warn, info, debug, trace"] },
   { letter := 'm', name := "master", argument := some "LIST"
     description := ["master servers to query [default:", "hl2master.steampowered.com:27011]"] },
   { letter := 'r', name := "region", argument := some "REGION"
     description := ["master server region [default: all]"] },
   { letter := 'f', name := "filter", argument := some "FILTER"
     description := ["master server filter"] },
   { letter := 'F', name := "force", description := ["try other master addresses on failure"] },
   { letter := 'e', name := "engine", argument := some "ENGINE"
     description := ["server engine [default: source]", "ENGINE: source, goldsrc, hltv"] },
   { letter := 'p', name := "password", argument := some "PASSWORD"
     description := ["rcon password"] },
   { letter := 't', name := "timeout", argument := some "MS"
     description := ["time to wait for a response [default: 1000]"] },
   { letter := 'R', name := "retries", argument := some "NUM"
     description := ["attempts per master server page [default: 3]"] },
   { letter := 'j', name := "json", description := ["output JSON"] }]

/-- The lines of help. -/
def usage : List String :=
  ["Usage: condenser-query [options] <COMMAND> [ARGS]",
   "",
   "COMMANDS:",
   "    list                fetch servers from master servers and print addresses",
   "    info hosts...       fetch info for each server (every listed server if no hosts)",
   "    rules host          fetch rules of a server",
   "    players host        fetch players of a server",
   "    rcon host command   execute a remote console command",
   "",
   "Options:"] ++ options.flatMap CommandOption.usage

def version : String := "condenser-query v0.1.0"

/-- The value of an option, if it is given. -/
def value? {α : Type} (given : GivenWords) (name what : String) (parse? : String → Option α) :
    Except UsageError (Option α) :=
  match given.argument? name with
  | none => .ok none
  | some text =>
    match parse? text with
    | some a => .ok (some a)
    | none => .error (.invalid what text)

/-- The values of the options. The first one that is not valid is reported. -/
def ofGiven (given : GivenWords) : Except UsageError Arguments := do
  let logLevel ← value? given "log" "log level" fun s => LogLevel.parse? s.toList
  let region ← value? given "region" "region" Region.parse?
  let filter ← value? given "filter" "filter" fun s => (Filter.parse s.toList).toOption
  let engine ← value? given "engine" "engine" Engine.parse?
  let timeout ← value? given "timeout" "timeout" fun s => Text.readNat UInt64.size s.toList
  let retries ← value? given "retries" "retries" fun s => Text.readNat UInt32.size s.toList
  return {
    configPath := given.argument? "config"
    logLevel, region, timeout, retries
    masters := (given.argument? "master").map fun s =>
      (Text.splitAtEach (· = ',') s.toList).map String.ofList
    filter := filter.getD {}
    force := given.has "force"
    engine := engine.getD .source
    password := given.argument? "password"
    json := given.has "json"
    words := given.words }

/-- Reads a command line. -/
def read (words : List String) : Except UsageError Invocation :=
  match CommandOption.read options words with
  | .error e => .error (.options e)
  | .ok given =>
    if given.has "help" then .ok .help
    else if given.has "version" then .ok .version
    else (ofGiven given).map .run

end Arguments

end GameQuery
