import GameQuery.CommandLine.Command
import GameQuery.Config
import GameQuery.GameServer
import GameQuery.MasterServer
import GameQuery.Net.AddressOrder
import GameQuery.Report

namespace GameQuery

/-!
# The query tool

Carries out the command of a command line: asks servers, and reports what they say. A server with
several addresses is asked at one after another, as long as there is no answer.
-/

/-- What holds for a run: what the command line says, with what the configuration adds. -/
structure Job where
  arguments : Arguments
  config : Config
  /-- How many pages may be asked for. -/
  limit : Nat

namespace Job

/-- The addresses that master servers list, as texts: in order, each of them once. If some pages are
missing, it is what there is. -/
def fetchServers (j : Job) : Dialog Unit (List String) := do
  let n ← Dialog.network
  let endpoint ←
    Dialog.ofExcept (Endpoint.resolveAll n.world.resolve j.config.masters masterPort)
  let master ← MasterServer.connect endpoint
  let servers ← Dialog.within (master.setRetries j.arguments.retries) do
    let found ← Dialog.outcome (MasterServer.getServers j.limit j.config.region
      (String.ofList j.arguments.filter.text) j.arguments.force)
    match found with
    | .ok servers => return servers
    | .error (.exhausted attempts servers) =>
      MasterServer.noteEndpoint .warn ("discovery stopped after " ++ toString attempts ++
        " failed attempts, " ++ toString servers.length ++ " servers received")
      return servers
    | .error e => throw e
  return dropRepeats (sortByHost id (servers.map fun a => String.ofList a.text))

/-- Talks to a server, and leaves it. The answer has the address that was active at the end. -/
def visit {α : Type} (j : Job) (host : String) (d : Dialog GameServer α) :
    Dialog Unit (SocketAddress × α) := do
  let n ← Dialog.network
  let endpoint ← Dialog.ofExcept (Endpoint.resolve n.world.resolve host gamePort)
  let server ← GameServer.connect endpoint j.arguments.engine.session
  Dialog.within server do
    let r ← Dialog.outcome d
    let s ← Dialog.state
    GameServer.disconnect
    return (s.address, ← Dialog.ofExcept r)

/-- How long a server takes to answer, and its information. -/
def fetchInfo : Dialog GameServer (Nat × ServerInfo) :=
  GameServer.withFailover do
    let ping ← GameServer.ping
    let info ← GameServer.info
    return (ping, info)

/-- Asks a host for its information. -/
def reportOn (j : Job) (host : String) : Dialog Unit ServerReport := do
  match ← Dialog.outcome (j.visit host fetchInfo) with
  | .ok (_, ping, info) => return ⟨host, .answered ping info⟩
  | .error .timeout => return ⟨host, .timedOut⟩
  | .error e => return ⟨host, .failed e.message⟩

/-- The players of a server, with what the console tells about them if there is a password. -/
def fetchPlayers (password : Option String) : Dialog GameServer (List Player) := do
  GameServer.withFailover (GameServer.updatePlayers password)
  let s ← Dialog.state
  return s.cache.players.getD []

/-- The output of a console command, if the server accepts the password. -/
def execute (password command : String) : Dialog GameServer (Option String) := do
  if ← GameServer.withFailover (GameServer.authenticate password) then
    some <$> GameServer.execute command
  else return none

/-- Carries out a command. -/
def perform (j : Job) : Command → Dialog Unit (Except CommandError Report)
  | .list => do
    let servers ← j.fetchServers
    return .ok (.listing j.config.masters j.config.region j.arguments.filter servers)
  | .info hosts => do
    let hosts ← if hosts.isEmpty then j.fetchServers else pure hosts
    let reports ← hosts.mapM j.reportOn
    return .ok (.servers j.config.timeout (sortByHost (·.host) reports))
  | .rules host => do
    let (address, rules) ← j.visit host (GameServer.withFailover GameServer.rules)
    return .ok (.rules address rules)
  | .players host => do
    let (address, players) ← j.visit host (fetchPlayers j.arguments.password)
    return .ok (.players address players)
  | .console host command password => do
    match ← j.visit host (execute password command) with
    | (address, some output) => return .ok (.output address command output)
    | (_, none) => return .error .passwordRefused

/-- Carries out the command of a job, if there is one. -/
def outcome (j : Job) (n : Network) : Except CommandError Report × Network :=
  match Command.ofWords j.arguments.password j.arguments.words with
  | .error e => (.error e, n)
  | .ok command =>
    match j.perform command ((), n) with
    | .ok r (_, n) => (r, n)
    | .error e (_, n) => (.error (.client e), n)

end Job

/-- What a run leaves behind: an exit code, and lines for both outputs. -/
structure Outcome where
  code : Nat := 0
  stdout : List String := []
  stderr : List String := []
  deriving DecidableEq, Repr

namespace QueryTool

/-- The configuration of a run. -/
def configOf (readFile : String → Option (List UInt8)) (a : Arguments) : Except String Config :=
  match a.configPath with
  | none => .ok (Config.override {} a)
  | some path =>
    match (readFile path).bind Config.decode? with
    | some c => .ok (c.override a)
    | none => .error ("Failed to load config \"" ++ path ++ "\": not a configuration")

/-- Carries out a job in a network. -/
def runJob (j : Job) (n : Network) : Outcome × Network :=
  let (result, n) := j.outcome { n with settings := j.config.settings n.settings }
  let log := shownLines j.config.logLevel n.log
  match result with
  | .ok report => ({ stdout := report.lines j.arguments.json, stderr := log }, n)
  | .error e => ({ code := e.code, stderr := log ++ ["error: " ++ e.message] }, n)

/-- Runs the tool with the words of a command line. At most `limit` pages are asked for. -/
def run (limit : Nat) (readFile : String → Option (List UInt8)) (words : List String)
    (n : Network) : Outcome × Network :=
  match Arguments.read words with
  | .error e => ({ code := 1, stderr := [e.message] }, n)
  | .ok .help => ({ stdout := Arguments.usage }, n)
  | .ok .version => ({ stdout := [Arguments.version] }, n)
  | .ok (.run a) =>
    match configOf readFile a with
    | .error message => ({ code := 1, stderr := [message] }, n)
    | .ok config => runJob { arguments := a, config, limit } n

end QueryTool

end GameQuery
