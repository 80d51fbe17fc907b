import GameQuery.Cache
import GameQuery.Session.Engine
import GameQuery.StatusTable

namespace GameQuery

/-!
# Game servers

A client of one game server. Replies are kept until the client moves on to another address.

A server may answer a request with a challenge number instead, or with something else that is
kept too. The request is then sent once more, with the latest challenge number.
-/

/-- A client of a game server. -/
structure GameServer where
  connection : Connection EngineSession
  cache : ServerCache := {}

namespace GameServer

def connectionPart : Part GameServer (Connection EngineSession) :=
  .field (·.connection) fun connection s => { s with connection }

def enginePart : Part GameServer EngineSession := connectionPart.comp Connection.ownerPart

def queryPart : Part GameServer QueryChannel := enginePart.comp EngineSession.queryPart

def endpoint (s : GameServer) : Endpoint := s.connection.endpoint

def engine (s : GameServer) : EngineSession := s.connection.owner

/-- The active address. -/
def address (s : GameServer) : SocketAddress := s.endpoint.address

/-- A client of the active address of an endpoint. -/
def connect {σ : Type} (endpoint : Endpoint) (engine : EngineSession) : Dialog σ GameServer := do
  let connection ← Connection.establish endpoint engine
  return { connection }

def setTimeout (timeout : Option Nat) (s : GameServer) : GameServer :=
  { s with connection := { s.connection with owner := s.connection.owner.setTimeout timeout } }

/-- Forgets all replies. -/
def clearCache (s : GameServer) : GameServer := { s with cache := {} }

/-- Moves on to the next address. The answer is whether this is the first one again. -/
def rotate : Dialog GameServer Bool := do
  Dialog.modifyState clearCache
  .on connectionPart Connection.rotate

/-- Gives up all sockets. The next request opens new ones. -/
def disconnect : Dialog GameServer Unit := .on enginePart EngineSession.disconnect

/-- Opens the sockets, unless they are open. -/
def ensureOpen : Dialog GameServer Unit := do
  let s ← Dialog.state
  unless s.engine.isOpen do .on connectionPart Connection.reconnect

/-- The request for a category. -/
def requestFor (category : Category) (challenge : Int32) (infoChallenge : Option Int32) : Request :=
  match category with
  | .ping | .info => .info { challenge := infoChallenge }
  | .challenge => .players {}
  | .players => .players { challenge }
  | .rules => .rules { challenge }

def store (r : Reply) (s : GameServer) : GameServer := { s with cache := s.cache.store r }

/-- Sends a request and keeps the reply. The answer is the category of the reply. -/
def exchange (category : Category) (infoChallenge : Option Int32) :
    Dialog GameServer (Option Category) := do
  let s ← Dialog.state
  let challenge := s.cache.challenge.getD noChallenge
  ensureOpen
  .on queryPart (QueryChannel.send (requestFor category challenge infoChallenge))
  let r ← Dialog.on queryPart (QueryChannel.reply none)
  Dialog.modifyState (store r)
  return Category.ofReply r

/-- Brings a category up to date, with one more request if the first reply is of another. -/
def update (category : Category) : Dialog GameServer Unit := do
  unless (← exchange category none) = some category do
    let s ← Dialog.state
    unless (← exchange category s.cache.challenge) = some category do throw .unexpected

/-- Measures how many microseconds the server takes to answer. -/
def updatePing : Dialog GameServer Nat := do
  ensureOpen
  let start ← Dialog.network
  .on queryPart (QueryChannel.send (.info {}))
  let r ← Dialog.on queryPart (QueryChannel.reply none)
  let now ← Dialog.network
  let ping := now.clock - start.clock
  Dialog.modifyState fun s => { s with cache := { s.cache.store r with ping := some ping } }
  return ping

/-- Sets the password of the console. The answer is whether commands can be sent. -/
def authenticate (password : String) : Dialog GameServer Bool := do
  ensureOpen
  .on enginePart (EngineSession.authenticate password)

/-- Sends a console command. The answer is its output. -/
def execute (command : String) : Dialog GameServer String :=
  .on enginePart (EngineSession.execute command)

/-- Adds what the status table in some console output tells to the players. -/
def mergeStatus (output : String) : Dialog GameServer Unit := do
  match StatusTable.rows output.toList with
  | none => throw .crash
  | some rows =>
    (rows.filterMap StatusRow.warning?).forM (Dialog.note .warn)
    Dialog.modifyState fun s =>
      { s with
        cache := { s.cache with
          players := s.cache.players.map fun players =>
            (StatusTable.applyEntries (rows.filterMap StatusRow.entry?) players).2 } }

/-- Asks the console for what it knows of the players. -/
def extendPlayers (password : String) : Dialog GameServer Unit := do
  let s ← Dialog.state
  unless s.engine.authenticated do
    unless ← authenticate password do throw .notAuthenticated
  mergeStatus (← execute "status")

/-- Brings the players up to date. With a password, the console is asked about them too. -/
def updatePlayers (password : Option String) : Dialog GameServer Unit := do
  update .players
  match password with
  | none => return
  | some password =>
    let s ← Dialog.state
    unless (s.cache.players.getD []).isEmpty do extendPlayers password

/-- Measures how long the server takes to answer, and fetches its information and a challenge
number. -/
def updateBasics : Dialog GameServer Unit := do
  let _ ← updatePing
  update .info
  update .challenge

/-- What is kept of the server, or an error if it is not there. -/
def kept {α : Type} (get : ServerCache → Option α) : Dialog GameServer α := do
  let s ← Dialog.state
  match get s.cache with
  | some a => return a
  | none => throw .unexpected

/-- How many microseconds the server takes to answer. -/
def ping : Dialog GameServer Nat := do
  let s ← Dialog.state
  match s.cache.ping with
  | some ping => return ping
  | none => updatePing

def info : Dialog GameServer ServerInfo := do
  let s ← Dialog.state
  unless s.cache.contains .info do update .info
  kept (·.info)

def rules : Dialog GameServer Rules := do
  let s ← Dialog.state
  unless s.cache.contains .rules do update .rules
  kept (·.rules)

def players : Dialog GameServer (List Player) := do
  let s ← Dialog.state
  unless s.cache.contains .players do updatePlayers none
  kept (·.players)

/-- Tries the active address and, after errors that may pass, up to `n` further addresses. -/
def tryAddresses {α : Type} (d : Dialog GameServer α) : Nat → Dialog GameServer α
  | 0 => d
  | n + 1 => do
    match ← Dialog.outcome d with
    | .ok a => return a
    | .error e =>
      unless e.isTransport do throw e
      let s ← Dialog.state
      Dialog.note .debug (toString s.address ++ ": " ++ e.message)
      if ← rotate then throw e
      tryAddresses d n

/-- Tries one address after another, until the next one is the first again. There are not more tries
than addresses, unless a try itself makes another address active. The tool tries nothing that does,
and only such a try could come to the end of the bound on their number. -/
def withFailover {α : Type} (d : Dialog GameServer α) : Dialog GameServer α := do
  let s ← Dialog.state
  tryAddresses d s.endpoint.addresses.length

end GameServer

end GameQuery
