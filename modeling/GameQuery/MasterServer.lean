import GameQuery.Channel.Listing
import GameQuery.Connection

namespace GameQuery

/-!
# Discovery

A client of a master server collects the addresses of game servers page by page. The cursor of a
request is the last address collected so far. A page is asked for several times; when all attempts
have failed, the next address of the master server may be tried, from the same cursor.
-/

/-- The sockets of a client of a master server. -/
structure MasterSession where
  channel : Option ListingChannel := none
  timeout : Option Nat := none

namespace MasterSession

def channelPart : Part MasterSession ListingChannel where
  get? s := s.channel
  put channel s := { s with channel := some channel }

def openSockets (peer : SocketAddress) : Dialog MasterSession Unit := do
  Dialog.modifyState fun s => { s with channel := none }
  let channel ← ListingChannel.connect peer
  Dialog.modifyState fun s => { s with channel := some (channel.setTimeout s.timeout) }

instance : SocketOwner MasterSession := ⟨openSockets⟩

def setTimeout (timeout : Option Nat) (s : MasterSession) : MasterSession :=
  { timeout, channel := s.channel.map (·.setTimeout timeout) }

end MasterSession

/-- What the addresses of a page come to. -/
structure Harvest where
  /-- The addresses that are new. -/
  found : List SocketAddressV4
  /-- Whether the page is the last one. -/
  isLast : Bool
  deriving DecidableEq, Repr

namespace Harvest

/-- What a page brings: the addresses before the sentinel, without the cursor at its head. -/
def ofPage (cursor : SocketAddressV4) (page : List SocketAddressV4) : Harvest :=
  let listed := page.takeWhile (· ≠ sentinel)
  { found := if listed.head? = some cursor then listed.tail else listed
    isLast := sentinel ∈ page }

end Harvest

/-- How far a discovery has come. -/
structure Progress where
  servers : List SocketAddressV4 := []
  /-- The last address collected. -/
  cursor : SocketAddressV4 := sentinel
  /-- Failed attempts in a row. There are no more of them than a page is asked for. -/
  failed : Nat := 0
  /-- All failed attempts. The counter wraps. -/
  allFailed : UInt32 := 0
  deriving DecidableEq, Repr

namespace Progress

/-- Adds new addresses. -/
def collect (p : Progress) (found : List SocketAddressV4) : Progress :=
  { p with servers := p.servers ++ found, cursor := found.getLast?.getD p.cursor, failed := 0 }

/-- Counts a failed attempt. -/
def fail (p : Progress) : Progress :=
  { p with failed := p.failed + 1, allFailed := p.allFailed + 1 }

/-- Starts to count anew at another address. -/
def moveOn (p : Progress) : Progress := { p with failed := 0 }

end Progress

/-- A client of a master server. -/
structure MasterServer where
  connection : Connection MasterSession
  /-- How often a page is asked for, if not as is set for all. -/
  retries : Option Nat := none

namespace MasterServer

def connectionPart : Part MasterServer (Connection MasterSession) :=
  .field (·.connection) fun connection s => { s with connection }

def channelPart : Part MasterServer ListingChannel :=
  (connectionPart.comp Connection.ownerPart).comp MasterSession.channelPart

def endpoint (s : MasterServer) : Endpoint := s.connection.endpoint

/-- A client of the active address of an endpoint. -/
def connect {σ : Type} (endpoint : Endpoint) : Dialog σ MasterServer := do
  let connection ← Connection.establish endpoint {}
  return { connection }

def setTimeout (timeout : Option Nat) (s : MasterServer) : MasterServer :=
  { s with connection := { s.connection with owner := s.connection.owner.setTimeout timeout } }

def setRetries (retries : Option Nat) (s : MasterServer) : MasterServer :=
  { s with retries := retries.map (max 1) }

/-- How often a page is asked for. -/
def attempts (s : MasterServer) (settings : Settings) : Nat := s.retries.getD settings.retries

/-- Asks for the page behind a cursor, with new sockets if there are none. -/
def fetchPage (region : Region) (filter : String) (cursor : SocketAddressV4) :
    Dialog MasterServer Harvest := do
  let s ← Dialog.state
  unless s.connection.owner.channel.isSome do .on connectionPart Connection.reconnect
  .on channelPart (ListingChannel.send { region, last := cursor, filter })
  let page ← Dialog.on channelPart ListingChannel.reply
  return Harvest.ofPage cursor page

/-- Adds a line about the endpoint to the log. -/
def noteEndpoint (level : LogLevel) (text : String) : Dialog MasterServer Unit := do
  let s ← Dialog.state
  Dialog.note level (toString s.endpoint ++ ": " ++ text)

/-- What is to be done after an attempt. -/
inductive Next where
  | finish (servers : List SocketAddressV4)
  | resume (progress : Progress)

/-- Goes on after a failed attempt: at the same address as long as there are attempts left, then,
if forced, at the next address, until it is the first one again. -/
def afterFailure (force : Bool) (attempts : Nat) (progress : Progress) :
    Dialog MasterServer Next := do
  let p := progress.fail
  if p.failed < attempts then
    noteEndpoint .info ("retrying page after " ++ String.ofList p.cursor.text ++ " (" ++
      toString p.failed ++ "/" ++ toString attempts ++ ")")
    return .resume p
  if force then
    unless ← Dialog.on connectionPart Connection.rotate do return .resume p.moveOn
  throw (.exhausted p.allFailed p.servers)

/-- One attempt to get a page. -/
def step (region : Region) (filter : String) (force : Bool) (attempts : Nat) (p : Progress) :
    Dialog MasterServer Next := do
  match ← Dialog.outcome (fetchPage region filter p.cursor) with
  | .ok harvest =>
    let q := p.collect harvest.found
    if harvest.isLast then
      noteEndpoint .debug ("received " ++ toString q.servers.length ++ " servers")
      return .finish q.servers
    if harvest.found ≠ [] then return .resume q
    noteEndpoint .debug ("no new servers after " ++ String.ofList p.cursor.text)
    afterFailure force attempts p
  | .error e =>
    unless e.isTransport do throw e
    noteEndpoint .debug e.message
    afterFailure force attempts p

/-- Goes on with a discovery, for at most `limit` attempts. -/
def resume (region : Region) (filter : String) (force : Bool) (attempts : Nat) :
    Nat → Progress → Dialog MasterServer (List SocketAddressV4)
  | 0, _ => throw .limit
  | limit + 1, p => do
    match ← step region filter force attempts p with
    | .finish servers => return servers
    | .resume p => resume region filter force attempts limit p

/-- Collects the addresses of all game servers in a region that pass a filter, in at most `limit`
attempts. A master server that keeps sending addresses could make a discovery last forever. -/
def getServers (limit : Nat) (region : Region) (filter : String) (force : Bool) :
    Dialog MasterServer (List SocketAddressV4) := do
  let s ← Dialog.state
  let n ← Dialog.network
  resume region filter force (s.attempts n.settings) limit {}

end MasterServer

end GameQuery
