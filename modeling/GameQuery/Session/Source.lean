import GameQuery.Channel.Console
import GameQuery.Channel.Query
import GameQuery.Connection

namespace GameQuery

/-!
# Sessions with Source servers

Queries go in datagrams and console commands over a stream to the same port. The console accepts
commands once it has accepted a password, and everything in a session has the id that the password
was sent with.

An answer may take many frames. A client sends an empty frame behind the first of them; the server
sends it back, followed by an echo, when all is said.
-/

/-- A session with a Source server. -/
structure SourceSession where
  query : Option QueryChannel := none
  console : Option ConsoleChannel := none
  /-- The id that the last password was sent with. -/
  requestId : Int32 := 0
  /-- Whether the console has accepted a password. -/
  authenticated : Bool := false
  timeout : Option Nat := none

namespace SourceSession

def queryPart : Part SourceSession QueryChannel where
  get? s := s.query
  put query s := { s with query := some query }

def consolePart : Part SourceSession ConsoleChannel where
  get? s := s.console
  put console s := { s with console := some console }

/-- What can still be received from the console. -/
def consoleWeight (s : SourceSession) : Nat := (s.console.map ConsoleChannel.weight).getD 0

/-- Gives up both channels. -/
def disconnect : Dialog SourceSession Unit := do
  let s ← Dialog.state
  if s.console.isSome then .on consolePart ConsoleChannel.close
  Dialog.modifyState fun s => { s with query := none, console := none, authenticated := false }

def openSockets (peer : SocketAddress) : Dialog SourceSession Unit := do
  disconnect
  let query ← QueryChannel.connect peer .source
  Dialog.modifyState fun s =>
    { s with
      query := some (query.setTimeout s.timeout)
      console := some { peer, timeout := s.timeout } }

instance : SocketOwner SourceSession := ⟨openSockets⟩

def setTimeout (timeout : Option Nat) (s : SourceSession) : SourceSession :=
  { s with
    timeout
    query := s.query.map (·.setTimeout timeout)
    console := s.console.map (·.setTimeout timeout) }

/-- Receives a frame in answer to a password. A server that closes the stream has banned the
client. -/
def authFrame : Dialog ConsoleChannel Rcon.Reply := do
  match ← ConsoleChannel.reply none with
  | some r => return r
  | none => throw .banned

/-- Sends a password over a new stream. Some servers answer with an empty value first. -/
def askPassword (id : Int32) (password : String) : Dialog ConsoleChannel Rcon.Reply := do
  ConsoleChannel.close
  ConsoleChannel.send (.auth id password)
  let first ← authFrame
  if first.kind = .value ∧ first.body = "" then authFrame else return first

/-- Starts a new console session. The answer is whether the password is accepted. -/
def authenticate (password : String) : Dialog SourceSession Bool := do
  let n ← Dialog.network
  let id := Int32.ofNat (n.world.sessionId n.history).toNat
  Dialog.modifyState fun s => { s with authenticated := false, requestId := id }
  let r ← Dialog.on consolePart (askPassword id password)
  if r.kind ≠ .auth then throw .unexpected
  let accepted := r.id = id
  Dialog.modifyState fun s => { s with authenticated := accepted }
  unless accepted do
    Dialog.note .info ("rcon: authentication failed (id " ++ toString r.id ++ ")")
  return accepted

/-- Receives the next frame of an answer. Any sign that the session is lost ends it. -/
def frame : Dialog SourceSession Rcon.Reply := do
  let s ← Dialog.state
  match ← Dialog.on consolePart (ConsoleChannel.reply none) with
  | none =>
    Dialog.modifyState fun s => { s with authenticated := false }
    throw .notAuthenticated
  | some r =>
    if r.kind = .auth ∨ r.id ≠ s.requestId then
      Dialog.modifyState fun s => { s with authenticated := false }
      .on consolePart ConsoleChannel.close
      throw .notAuthenticated
    return r

/-- Every frame that is received leaves less to be received. -/
theorem consoleWeight_of_frame {w w' : SourceSession × Network} {r : Rcon.Reply}
    (h : frame w = .ok r w') : w'.1.consoleWeight < w.1.consoleWeight := by
  obtain ⟨s, v, h₁, h⟩ := Dialog.bind_eq_ok h
  cases h₁
  obtain ⟨r', v, h₁, h⟩ := Dialog.bind_eq_ok h
  cases r' with
  | none =>
    obtain ⟨u, v, _, h⟩ := Dialog.bind_eq_ok h
    cases h
  | some r' =>
    simp only at h
    split at h
    · obtain ⟨u, v, _, h⟩ := Dialog.bind_eq_ok h
      obtain ⟨u, v, _, h⟩ := Dialog.bind_eq_ok h
      cases h
    · cases h
      obtain ⟨c, v, hc, hr, rfl⟩ := Dialog.on_eq_ok h₁
      have hlt := ConsoleChannel.weight_of_reply hr
      obtain ⟨⟨query, console, id, auth, timeout⟩, n⟩ := w
      cases hc
      exact hlt

/-- Receives a frame, and skips it if it is an echo. -/
def outputPass : Dialog SourceSession (Pass Unit Rcon.Reply) := do
  let r ← frame
  return if r.isEcho then .again () else .done r

theorem outputPass_again {w w' : SourceSession × Network} {p : Pass Unit Rcon.Reply}
    (h : outputPass w = .ok p w') : w'.1.consoleWeight < w.1.consoleWeight := by
  obtain ⟨r, v, hr, h⟩ := Dialog.bind_eq_ok h
  cases h
  exact consoleWeight_of_frame hr

/-- Receives the next frame that is no echo. -/
def output : Dialog SourceSession Rcon.Reply :=
  Dialog.iterate (fun _ s => s.consoleWeight) (fun _ => outputPass) outputPass_again ()

/-- Takes the echo behind the end of an answer. A server may leave it out. -/
def takeEcho : Dialog SourceSession Unit := do
  match ← Dialog.outcome frame with
  | .ok _ | .error .timeout => return
  | .error e => throw e

/-- Adds a frame to the answer so far. An empty one ends it. -/
def collectPass (answer : String) : Dialog SourceSession (Pass String String) := do
  let r ← frame
  if r.isEcho then return .again answer
  if r.body = "" then
    takeEcho
    return .done answer
  return .again (answer ++ r.body)

theorem collectPass_again {answer answer' : String} {w w' : SourceSession × Network}
    (h : collectPass answer w = .ok (.again answer') w') :
    w'.1.consoleWeight < w.1.consoleWeight := by
  obtain ⟨r, v, hr, h⟩ := Dialog.bind_eq_ok h
  have hlt := consoleWeight_of_frame hr
  split at h
  · cases h
    exact hlt
  · split at h
    · obtain ⟨u, v, _, h⟩ := Dialog.bind_eq_ok h
      cases h
    · cases h
      exact hlt

/-- Receives the rest of an answer. -/
def collect (answer : String) : Dialog SourceSession String :=
  Dialog.iterate (fun _ s => s.consoleWeight) collectPass collectPass_again answer

/-- Sends a command. The answer is its output, without blanks at both ends. -/
def execute (command : String) : Dialog SourceSession String := do
  let s ← Dialog.state
  unless s.authenticated do throw .notAuthenticated
  .on consolePart (ConsoleChannel.send (.exec s.requestId command))
  let first ← output
  if first.body = "" then return ""
  .on consolePart (ConsoleChannel.send (.terminator s.requestId))
  let answer ← collect first.body
  return String.ofList (Text.trim answer.toList)

end SourceSession

end GameQuery
