import GameQuery.Channel.Query
import GameQuery.Connection

namespace GameQuery

/-!
# Sessions with GoldSrc servers

Queries and console commands go in datagrams. Every command carries the password and a challenge
number, which the server gives to anyone who asks; a wrong password shows only in the answer to a
command. An HLTV proxy wants a new challenge number for every command and may not answer at all.
-/

/-- A session with a GoldSrc server. -/
structure GoldSrcSession where
  query : Option QueryChannel := none
  /-- The password, until the server refuses it. -/
  password : Option String := none
  /-- The last challenge number for commands. -/
  challenge : Option UInt32 := none
  /-- Whether the server is an HLTV proxy. -/
  isHltv : Bool := false
  timeout : Option Nat := none

namespace GoldSrcSession

/-- How an answer to a wrong password starts. -/
def badPassword : List Char := "Bad rcon_password.".toList

/-- How an answer to an old challenge number starts. -/
def badChallenge : List Char := "Bad challenge.".toList

/-- A word in the answer to a client that is not welcome. -/
def banWord : List Char := "banned".toList

def queryPart : Part GoldSrcSession QueryChannel where
  get? s := s.query
  put query s := { s with query := some query }

/-- How many arrivals wait to be received. -/
def queueLength (s : GoldSrcSession) : Nat := (s.query.map (·.queue.length)).getD 0

/-- Gives up the socket, and the password and the challenge number with it. -/
def disconnect : Dialog GoldSrcSession Unit :=
  Dialog.modifyState fun s => { s with query := none, password := none, challenge := none }

def openSockets (peer : SocketAddress) : Dialog GoldSrcSession Unit := do
  disconnect
  let query ← QueryChannel.connect peer .goldSrc
  Dialog.modifyState fun s => { s with query := some (query.setTimeout s.timeout) }

instance : SocketOwner GoldSrcSession := ⟨openSockets⟩

def setTimeout (timeout : Option Nat) (s : GoldSrcSession) : GoldSrcSession :=
  { s with timeout, query := s.query.map (·.setTimeout timeout) }

def sendLine (line : ConsoleLine) : Dialog GoldSrcSession Unit :=
  .on queryPart (QueryChannel.send (.console line))

/-- Receives console output. -/
def consoleText : Dialog GoldSrcSession String := do
  match ← Dialog.on queryPart (QueryChannel.reply none) with
  | .console text => return text
  | _ => throw .unexpected

def isBan (text : String) : Bool := Text.contains banWord text.toList

/-- The number at the end of an answer. -/
def lastNumber (text : String) : Option UInt32 :=
  ((Text.splitAtEach (· = ' ') (Text.trimEnd text.toList)).getLast?).bind Text.readUInt32

/-- Asks for a new challenge number. -/
def newChallenge : Dialog GoldSrcSession UInt32 := do
  sendLine .challenge
  let text ← consoleText
  if isBan text then throw .banned
  match lastNumber text with
  | none => throw (.packet .malformed)
  | some number =>
    Dialog.modifyState fun s => { s with challenge := some number }
    return number

/-- Keeps a password. The first command shows whether the server accepts it. -/
def authenticate (password : String) : Dialog GoldSrcSession Bool := do
  Dialog.modifyState fun s => { s with password := some password }
  return true

/-- The challenge number for the next command. -/
def challengeNumber : Dialog GoldSrcSession UInt32 := do
  let s ← Dialog.state
  match s.challenge with
  | some number => if s.isHltv then newChallenge else return number
  | none => newChallenge

/-- Receives the first text of an answer. An HLTV proxy may leave it out. -/
def firstText : Dialog GoldSrcSession String := do
  let s ← Dialog.state
  match ← Dialog.outcome consoleText with
  | .ok text => return text
  | .error e => if e = .timeout ∧ s.isHltv then return "" else throw e

/-- Sends a command. The answer is the challenge number it was sent with and the first text. -/
def ask (password command : String) : Dialog GoldSrcSession (UInt32 × String) := do
  let number ← challengeNumber
  sendLine (.exec number password command)
  let text ← firstText
  return (number, text)

/-- Fails if a text is a refusal. A refused password is forgotten. -/
def checkText (text : String) : Dialog GoldSrcSession Unit := do
  if isBan text then throw .banned
  if badPassword.isPrefixOf text.toList then
    Dialog.modifyState fun s => { s with password := none }
    throw .notAuthenticated

theorem queueLength_of_consoleText {w w' : GoldSrcSession × Network} {text : String}
    (h : consoleText w = .ok text w') : w'.1.queueLength < w.1.queueLength := by
  obtain ⟨r, v, h₁, h⟩ := Dialog.bind_eq_ok h
  obtain ⟨c, u, hc, hr, rfl⟩ := Dialog.on_eq_ok h₁
  have hlt := QueryChannel.queue_of_reply hr
  obtain ⟨⟨query, password, challenge, isHltv, timeout⟩, n⟩ := w
  cases hc
  cases r <;> cases h
  exact hlt

/-- Adds a text to those of an answer, the latest first. An empty one ends it, and so does
silence. -/
def restPass (texts : List String) : Dialog GoldSrcSession (Pass (List String) (List String)) := do
  match ← Dialog.outcome consoleText with
  | .ok text => if text = "" then return .done texts else return .again (text :: texts)
  | .error e => if e = .timeout then return .done texts else throw e

theorem restPass_again {texts texts' : List String} {w w' : GoldSrcSession × Network}
    (h : restPass texts w = .ok (.again texts') w') : w'.1.queueLength < w.1.queueLength := by
  obtain ⟨r, v, hr, h⟩ := Dialog.bind_eq_ok h
  cases r with
  | ok text =>
    have hlt := queueLength_of_consoleText (Dialog.outcome_eq_ok hr)
    simp only at h
    split at h <;> cases h
    exact hlt
  | error e =>
    simp only at h
    split at h <;> cases h

/-- Receives the rest of an answer, given its texts so far, the latest first. -/
def rest (texts : List String) : Dialog GoldSrcSession (List String) :=
  Dialog.iterate (fun _ s => s.queueLength) restPass restPass_again texts

/-- Sends a command and, if the challenge number is too old, sends it once more with a new one.
The answer is its output. -/
def execute (command : String) : Dialog GoldSrcSession String := do
  let s ← Dialog.state
  match s.password with
  | none => throw .notAuthenticated
  | some password =>
    let first ← ask password command
    let (number, text) ←
      if badChallenge.isPrefixOf first.2.toList then do
        Dialog.note .info ("rcon: challenge " ++ toString first.1 ++ " expired")
        Dialog.modifyState fun s => { s with challenge := none }
        ask password command
      else pure first
    checkText text
    if text = "" then return ""
    sendLine (.more number password)
    let texts ← rest [text]
    return String.intercalate " " texts.reverse

end GoldSrcSession

end GameQuery
