import GameQuery.Session.GoldSrc
import GameQuery.Session.Source

namespace GameQuery

/-!
# Sessions

A session with a game server of either engine.
-/

/-- A session with a game server. -/
inductive EngineSession where
  | source (session : SourceSession)
  | goldSrc (session : GoldSrcSession)

namespace EngineSession

def sourcePart : Part EngineSession SourceSession where
  get?
    | source s => some s
    | goldSrc _ => none
  put s _ := source s

def goldSrcPart : Part EngineSession GoldSrcSession where
  get?
    | source _ => none
    | goldSrc s => some s
  put s _ := goldSrc s

/-- The channel for queries, if there is one. -/
def queryPart : Part EngineSession QueryChannel where
  get?
    | source s => SourceSession.queryPart.get? s
    | goldSrc s => GoldSrcSession.queryPart.get? s
  put query
    | source s => source (SourceSession.queryPart.put query s)
    | goldSrc s => goldSrc (GoldSrcSession.queryPart.put query s)

/-- Does what the engine asks for. -/
def byEngine {α : Type} (ofSource : Dialog SourceSession α) (ofGoldSrc : Dialog GoldSrcSession α) :
    Dialog EngineSession α := do
  match ← Dialog.state with
  | source _ => .on sourcePart ofSource
  | goldSrc _ => .on goldSrcPart ofGoldSrc

instance : SocketOwner EngineSession where
  openSockets peer := byEngine (SourceSession.openSockets peer) (GoldSrcSession.openSockets peer)

/-- Whether there are sockets. -/
def isOpen (s : EngineSession) : Bool := (queryPart.get? s).isSome

/-- Whether commands can be sent. -/
def authenticated : EngineSession → Bool
  | source s => s.authenticated
  | goldSrc s => s.password.isSome

/-- The last challenge number for commands, if the engine has any. -/
def challenge : EngineSession → Option UInt32
  | source _ => none
  | goldSrc s => s.challenge

def setTimeout (timeout : Option Nat) : EngineSession → EngineSession
  | source s => source (s.setTimeout timeout)
  | goldSrc s => goldSrc (s.setTimeout timeout)

/-- Gives up all sockets and the console session. -/
def disconnect : Dialog EngineSession Unit :=
  byEngine SourceSession.disconnect GoldSrcSession.disconnect

/-- Sets a password. The answer is whether commands can be sent. -/
def authenticate (password : String) : Dialog EngineSession Bool :=
  byEngine (SourceSession.authenticate password) (GoldSrcSession.authenticate password)

/-- Sends a command. The answer is its output. -/
def execute (command : String) : Dialog EngineSession String :=
  byEngine (SourceSession.execute command) (GoldSrcSession.execute command)

end EngineSession

end GameQuery
