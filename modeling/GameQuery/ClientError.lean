import GameQuery.Error
import GameQuery.Net.Address

namespace GameQuery

/-!
# Client errors

Why a client got no answer, and the sentence that says so. Failures of the network are sorted into
those that may pass and those that will not.
-/

/-- A failure that the network reports. -/
inductive Failure where
  | timedOut
  /-- Nothing has arrived yet. -/
  | notReady
  | refused
  | reset
  | aborted
  | brokenPipe
  | notConnected
  | endOfStream
  | other
  deriving DecidableEq, Repr

/-- Why a client got no answer. -/
inductive ClientError where
  /-- Nothing arrived in time. -/
  | timeout
  | reset
  | refused
  /-- The peer has closed the connection, or there is none. -/
  | dropped
  /-- A packet cannot be read or written. -/
  | packet (e : CodecError)
  /-- A compressed reply is damaged. -/
  | corrupt (e : CodecError)
  /-- The server does not let this client use its console. -/
  | banned
  /-- There is no password, or the server does not accept it. -/
  | notAuthenticated
  /-- All attempts to get the next page have failed. -/
  | exhausted (attempts : UInt32) (servers : List SocketAddressV4)
  /-- The server has answered something else. -/
  | unexpected
  /-- No address belongs to the name. -/
  | noAddress (host : String)
  | other
  /-- The output of the console has a table that the reader does not survive. -/
  | crash
  /-- The caller's limit on requests is reached. -/
  | limit
  deriving DecidableEq, Repr

namespace ClientError

def message : ClientError → String
  | timeout => "Timed out"
  | reset => "Connection reset by peer"
  | refused => "Connection refused"
  | dropped => "Connection dropped"
  | packet e => "Invalid packet: " ++ e.message
  | corrupt e => "Corrupted payload: " ++ e.message
  | banned => "Banned by the server"
  | notAuthenticated => "RCON is not authenticated"
  | exhausted attempts servers =>
    "Master server discovery failed after " ++ String.ofList (Text.decimal attempts.toNat) ++
      " attempts (" ++ String.ofList (Text.decimal servers.length) ++ " servers received)"
  | unexpected => "Unexpected response"
  | noAddress host => "Failed to resolve \"" ++ host ++ "\""
  | other => "Input or output failed"
  | crash => "Status table without columns"
  | limit => "Too many requests"

/-- Whether the same request may succeed when it is sent again, or to another address. -/
def isTransport : ClientError → Bool
  | timeout | reset | refused => true
  | _ => false

/-- What a failure of the network means to a client. -/
def ofFailure : Failure → ClientError
  | .timedOut | .notReady => timeout
  | .reset | .aborted => reset
  | .refused => refused
  | .brokenPipe | .notConnected | .endOfStream => dropped
  | .other => other

/-- What a codec error means to a client. -/
def ofCodec (e : CodecError) : ClientError := if e.isCorrupt then corrupt e else packet e

end ClientError

end GameQuery
