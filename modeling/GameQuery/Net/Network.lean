import GameQuery.ClientError

namespace GameQuery

/-!
# The network around a client

What a client cannot decide is gathered in a `World`: how peers react, what addresses a name has,
and which ids chance picks. A world sees everything that has happened so far, so nothing is assumed
about peers but that they do not know the future. A `Network` is a world together with what has
happened in it.
-/

inductive Transport where
  | udp
  | tcp
  deriving DecidableEq, Repr

/-- What happens between a client and a peer. -/
inductive Event where
  /-- A socket is bound to the peer, or cannot be. -/
  | connected (transport : Transport) (peer : SocketAddress) (failure : Option Failure)
  /-- The client sends bytes, whether or not they can be sent. -/
  | sent (transport : Transport) (peer : SocketAddress) (bytes : List UInt8)
  /-- The client takes bytes that have arrived. -/
  | received (transport : Transport) (peer : SocketAddress) (bytes : List UInt8)
  /-- The client has waited for some milliseconds, and nothing has arrived. -/
  | timedOut (transport : Transport) (peer : SocketAddress) (wait : Nat)
  /-- The client shuts a stream down. -/
  | closed (peer : SocketAddress)
  deriving DecidableEq, Repr

/-- What waits for a client in the receive queue of a socket. -/
inductive Arrival where
  /-- A datagram, or a piece of a stream. -/
  | data (bytes : List UInt8)
  /-- One receive finds nothing. -/
  | silence
  /-- What follows comes some microseconds later, but in time. -/
  | delay (micros : Nat)
  | failure (failure : Failure)
  /-- The end of a stream, for good. -/
  | closed
  deriving DecidableEq, Repr

/-- What is outside of a client. The lists hold what has happened, the latest first. -/
structure World where
  /-- Whether a socket fails to be bound to a peer. -/
  connect : List Event → Transport → SocketAddress → Option Failure
  /-- What arrives in answer to bytes, unless they cannot even be sent. -/
  react : List Event → Transport → SocketAddress → List UInt8 → Except Failure (List Arrival)
  /-- The addresses of a name. -/
  resolve : String → Option (List HostAddress)
  /-- An id for a new console session. -/
  sessionId : List Event → UInt16

/-- What holds for every client that has no setting of its own. -/
structure Settings where
  /-- How many milliseconds a receive waits. -/
  timeout : Nat := 1000
  /-- How often a page is asked for. -/
  retries : Nat := 3
  deriving DecidableEq, Repr

namespace Settings

/-- The longest time that can be set, in milliseconds. -/
def maxTimeout : Nat := UInt64.size - 1

/-- Sets the time to wait, given in microseconds: whole milliseconds, at least one. -/
def setTimeout (s : Settings) (micros : Nat) : Settings :=
  { s with timeout := max 1 (min (micros / 1000) maxTimeout) }

def setRetries (s : Settings) (retries : Nat) : Settings := { s with retries := max 1 retries }

/-- How long a receive waits: as its caller says, else as its socket says, else as is set for all;
at least a millisecond. -/
def wait (s : Settings) (call socket : Option Nat) : Nat :=
  max 1 ((call.or socket).getD s.timeout)

end Settings

/-- How much a line of the log matters. -/
inductive LogLevel where
  | off
  | error
  | warn
  | info
  | debug
  | trace
  deriving DecidableEq, Repr

/-- A line of the log. -/
structure LogLine where
  level : LogLevel
  text : String
  deriving DecidableEq, Repr

/-- A world and what has happened in it. -/
structure Network where
  world : World
  settings : Settings := {}
  /-- Microseconds since the start. -/
  clock : Nat := 0
  /-- What has happened, the latest first. -/
  history : List Event := []
  /-- What the client has logged, the latest first. -/
  log : List LogLine := []

namespace Network

def record (n : Network) (e : Event) : Network := { n with history := e :: n.history }

def logLine (n : Network) (level : LogLevel) (text : String) : Network :=
  { n with log := ⟨level, text⟩ :: n.log }

/-- Lets some microseconds pass. -/
def pass (n : Network) (micros : Nat) : Network := { n with clock := n.clock + micros }

end Network

end GameQuery
