import GameQuery.Bytes.Reader
import GameQuery.Bytes.Writer
import GameQuery.Text.Blank

namespace GameQuery

/-!
# Requests to a game server

Every request starts with the header of a whole datagram. Information, players and rules are asked
for with a letter and a challenge number; the console of GoldSrc servers takes lines of text.
-/

/-- The challenge number of a client that has none. -/
def noChallenge : Int32 := -1

/-- Asks for server information. Some servers want a challenge number with it. -/
structure InfoRequest where
  challenge : Option Int32 := none
  deriving DecidableEq, Repr

/-- Asks for the players. -/
structure PlayersRequest where
  challenge : Int32 := noChallenge
  deriving DecidableEq, Repr

/-- Asks for the rules. -/
structure RulesRequest where
  challenge : Int32 := noChallenge
  deriving DecidableEq, Repr

/-- A line for the console of a GoldSrc server. -/
inductive ConsoleLine where
  /-- Asks for a challenge number. -/
  | challenge
  | exec (challenge : UInt32) (password command : String)
  /-- Asks for the rest of a long answer. -/
  | more (challenge : UInt32) (password : String)
  deriving DecidableEq, Repr

/-- The start of every request. -/
def requestStart : List UInt8 := [0xFF, 0xFF, 0xFF, 0xFF]

namespace InfoRequest

/-- A letter and a phrase that ends in NUL. -/
def start : List UInt8 := requestStart ++ 0x54 :: Text.Utf8.encode "Source Engine Query" ++ [0]

def read : Reader InfoRequest := do
  Reader.literal start
  if ← Reader.atEnd then return {}
  let challenge ← Reader.i32
  Reader.finish
  return { challenge := some challenge }

def decode (s : List UInt8) : Except CodecError InfoRequest := Reader.decode read s

def write (r : InfoRequest) : Writer Unit := do
  Writer.bytes start
  match r.challenge with
  | some n => Writer.i32 n
  | none => pure ()

def encode (r : InfoRequest) (buffer : List UInt8) : Except CodecError Writer.Filled :=
  r.write.encode buffer

end InfoRequest

/-- Reads a fixed start and a challenge number behind it. -/
def readChallenge (start : List UInt8) : Reader Int32 := do
  Reader.literal start
  let challenge ← Reader.i32
  Reader.finish
  return challenge

def writeChallenge (start : List UInt8) (challenge : Int32) : Writer Unit := do
  Writer.bytes start
  Writer.i32 challenge

namespace PlayersRequest

def start : List UInt8 := requestStart ++ [0x55]

def decode (s : List UInt8) : Except CodecError PlayersRequest :=
  Reader.decode (PlayersRequest.mk <$> readChallenge start) s

def write (r : PlayersRequest) : Writer Unit := writeChallenge start r.challenge

def encode (r : PlayersRequest) (buffer : List UInt8) : Except CodecError Writer.Filled :=
  r.write.encode buffer

end PlayersRequest

namespace RulesRequest

def start : List UInt8 := requestStart ++ [0x56]

def decode (s : List UInt8) : Except CodecError RulesRequest :=
  Reader.decode (RulesRequest.mk <$> readChallenge start) s

def write (r : RulesRequest) : Writer Unit := writeChallenge start r.challenge

def encode (r : RulesRequest) (buffer : List UInt8) : Except CodecError Writer.Filled :=
  r.write.encode buffer

end RulesRequest

namespace ConsoleLine

/-- The line that asks for a challenge number. -/
def challengeText : List Char := "challenge rcon".toList

/-- The first word of all other lines. -/
def commandStart : List Char := "rcon ".toList

/-- Reads what follows the first word: a number, a password, and a command if a space follows the
password. -/
def parseArguments (text : List Char) : Option ConsoleLine := do
  let (number, rest) ← Text.splitOnce ' ' text
  let number ← Text.readUInt32 number
  match Text.splitOnce ' ' rest with
  | some (password, command) =>
    return exec number (String.ofList password) (String.ofList command)
  | none => return more number (String.ofList rest)

def parse (text : List Char) : Option ConsoleLine :=
  if text = challengeText then some challenge
  else if commandStart.isPrefixOf text then parseArguments (text.drop commandStart.length)
  else none

def read : Reader ConsoleLine := do
  Reader.literal requestStart
  let remaining ← get
  let text ← Reader.text remaining.length
  match parse text.toList with
  | some line => return line
  | none => throw .malformed

def decode (s : List UInt8) : Except CodecError ConsoleLine := Reader.decode read s

/-- Writes the first word, the number and the password. -/
def writeCommand (number : UInt32) (password : String) : Writer Unit := do
  Writer.chars commandStart
  Writer.chars (Text.decimal number.toNat)
  Writer.u8 0x20
  Writer.text password

def write (line : ConsoleLine) : Writer Unit := do
  Writer.bytes requestStart
  match line with
  | challenge => Writer.chars challengeText
  | exec number password command => do
    writeCommand number password
    Writer.u8 0x20
    Writer.text command
  | more number password => writeCommand number password

def encode (line : ConsoleLine) (buffer : List UInt8) : Except CodecError Writer.Filled :=
  line.write.encode buffer

end ConsoleLine

/-- A datagram that a client sends to a game server. -/
inductive Request where
  | info (request : InfoRequest)
  | players (request : PlayersRequest)
  | rules (request : RulesRequest)
  | console (line : ConsoleLine)
  deriving DecidableEq, Repr

def Request.write : Request → Writer Unit
  | info r => r.write
  | players r => r.write
  | rules r => r.write
  | console line => line.write

end GameQuery
