import GameQuery.Player
import GameQuery.Reply.Info
import GameQuery.Reply.Rules
import GameQuery.Text.Blank

namespace GameQuery

/-!
# Replies of a game server

A reply starts with the header of a whole datagram and a byte that tells its kind.
-/

/-- The header of a datagram that is a whole packet. -/
def wholeHeader : Int32 := -1

/-- The header of a datagram that is a fragment of a packet. -/
def fragmentHeader : Int32 := -2

/-- A reply of a game server. -/
inductive Reply where
  | info (info : ServerInfo)
  | players (players : List Player)
  | rules (rules : Rules)
  /-- A number to be repeated in the next request. -/
  | challenge (number : Int32)
  /-- Output of the console. -/
  | console (text : String)
  /-- A line of the server's log. -/
  | log (text : String)
  deriving DecidableEq

namespace Player

def read : Reader Player := do
  let index ← Reader.u8
  let name ← Reader.lossyText
  let score ← Reader.i32
  let time ← Reader.u32
  return { index, name, score, time := ⟨time⟩ }

def write (p : Player) : Writer Unit := do
  Writer.u8 p.index
  Writer.textNul p.name
  Writer.i32 p.score
  Writer.u32 p.time.bits

/-- Reads players until no byte remains, at most `n` of them. -/
def readMany : Nat → Reader (List Player)
  | 0 => pure []
  | n + 1 => do
    if ← Reader.atEnd then return []
    let p ← read
    return p :: (← readMany n)

/-- Reads players until no byte remains. The announced count has no say, and each player takes at
least one byte. -/
def readAll : Reader (List Player) := do
  let _ ← Reader.u8
  let remaining ← get
  readMany remaining.length

end Player

namespace Rules

/-- Reads up to `n` assignments. An empty name ends the list, and the last value may lack its
NUL. -/
def readMany : Nat → Reader (List (String × String))
  | 0 => pure []
  | n + 1 => do
    let name ← Reader.lossyText
    if name = "" then return []
    let value ← Reader.lossyTextOrRest
    return (name, value) :: (← readMany n)

def read : Reader Rules := do
  let count ← Reader.u16
  ofList <$> readMany count.toNat

end Rules

/-- Console text without the line feeds at its end. -/
def readConsoleText : Reader (List Char) := do
  let text ← Reader.lossyTextOrRest
  return Text.dropEndWhile (fun c => c = '\n' ∨ c = '\x00') text.toList

namespace Reply

/-- Console text with this start is written without a kind of its own: its first letter is the
kind. -/
def challengePhrase : List Char := "challenge".toList

/-- Reads what follows the byte `kind`. -/
def readKind (kind : UInt8) : Reader Reply :=
  if kind = 0x49 then info <$> ServerInfo.read
  else if kind = 0x6D then info <$> ServerInfo.readDetailed
  else if kind = 0x44 then players <$> Player.readAll
  else if kind = 0x45 then rules <$> Rules.read
  else if kind = 0x41 then challenge <$> Reader.i32
  else if kind = 0x6C then (fun text => console (String.ofList text)) <$> readConsoleText
  else if kind = 0x63 then (fun text => console (String.ofList ('c' :: text))) <$> readConsoleText
  else if kind = 0x52 then (fun text => log (String.ofList text)) <$> readConsoleText
  else throw (.unknownKind kind)

def read : Reader Reply := do
  let header ← Reader.i32
  if header ≠ wholeHeader then throw (.badHeader header)
  let kind ← Reader.u8
  readKind kind

/-- Reads a reply from a whole datagram. Bytes behind it are ignored. -/
def decode (s : List UInt8) : Except CodecError Reply := Reader.decode read s

def writeBody : Reply → Writer Unit
  | info i =>
    if i.address.isSome then do
      Writer.u8 0x6D
      i.writeDetailed
    else do
      Writer.u8 0x49
      i.write
  | players ps => do
    Writer.u8 0x44
    Writer.u8 (UInt8.ofNat ps.length)
    ps.forM Player.write
  | rules r => do
    Writer.u8 0x45
    Writer.u16 (UInt16.ofNat r.size)
    r.entries.forM fun (name, value) => do
      Writer.textNul name
      Writer.textNul value
  | challenge n => do
    Writer.u8 0x41
    Writer.i32 n
  | console text =>
    if challengePhrase.isPrefixOf text.toList then do
      Writer.text text
      Writer.u8 0x0A
      Writer.u8 0
    else do
      Writer.u8 0x6C
      Writer.textNul text
  | log text => do
    Writer.u8 0x52
    Writer.textNul text

def write (r : Reply) : Writer Unit := do
  Writer.i32 wholeHeader
  r.writeBody

/-- Writes a reply over the front of `buffer`. -/
def encode (r : Reply) (buffer : List UInt8) : Except CodecError Writer.Filled :=
  r.write.encode buffer

end Reply

end GameQuery
