import GameQuery.Bytes.Reader
import GameQuery.Bytes.Writer

namespace GameQuery

/-!
# Server information

A server describes itself in one of two layouts. The detailed layout is the one with an address;
the other one may end in extra data.
-/

/-- The operating system of a server. -/
inductive Os where
  | linux | windows | mac | unknown
  deriving DecidableEq, Repr, Inhabited

namespace Os

/-- The letter of an operating system may have either case. -/
def ofByte (b : UInt8) : Os :=
  if b = 0x6C ∨ b = 0x4C then linux
  else if b = 0x77 ∨ b = 0x57 then windows
  else if b = 0x6D ∨ b = 0x4D ∨ b = 0x6F ∨ b = 0x4F then mac
  else unknown

def toByte : Os → UInt8
  | linux => 0x6C
  | windows => 0x77
  | mac => 0x6D
  | unknown => 0x3F

def name : Os → String
  | linux => "Linux"
  | windows => "Windows"
  | mac => "Mac"
  | unknown => "Unknown"

@[simp] theorem ofByte_toByte (os : Os) : ofByte os.toByte = os := by cases os <;> decide

end Os

/-- How a server is run. -/
inductive ServerType where
  | dedicated | local | proxy | unknown
  deriving DecidableEq, Repr, Inhabited

namespace ServerType

/-- The letter of a server type may have either case. -/
def ofByte (b : UInt8) : ServerType :=
  if b = 0x64 ∨ b = 0x44 then dedicated
  else if b = 0x6C ∨ b = 0x4C then .local
  else if b = 0x70 ∨ b = 0x50 then proxy
  else unknown

def toByte : ServerType → UInt8
  | dedicated => 0x64
  | .local => 0x6C
  | proxy => 0x70
  | unknown => 0x3F

def name : ServerType → String
  | dedicated => "dedicated"
  | .local => "local"
  | proxy => "proxy"
  | unknown => "unknown"

@[simp] theorem ofByte_toByte (t : ServerType) : ofByte t.toByte = t := by cases t <;> decide

end ServerType

/-- Facts about a server, one bit each. A set may also have bits that mean nothing. -/
abbrev ServerFlags := UInt8

namespace ServerFlags

/-- The server asks for a password. -/
def password : ServerFlags := 0x01

/-- The server keeps cheaters out. -/
def secure : ServerFlags := 0x02

/-- Whether a set has all the facts of another one. -/
def contains (flags other : ServerFlags) : Bool := flags &&& other = other

/-- Puts facts into a set, or takes them out of it. -/
def set (flags other : ServerFlags) (value : Bool) : ServerFlags :=
  if value then flags ||| other else flags &&& ~~~other

/-- The set of the two facts that are told by name. -/
def ofBools (hasPassword isSecure : Bool) : ServerFlags :=
  (set 0 password hasPassword).set secure isSecure

end ServerFlags

/-- The rules of a round of The Ship. -/
structure TheShip where
  mode : UInt8 := 0
  witnesses : UInt8 := 0
  duration : UInt8 := 0
  deriving DecidableEq, Repr, Inhabited

/-- The application that reports its rounds. -/
def TheShip.appId : UInt16 := 2400

/-- Optional data at the end of the shorter layout. -/
structure ExtraData where
  port : Option UInt16 := none
  steamId : Option UInt64 := none
  tvPort : Option UInt16 := none
  tvName : Option String := none
  keywords : Option String := none
  gameId : Option UInt64 := none
  deriving DecidableEq, Repr, Inhabited

/-- A modification of Half-Life, in the detailed layout. -/
structure ModInfo where
  urlInfo : String := ""
  urlDownload : String := ""
  version : Int32 := 0
  size : Int32 := 0
  serverOnly : Bool := false
  clientDll : Bool := false
  deriving DecidableEq, Repr, Inhabited

/-- How a server describes itself. -/
structure ServerInfo where
  protocol : UInt8 := 0
  name : String := ""
  map : String := ""
  folder : String := ""
  game : String := ""
  appId : UInt16 := 0
  players : UInt8 := 0
  maxPlayers : UInt8 := 0
  bots : UInt8 := 0
  serverType : ServerType := .unknown
  os : Os := .unknown
  flags : ServerFlags := 0
  theShip : Option TheShip := none
  version : String := ""
  extra : ExtraData := {}
  address : Option String := none
  modInfo : Option ModInfo := none
  deriving DecidableEq, Repr, Inhabited

namespace ExtraData

def isEmpty (e : ExtraData) : Bool := e = {}

/-- The byte that says which data follow. -/
def flags (e : ExtraData) : UInt8 :=
  (if e.port.isSome then 0x80 else 0) ||| (if e.steamId.isSome then 0x10 else 0) |||
    (if e.tvPort.isSome then 0x40 else 0) ||| (if e.keywords.isSome then 0x20 else 0) |||
    (if e.gameId.isSome then 0x01 else 0)

/-- Reads a value if `mask` is set in `flags`. -/
def readIf {α : Type} (flags mask : UInt8) (r : Reader α) : Reader (Option α) :=
  if flags &&& mask ≠ 0 then some <$> r else pure none

def read : Reader ExtraData := do
  if ← Reader.atEnd then return {}
  let flags ← Reader.u8
  let port ← readIf flags 0x80 Reader.u16
  let steamId ← readIf flags 0x10 Reader.u64
  let tvPort ← readIf flags 0x40 Reader.u16
  let tvName ← readIf flags 0x40 Reader.lossyText
  let keywords ← readIf flags 0x20 Reader.lossyText
  let gameId ← readIf flags 0x01 Reader.u64
  return { port, steamId, tvPort, tvName, keywords, gameId }

/-- Writes a value if there is one. -/
def writeSome {α : Type} (w : α → Writer Unit) : Option α → Writer Unit
  | some a => w a
  | none => pure ()

def write (e : ExtraData) : Writer Unit := do
  if e.isEmpty then return
  Writer.u8 e.flags
  writeSome Writer.u16 e.port
  writeSome Writer.u64 e.steamId
  writeSome (fun port => do Writer.u16 port; Writer.textNul (e.tvName.getD "")) e.tvPort
  writeSome Writer.textNul e.keywords
  writeSome Writer.u64 e.gameId

end ExtraData

namespace TheShip

def read : Reader TheShip := do
  let mode ← Reader.u8
  let witnesses ← Reader.u8
  let duration ← Reader.u8
  return { mode, witnesses, duration }

def write (s : TheShip) : Writer Unit := do
  Writer.u8 s.mode
  Writer.u8 s.witnesses
  Writer.u8 s.duration

end TheShip

namespace ModInfo

/-- A reserved byte stands between the links and the version. -/
def read : Reader ModInfo := do
  let urlInfo ← Reader.lossyText
  let urlDownload ← Reader.lossyText
  let _ ← Reader.u8
  let version ← Reader.i32
  let size ← Reader.i32
  let serverOnly ← Reader.flag
  let clientDll ← Reader.flag
  return { urlInfo, urlDownload, version, size, serverOnly, clientDll }

def write (m : ModInfo) : Writer Unit := do
  Writer.textNul m.urlInfo
  Writer.textNul m.urlDownload
  Writer.u8 0
  Writer.i32 m.version
  Writer.i32 m.size
  Writer.flag m.serverOnly
  Writer.flag m.clientDll

end ModInfo

namespace ServerInfo

def hasPassword (i : ServerInfo) : Bool := i.flags.contains .password

def isSecure (i : ServerInfo) : Bool := i.flags.contains .secure

/-- Reads the layout that may end in extra data. -/
def read : Reader ServerInfo := do
  let protocol ← Reader.u8
  let name ← Reader.lossyText
  let map ← Reader.lossyText
  let folder ← Reader.lossyText
  let game ← Reader.lossyText
  let appId ← Reader.u16
  let players ← Reader.u8
  let maxPlayers ← Reader.u8
  let bots ← Reader.u8
  let serverType ← ServerType.ofByte <$> Reader.u8
  let os ← Os.ofByte <$> Reader.u8
  let password ← Reader.flag
  let secure ← Reader.flag
  let theShip ← if appId = TheShip.appId then some <$> TheShip.read else pure none
  let version ← Reader.lossyText
  let extra ← ExtraData.read
  return { protocol, name, map, folder, game, appId, players, maxPlayers, bots, serverType, os,
           flags := .ofBools password secure, theShip, version, extra }

/-- Reads the detailed layout. -/
def readDetailed : Reader ServerInfo := do
  let address ← Reader.lossyText
  let name ← Reader.lossyText
  let map ← Reader.lossyText
  let folder ← Reader.lossyText
  let game ← Reader.lossyText
  let players ← Reader.u8
  let maxPlayers ← Reader.u8
  let protocol ← Reader.u8
  let serverType ← ServerType.ofByte <$> Reader.u8
  let os ← Os.ofByte <$> Reader.u8
  let password ← Reader.flag
  let modified ← Reader.flag
  let modInfo ← if modified then some <$> ModInfo.read else pure none
  let secure ← Reader.flag
  let bots ← Reader.u8
  return { address := some address, name, map, folder, game, players, maxPlayers, protocol,
           serverType, os, flags := .ofBools password secure, modInfo, bots }

/-- Writes the layout that may end in extra data. -/
def write (i : ServerInfo) : Writer Unit := do
  Writer.u8 i.protocol
  Writer.textNul i.name
  Writer.textNul i.map
  Writer.textNul i.folder
  Writer.textNul i.game
  Writer.u16 i.appId
  Writer.u8 i.players
  Writer.u8 i.maxPlayers
  Writer.u8 i.bots
  Writer.u8 i.serverType.toByte
  Writer.u8 i.os.toByte
  Writer.flag i.hasPassword
  Writer.flag i.isSecure
  if i.appId = TheShip.appId then (i.theShip.getD {}).write
  Writer.textNul i.version
  i.extra.write

/-- Writes the detailed layout. -/
def writeDetailed (i : ServerInfo) : Writer Unit := do
  Writer.textNul (i.address.getD "")
  Writer.textNul i.name
  Writer.textNul i.map
  Writer.textNul i.folder
  Writer.textNul i.game
  Writer.u8 i.players
  Writer.u8 i.maxPlayers
  Writer.u8 i.protocol
  Writer.u8 i.serverType.toByte
  Writer.u8 i.os.toByte
  Writer.flag i.hasPassword
  Writer.flag i.modInfo.isSome
  ExtraData.writeSome ModInfo.write i.modInfo
  Writer.flag i.isSecure
  Writer.u8 i.bots

end ServerInfo

end GameQuery
