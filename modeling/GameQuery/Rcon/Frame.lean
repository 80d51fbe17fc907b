import GameQuery.Bytes.Reader
import GameQuery.Bytes.Writer

namespace GameQuery.Rcon

/-!
# Frames of the remote console

The remote console of Source servers speaks over a stream: each frame is a size and as many bytes,
an id, a kind, a body and two NULs.
-/

/-- The smallest frame has an empty body. -/
def minFrameSize : Nat := 10

def maxFrameSize : Nat := 65536

/-- The largest body that fits a frame. -/
def maxBodySize : Nat := maxFrameSize - minFrameSize

/-- The size of a frame, given the number in front of it. -/
def checkSize (size : Int32) : Except CodecError Nat :=
  if (minFrameSize : Int) ≤ size.toInt ∧ size.toInt ≤ (maxFrameSize : Int) then
    .ok size.toInt.toNat
  else .error (.badFrameSize size)

/-- The size of a frame, given the four bytes in front of it. -/
def frameSize (start : List UInt8) : Except CodecError Nat :=
  checkSize (UInt32.ofNat (leValue start)).toInt32

/-- Writes a frame with its size in front. -/
def writeFrame (id kind : Int32) (body : List UInt8) : Writer Unit := do
  let size := body.length + minFrameSize
  if maxFrameSize < size then throw (.badFrameSize (Int32.ofNat size))
  Writer.u32 (UInt32.ofNat size)
  Writer.i32 id
  Writer.i32 kind
  Writer.bytes body
  Writer.bytes [0, 0]

/-- A frame that a client sends. -/
structure Request where
  id : Int32
  kind : Int32
  body : String
  deriving DecidableEq, Repr

namespace Request

/-- The kind of a frame with a password. -/
def authKind : Int32 := 3

/-- The kind of a frame with a command. -/
def execKind : Int32 := 2

/-- The kind of an empty frame behind a command: the server sends it back when it has answered. -/
def terminatorKind : Int32 := 0

def auth (id : Int32) (password : String) : Request := ⟨id, authKind, password⟩

def exec (id : Int32) (command : String) : Request := ⟨id, execKind, command⟩

def terminator (id : Int32) : Request := ⟨id, terminatorKind, ""⟩

/-- Reads a frame with its size in front. -/
def read : Reader Request := do
  let start ← Reader.bytes 4
  let remaining ← get
  match frameSize start with
  | .error e => throw e
  | .ok size =>
    if size ≠ remaining.length then throw .malformed
    let id ← Reader.i32
    let kind ← Reader.i32
    let body ← Reader.textUntilNul
    Reader.literal [0]
    Reader.finish
    return { id, kind, body }

def decode (s : List UInt8) : Except CodecError Request := Reader.decode read s

def write (r : Request) : Writer Unit := writeFrame r.id r.kind (Text.Utf8.encode r.body)

def encode (r : Request) (buffer : List UInt8) : Except CodecError Writer.Filled :=
  r.write.encode buffer

end Request

/-- What a frame of a server is. -/
inductive ReplyKind where
  /-- Output of a command. -/
  | value
  /-- The answer to a password. -/
  | auth
  deriving DecidableEq, Repr, Inhabited

namespace ReplyKind

def number : ReplyKind → Int32
  | value => 0
  | auth => 2

def ofNumber? (n : Int32) : Option ReplyKind :=
  if n = 0 then some value else if n = 2 then some auth else none

@[simp] theorem ofNumber?_number (k : ReplyKind) : ofNumber? k.number = some k := by
  cases k <;> decide

end ReplyKind

/-- A frame that a server sends. -/
structure Reply where
  id : Int32
  kind : ReplyKind
  body : String
  /-- Whether this follows a terminator that the server has sent back. -/
  isEcho : Bool := false
  deriving DecidableEq, Repr

namespace Reply

/-- The body of the frame that follows a terminator. -/
def echoBody : List UInt8 := [0, 1, 0, 0]

/-- The frame that follows a terminator. -/
def terminatorEcho (id : Int32) : Reply := { id, kind := .value, body := "", isEcho := true }

/-- Reads a frame without its size. The body ends at the first NUL. -/
def read : Reader Reply := do
  let id ← Reader.i32
  let kind ← Reader.i32
  match ReplyKind.ofNumber? kind with
  | none => throw .malformed
  | some kind =>
    let raw ← Reader.rest
    if raw.length < 2 then throw .malformed
    match splitAtNul raw with
    | none => throw .malformed
    | some (text, _) =>
      return { id, kind, body := Text.Utf8.decodeLossy text,
               isEcho := text.isEmpty && raw.contains 1 }

def decode (frame : List UInt8) : Except CodecError Reply := Reader.decode read frame

def bodyBytes (r : Reply) : List UInt8 := if r.isEcho then echoBody else Text.Utf8.encode r.body

def write (r : Reply) : Writer Unit := writeFrame r.id r.kind.number r.bodyBytes

def encode (r : Reply) (buffer : List UInt8) : Except CodecError Writer.Filled :=
  r.write.encode buffer

end Reply

end GameQuery.Rcon
