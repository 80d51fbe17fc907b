import GameQuery.Proofs.WriterLaws
import GameQuery.Reply

namespace GameQuery

/-!
# The bytes of a reply

Every reply has one string of bytes, which the encoder writes whatever the buffer is.
-/

def textBytes (s : String) : List UInt8 := Text.Utf8.encode s ++ [0]

/-- The bytes of a value that may be missing. -/
def someBytes {α : Type} (f : α → List UInt8) : Option α → List UInt8
  | some a => f a
  | none => []

theorem ExtraData.writeSome_eq {α : Type} {w : α → Writer Unit} {f : α → List UInt8}
    (h : ∀ a, w a = Writer.bytes (f a)) (x : Option α) :
    writeSome w x = Writer.bytes (someBytes f x) := by
  cases x with
  | none => rfl
  | some a => exact h a

namespace ExtraData

def bytes (e : ExtraData) : List UInt8 :=
  if e.isEmpty then [] else
    [e.flags] ++ (someBytes (fun port => leBytes 2 port.toNat) e.port ++
      (someBytes (fun id => leBytes 8 id.toNat) e.steamId ++
      (someBytes (fun port => leBytes 2 port.toNat ++ textBytes (e.tvName.getD "")) e.tvPort ++
      (someBytes textBytes e.keywords ++ someBytes (fun id => leBytes 8 id.toNat) e.gameId))))

theorem write_eq (e : ExtraData) : e.write = Writer.bytes e.bytes := by
  have hport := writeSome_eq (w := Writer.u16) (fun _ => rfl) e.port
  have hid := fun x => writeSome_eq (w := Writer.u64) (fun _ => rfl) x
  have hwords := writeSome_eq Writer.textNul_eq e.keywords
  have htv : writeSome (fun port => do
      Writer.u16 port
      Writer.textNul (e.tvName.getD "")) e.tvPort = Writer.bytes (someBytes
        (fun port => leBytes 2 port.toNat ++ textBytes (e.tvName.getD "")) e.tvPort) := by
    refine writeSome_eq (fun port => ?_) e.tvPort
    rw [Writer.textNul_eq, Writer.u16, Writer.bytes_bind_bytes, textBytes]
  simp only [write, bytes, Writer.u8, hport, hid, hwords, htv, Writer.bytes_bind_bytes]
  split <;> rfl

end ExtraData

namespace TheShip

def bytes (s : TheShip) : List UInt8 := [s.mode, s.witnesses, s.duration]

theorem write_eq (s : TheShip) : s.write = Writer.bytes s.bytes := by
  simp only [write, bytes, Writer.u8, Writer.bytes_bind_bytes, List.cons_append, List.nil_append]

end TheShip

def flagByte (v : Bool) : UInt8 := if v then 1 else 0

namespace ModInfo

def bytes (m : ModInfo) : List UInt8 :=
  textBytes m.urlInfo ++ (textBytes m.urlDownload ++ ([0] ++
    (leBytes 4 m.version.toUInt32.toNat ++ (leBytes 4 m.size.toUInt32.toNat ++
      ([flagByte m.serverOnly] ++ [flagByte m.clientDll])))))

theorem write_eq (m : ModInfo) : m.write = Writer.bytes m.bytes := by
  simp only [write, bytes, Writer.u8, Writer.u32, Writer.i32, Writer.flag, Writer.textNul_eq,
    Writer.bytes_bind_bytes, textBytes, flagByte]

end ModInfo

namespace ServerInfo

def bytes (i : ServerInfo) : List UInt8 :=
  [i.protocol] ++ (textBytes i.name ++ (textBytes i.map ++ (textBytes i.folder ++
    (textBytes i.game ++ (leBytes 2 i.appId.toNat ++ ([i.players] ++ ([i.maxPlayers] ++
    ([i.bots] ++ ([i.serverType.toByte] ++ ([i.os.toByte] ++ ([flagByte i.hasPassword] ++
    ([flagByte i.isSecure] ++
    ((if i.appId = TheShip.appId then (i.theShip.getD {}).bytes else []) ++
    (textBytes i.version ++ i.extra.bytes))))))))))))))

theorem write_eq (i : ServerInfo) : i.write = Writer.bytes i.bytes := by
  by_cases hship : i.appId = TheShip.appId
  · simp only [write, bytes, Writer.u8, Writer.u16, Writer.flag, Writer.textNul_eq, textBytes,
      flagByte, hship, if_true, TheShip.write_eq, ExtraData.write_eq, Writer.bytes_bind_bytes]
  · simp only [write, bytes, Writer.u8, Writer.u16, Writer.flag, Writer.textNul_eq, textBytes,
      flagByte, hship, if_false, ExtraData.write_eq, Writer.bytes_bind_bytes, List.nil_append]

def detailedBytes (i : ServerInfo) : List UInt8 :=
  textBytes (i.address.getD "") ++ (textBytes i.name ++ (textBytes i.map ++
    (textBytes i.folder ++ (textBytes i.game ++ ([i.players] ++ ([i.maxPlayers] ++
    ([i.protocol] ++ ([i.serverType.toByte] ++ ([i.os.toByte] ++ ([flagByte i.hasPassword] ++
    ([flagByte i.modInfo.isSome] ++ (someBytes ModInfo.bytes i.modInfo ++
    ([flagByte i.isSecure] ++ [i.bots])))))))))))))

theorem writeDetailed_eq (i : ServerInfo) :
    i.writeDetailed = Writer.bytes i.detailedBytes := by
  have hmod := ExtraData.writeSome_eq ModInfo.write_eq i.modInfo
  simp only [writeDetailed, detailedBytes, Writer.u8, Writer.flag, Writer.textNul_eq, textBytes,
    flagByte, hmod, Writer.bytes_bind_bytes]

end ServerInfo

namespace Player

def bytes (p : Player) : List UInt8 :=
  [p.index] ++ (textBytes p.name ++
    (leBytes 4 p.score.toUInt32.toNat ++ leBytes 4 p.time.bits.toNat))

theorem write_eq (p : Player) : p.write = Writer.bytes p.bytes := by
  simp only [write, bytes, Writer.u8, Writer.u32, Writer.i32, Writer.textNul_eq, textBytes,
    Writer.bytes_bind_bytes]

end Player

def ruleBytes (entry : String × String) : List UInt8 := textBytes entry.1 ++ textBytes entry.2

namespace Reply

/-- The bytes behind the header. -/
def body : Reply → List UInt8
  | info i => if i.address.isSome then [0x6D] ++ i.detailedBytes else [0x49] ++ i.bytes
  | players ps => [0x44] ++ ([UInt8.ofNat ps.length] ++ ps.flatMap Player.bytes)
  | rules r => [0x45] ++ (leBytes 2 (UInt16.ofNat r.size).toNat ++ r.entries.flatMap ruleBytes)
  | challenge n => [0x41] ++ leBytes 4 n.toUInt32.toNat
  | console text =>
    if challengePhrase.isPrefixOf text.toList then Text.Utf8.encode text ++ ([0x0A] ++ [0])
    else [0x6C] ++ textBytes text
  | log text => [0x52] ++ textBytes text

def bytes (r : Reply) : List UInt8 := leBytes 4 wholeHeader.toUInt32.toNat ++ r.body

theorem writeBody_eq (r : Reply) : r.writeBody = Writer.bytes r.body := by
  cases r with
  | info i =>
    simp only [writeBody, body, Writer.u8, ServerInfo.write_eq, ServerInfo.writeDetailed_eq,
      Writer.bytes_bind_bytes, Writer.ite_bytes]
  | players ps =>
    simp only [writeBody, body, Writer.u8, funext Player.write_eq, Writer.forM_bytes,
      Writer.bytes_bind_bytes]
  | rules r =>
    have hrule : ∀ entry : String × String,
        (do Writer.textNul entry.1; Writer.textNul entry.2) = Writer.bytes (ruleBytes entry) := by
      intro entry
      simp only [Writer.textNul_eq, Writer.bytes_bind_bytes, ruleBytes, textBytes]
    have hrules : (r.entries.forM fun entry => do
        Writer.textNul entry.1
        Writer.textNul entry.2) = Writer.bytes (r.entries.flatMap ruleBytes) := by
      rw [funext hrule, Writer.forM_bytes]
    rw [body, ← Writer.bytes_bind_bytes, ← Writer.bytes_bind_bytes, ← hrules]
    rfl
  | challenge n =>
    simp only [writeBody, body, Writer.u8, Writer.i32, Writer.u32, Writer.bytes_bind_bytes]
  | console text =>
    simp only [writeBody, body, Writer.u8, Writer.text, Writer.textNul_eq, textBytes,
      Writer.bytes_bind_bytes, Writer.ite_bytes]
  | log text =>
    simp only [writeBody, body, Writer.u8, Writer.textNul_eq, textBytes, Writer.bytes_bind_bytes]

theorem write_eq (r : Reply) : r.write = Writer.bytes r.bytes := by
  simp only [write, bytes, Writer.i32, Writer.u32, writeBody_eq, Writer.bytes_bind_bytes]

end Reply

end GameQuery
