import GameQuery.Proofs.Blank
import GameQuery.Proofs.ReaderLaws
import GameQuery.Proofs.ReplyBytes
import GameQuery.Proofs.RuleValues
import Mathlib.Data.List.Induction

namespace GameQuery

/-!
# Replies that survive the codec

A reply is canonical if it holds nothing that its layout has no place for. The decoder yields only
canonical replies (`yields_read`), and it reads the bytes of every canonical reply back
(`decode_bytes`). A reply that is not canonical therefore cannot come back.
-/

/-- A text without the NUL, which would end it early. -/
def NulFree (s : String) : Prop := '\x00' ∉ s.toList

instance (s : String) : Decidable (NulFree s) := inferInstanceAs (Decidable (_ ∉ _))

/-- Extra data with texts that can be written, and a name for each relay port. -/
structure ExtraData.Canonical (e : ExtraData) : Prop where
  tvName : ∀ s ∈ e.tvName, NulFree s
  keywords : ∀ s ∈ e.keywords, NulFree s
  relay : e.tvName.isSome = e.tvPort.isSome

structure ModInfo.Canonical (m : ModInfo) : Prop where
  urlInfo : NulFree m.urlInfo
  urlDownload : NulFree m.urlDownload

/-- No facts but those that are told by name. -/
def ServerFlags.Named (flags : ServerFlags) : Prop := flags &&& ~~~(password ||| secure) = 0

instance (flags : ServerFlags) : Decidable flags.Named := inferInstanceAs (Decidable (_ = _))

/-- Server information that one of the two layouts has room for: the one with an address knows
no application, no round of The Ship, no version and no extra data, the other no modification. -/
structure ServerInfo.Fits (i : ServerInfo) : Prop where
  name : NulFree i.name
  map : NulFree i.map
  folder : NulFree i.folder
  game : NulFree i.game
  version : NulFree i.version
  layout : match i.address with
    | none =>
      i.modInfo = none ∧ (i.theShip.isSome ↔ i.appId = TheShip.appId) ∧ i.extra.Canonical
    | some address =>
      NulFree address ∧ (∀ m ∈ i.modInfo, m.Canonical) ∧ i.appId = 0 ∧ i.theShip = none ∧
        i.version = "" ∧ i.extra = {}

/-- Both layouts tell the facts of the server one by one, by name. -/
structure ServerInfo.Canonical (i : ServerInfo) : Prop extends ServerInfo.Fits i where
  flags : i.flags.Named

structure Player.Canonical (p : Player) : Prop where
  name : NulFree p.name
  status : p.status = none

/-- Rules whose number fits two bytes, none with the empty name, which would end the list. -/
structure Rules.Canonical (r : Rules) : Prop where
  size : r.size ≤ 65535
  entries : ∀ entry ∈ r.entries, NulFree entry.1 ∧ NulFree entry.2 ∧ entry.1 ≠ ""

/-- Console text without a line feed at its end. -/
structure CanonicalText (s : String) : Prop where
  nulFree : NulFree s
  noLineFeed : s.toList.getLast? ≠ some '\n'

def Reply.Canonical : Reply → Prop
  | .info i => i.Canonical
  | .players ps => ∀ p ∈ ps, p.Canonical
  | .rules r => r.Canonical
  | .challenge _ => True
  | .console text => CanonicalText text
  | .log text => CanonicalText text

open Reader

theorem reads_textBytes {s : String} (h : NulFree s) : Reads lossyText (textBytes s) s :=
  reads_lossyText h

theorem reads_textBytesOrRest {s : String} (h : NulFree s) :
    Reads lossyTextOrRest (textBytes s) s := reads_lossyTextOrRest h

theorem reads_flagByte (v : Bool) : Reads flag [flagByte v] v := reads_flag v

/-! ## Server information -/

namespace ServerFlags

theorem named_ofBools (hasPassword isSecure : Bool) : Named (ofBools hasPassword isSecure) := by
  cases hasPassword <;> cases isSecure <;> rfl

theorem ofBools_contains {flags : ServerFlags} (h : flags.Named) :
    ofBools (flags.contains password) (flags.contains secure) = flags := by
  have hall : ∀ n : Fin 256, Named (.ofFin n) →
      ofBools (contains (.ofFin n) password) (contains (.ofFin n) secure) = .ofFin n := by
    decide +kernel
  exact hall flags.toFin h

end ServerFlags

namespace ExtraData

theorem reads_readIf {α : Type} {r : Reader α} {f : α → List UInt8} {flags mask : UInt8}
    {x : Option α} (hx : x.isSome = decide (flags &&& mask ≠ 0))
    (h : ∀ a ∈ x, Reads r (f a) a) : Reads (readIf flags mask r) (someBytes f x) x := by
  cases x with
  | none =>
    have hm : ¬ flags &&& mask ≠ 0 := by simpa using hx
    rw [readIf, if_neg hm]
    exact reads_pure none
  | some a =>
    have hm : flags &&& mask ≠ 0 := by simpa using hx
    rw [readIf, if_pos hm]
    exact (h a rfl).map some

theorem flags_and (e : ExtraData) :
    (e.port.isSome = decide (e.flags &&& 0x80 ≠ 0)) ∧
      (e.steamId.isSome = decide (e.flags &&& 0x10 ≠ 0)) ∧
      (e.tvPort.isSome = decide (e.flags &&& 0x40 ≠ 0)) ∧
      (e.keywords.isSome = decide (e.flags &&& 0x20 ≠ 0)) ∧
      (e.gameId.isSome = decide (e.flags &&& 0x01 ≠ 0)) := by
  rw [flags]
  generalize e.port.isSome = a
  generalize e.steamId.isSome = b
  generalize e.tvPort.isSome = c
  generalize e.keywords.isSome = d
  generalize e.gameId.isSome = f
  revert a b c d f
  decide

theorem relay_bytes {e : ExtraData} (h : e.Canonical) :
    someBytes (fun port => leBytes 2 port.toNat ++ textBytes (e.tvName.getD "")) e.tvPort =
      someBytes (fun port => leBytes 2 port.toNat) e.tvPort ++ someBytes textBytes e.tvName := by
  have hrelay := h.relay
  cases hport : e.tvPort <;> cases hname : e.tvName <;> simp_all [someBytes]

theorem read_nil : read [] = .ok {} [] := rfl

theorem read_bytes {e : ExtraData} (h : e.Canonical) : read e.bytes = .ok e [] := by
  rw [bytes]
  split
  · next he =>
    have he : e = {} := by simpa [isEmpty] using he
    rw [he, read_nil]
  · obtain ⟨hport, hsteam, htv, hwords, hgame⟩ := e.flags_and
    have hname : e.tvName.isSome = decide (e.flags &&& 0x40 ≠ 0) := h.relay.trans htv
    rw [relay_bytes h, read, List.cons_append, List.nil_append, atEnd_bind_cons,
      ← List.singleton_append, List.append_assoc]
    simp only [Bool.false_eq_true, if_false]
    rw [(reads_u8 e.flags).run_bind, (reads_readIf hport fun _ _ => reads_u16 _).run_bind,
      (reads_readIf hsteam fun _ _ => reads_u64 _).run_bind,
      (reads_readIf htv fun _ _ => reads_u16 _).run_bind,
      (reads_readIf hname fun s hs => reads_textBytes (h.tvName s hs)).run_bind,
      (reads_readIf hwords fun s hs => reads_textBytes (h.keywords s hs)).run_bind,
      ← List.append_nil (someBytes _ e.gameId),
      (reads_readIf hgame fun _ _ => reads_u64 _).run_bind]
    rfl

theorem yields_readIf {α : Type} {r : Reader α} {P : α → Prop} (flags mask : UInt8)
    (h : Yields r P) :
    Yields (readIf flags mask r) fun x =>
      x.isSome = decide (flags &&& mask ≠ 0) ∧ ∀ a ∈ x, P a := by
  rw [readIf]
  split
  · next hm =>
    refine Yields.map (h.imp fun a ha => ⟨by simpa using hm, fun b hb => ?_⟩)
    cases hb
    exact ha
  · next hm => exact yields_pure ⟨by simpa using hm, fun a ha => by cases ha⟩

theorem canonical_empty : Canonical {} where
  tvName _ hs := nomatch hs
  keywords _ hs := nomatch hs
  relay := rfl

theorem yields_read : Yields read Canonical := by
  refine (yields_true _).bind fun empty _ => ?_
  split
  · exact yields_pure canonical_empty
  · refine (yields_true _).bind fun flags _ => ?_
    refine (yields_true _).bind fun port _ => ?_
    refine (yields_true _).bind fun steamId _ => ?_
    refine (yields_readIf flags 0x40 (yields_true _)).bind fun tvPort htv => ?_
    refine (yields_readIf flags 0x40 yields_lossyText).bind fun tvName hname => ?_
    refine (yields_readIf flags 0x20 yields_lossyText).bind fun keywords hwords => ?_
    refine (yields_true _).bind fun gameId _ => ?_
    exact yields_pure ⟨hname.2, hwords.2, hname.1.trans htv.1.symm⟩

end ExtraData

namespace TheShip

theorem reads_bytes (s : TheShip) : Reads read s.bytes s :=
  (reads_u8 s.mode).bind ((reads_u8 s.witnesses).bind ((reads_u8 s.duration).bind
    (reads_pure s)))

end TheShip

namespace ModInfo

theorem reads_bytes {m : ModInfo} (h : m.Canonical) : Reads read m.bytes m := by
  rw [bytes, ← List.append_nil [flagByte m.clientDll]]
  exact (reads_textBytes h.urlInfo).bind ((reads_textBytes h.urlDownload).bind
    ((reads_u8 0).bind ((reads_i32 m.version).bind ((reads_i32 m.size).bind
      ((reads_flagByte m.serverOnly).bind ((reads_flagByte m.clientDll).bind
        (reads_pure m)))))))

theorem yields_read : Yields read Canonical := by
  refine yields_lossyText.bind fun urlInfo hinfo => ?_
  refine yields_lossyText.bind fun urlDownload hdownload => ?_
  refine (yields_true _).bind fun _ _ => ?_
  refine (yields_true _).bind fun _ _ => ?_
  refine (yields_true _).bind fun _ _ => ?_
  refine (yields_true _).bind fun _ _ => ?_
  refine (yields_true _).bind fun _ _ => ?_
  exact yields_pure ⟨hinfo, hdownload⟩

end ModInfo

namespace ServerInfo

theorem reads_theShip {i : ServerInfo} (h : i.theShip.isSome ↔ i.appId = TheShip.appId) :
    Reads (if i.appId = TheShip.appId then some <$> TheShip.read else pure none)
      (if i.appId = TheShip.appId then (i.theShip.getD {}).bytes else []) i.theShip := by
  by_cases happ : i.appId = TheShip.appId
  · obtain ⟨ship, hship⟩ := Option.isSome_iff_exists.1 (h.2 happ)
    rw [if_pos happ, if_pos happ, hship]
    exact (TheShip.reads_bytes ship).map some
  · have hship : i.theShip = none := by simpa using mt h.1 happ
    rw [if_neg happ, if_neg happ, hship]
    exact reads_pure none

theorem read_bytes {i : ServerInfo} (h : i.Canonical) (haddr : i.address = none) :
    read i.bytes = .ok i [] := by
  obtain ⟨hmod, hship, hextra⟩ : i.modInfo = none ∧
      (i.theShip.isSome ↔ i.appId = TheShip.appId) ∧ i.extra.Canonical := by
    simpa [haddr] using h.layout
  have htype := (reads_u8 i.serverType.toByte).map ServerType.ofByte
  have hos := (reads_u8 i.os.toByte).map Os.ofByte
  rw [ServerType.ofByte_toByte] at htype
  rw [Os.ofByte_toByte] at hos
  rw [bytes, read, (reads_u8 _).run_bind, (reads_textBytes h.name).run_bind,
    (reads_textBytes h.map).run_bind, (reads_textBytes h.folder).run_bind,
    (reads_textBytes h.game).run_bind, (reads_u16 _).run_bind, (reads_u8 _).run_bind,
    (reads_u8 _).run_bind, (reads_u8 _).run_bind, htype.run_bind, hos.run_bind,
    (reads_flagByte _).run_bind, (reads_flagByte _).run_bind, ite_bind,
    (reads_theShip hship).run_bind]
  beta_reduce
  rw [(reads_textBytes h.version).run_bind]
  simp only [bind, EStateM.bind, ExtraData.read_bytes hextra, pure, EStateM.pure]
  rw [← hmod, ← haddr, hasPassword, isSecure, ServerFlags.ofBools_contains h.flags]

theorem reads_modInfo {x : Option ModInfo} (h : ∀ m ∈ x, m.Canonical) :
    Reads (if x.isSome then some <$> ModInfo.read else pure none) (someBytes ModInfo.bytes x)
      x := by
  cases x with
  | none => exact reads_pure none
  | some m => exact (ModInfo.reads_bytes (h m rfl)).map some

theorem reads_detailedBytes {i : ServerInfo} (h : i.Canonical) {address : String}
    (haddr : i.address = some address) : Reads readDetailed i.detailedBytes i := by
  obtain ⟨haddress, hmod, happ, hship, hversion, hextra⟩ : NulFree address ∧
      (∀ m ∈ i.modInfo, m.Canonical) ∧ i.appId = 0 ∧ i.theShip = none ∧ i.version = "" ∧
        i.extra = {} := by
    simpa [haddr] using h.layout
  have htype := (reads_u8 i.serverType.toByte).map ServerType.ofByte
  have hos := (reads_u8 i.os.toByte).map Os.ofByte
  rw [ServerType.ofByte_toByte] at htype
  rw [Os.ofByte_toByte] at hos
  have hself : i = { i with
      address := some address, appId := 0, flags := .ofBools i.hasPassword i.isSecure,
      theShip := none, version := "", extra := {} } := by
    rw [← happ, ← hship, ← hversion, ← hextra, ← haddr, hasPassword, isSecure,
      ServerFlags.ofBools_contains h.flags]
  intro rest
  simp only [detailedBytes, readDetailed, haddr, Option.getD_some, List.append_assoc]
  rw [(reads_textBytes haddress).run_bind, (reads_textBytes h.name).run_bind,
    (reads_textBytes h.map).run_bind, (reads_textBytes h.folder).run_bind,
    (reads_textBytes h.game).run_bind, (reads_u8 _).run_bind, (reads_u8 _).run_bind,
    (reads_u8 _).run_bind, htype.run_bind, hos.run_bind, (reads_flagByte _).run_bind,
    (reads_flagByte _).run_bind, ite_bind, (reads_modInfo hmod).run_bind]
  rw [(reads_flagByte _).run_bind, (reads_u8 _).run_bind]
  exact congrArg (EStateM.Result.ok · rest) hself.symm

theorem yields_read : Yields read Canonical := by
  refine (yields_true _).bind fun protocol _ => ?_
  refine yields_lossyText.bind fun name hname => ?_
  refine yields_lossyText.bind fun map hmap => ?_
  refine yields_lossyText.bind fun folder hfolder => ?_
  refine yields_lossyText.bind fun game hgame => ?_
  refine (yields_true _).bind fun appId _ => ?_
  refine (yields_true _).bind fun players _ => ?_
  refine (yields_true _).bind fun maxPlayers _ => ?_
  refine (yields_true _).bind fun bots _ => ?_
  refine (yields_true _).bind fun serverType _ => ?_
  refine (yields_true _).bind fun os _ => ?_
  refine (yields_true _).bind fun password _ => ?_
  refine (yields_true _).bind fun secure _ => ?_
  have hrest : ∀ theShip : Option TheShip, (theShip.isSome ↔ appId = TheShip.appId) →
      Yields (do
        let version ← lossyText
        let extra ← ExtraData.read
        return { protocol, name, map, folder, game, appId, players, maxPlayers, bots, serverType,
                 os, flags := .ofBools password secure, theShip, version, extra }) Canonical := by
    intro theShip hship
    refine yields_lossyText.bind fun version hversion => ?_
    refine ExtraData.yields_read.bind fun extra hextra => ?_
    exact yields_pure {
      name := hname
      map := hmap
      folder := hfolder
      game := hgame
      version := hversion
      layout := ⟨rfl, hship, hextra⟩
      flags := ServerFlags.named_ofBools password secure }
  split
  · next happ =>
    refine Yields.bind (P := fun x => x.isSome = true) (Yields.map ?_) fun theShip hship => ?_
    · exact fun _ _ _ _ => rfl
    · exact hrest theShip (by simp [hship, happ])
  · next happ =>
    refine Yields.bind (P := fun x => x = none) (yields_pure rfl) fun theShip hship => ?_
    exact hrest theShip (by simp [hship, happ])

theorem yields_readDetailed : Yields readDetailed Canonical := by
  refine yields_lossyText.bind fun address haddress => ?_
  refine yields_lossyText.bind fun name hname => ?_
  refine yields_lossyText.bind fun map hmap => ?_
  refine yields_lossyText.bind fun folder hfolder => ?_
  refine yields_lossyText.bind fun game hgame => ?_
  refine (yields_true _).bind fun players _ => ?_
  refine (yields_true _).bind fun maxPlayers _ => ?_
  refine (yields_true _).bind fun protocol _ => ?_
  refine (yields_true _).bind fun serverType _ => ?_
  refine (yields_true _).bind fun os _ => ?_
  refine (yields_true _).bind fun password _ => ?_
  refine (yields_true _).bind fun modified _ => ?_
  have hrest : ∀ modInfo : Option ModInfo, (∀ m ∈ modInfo, m.Canonical) →
      Yields (do
        let secure ← flag
        let bots ← u8
        return { address := some address, name, map, folder, game, players, maxPlayers, protocol,
                 serverType, os, flags := .ofBools password secure, modInfo, bots }) Canonical := by
    intro modInfo hmod
    refine (yields_true _).bind fun secure _ => ?_
    refine (yields_true _).bind fun bots _ => ?_
    exact yields_pure {
      name := hname
      map := hmap
      folder := hfolder
      game := hgame
      version := List.not_mem_nil
      layout := ⟨haddress, hmod, rfl, rfl, rfl, rfl⟩
      flags := ServerFlags.named_ofBools password secure }
  split
  · refine Yields.bind (P := fun x => ∀ m ∈ x, m.Canonical) (Yields.map ?_) hrest
    refine ModInfo.yields_read.imp fun m hm a ha => ?_
    cases ha
    exact hm
  · refine Yields.bind (P := fun x => ∀ m ∈ x, m.Canonical) (yields_pure ?_) hrest
    exact fun m hm => nomatch hm

end ServerInfo

/-! ## Players -/

namespace Player

theorem reads_bytes {p : Player} (h : p.Canonical) : Reads read p.bytes p := by
  intro rest
  simp only [bytes, read, List.append_assoc]
  rw [(reads_u8 _).run_bind, (reads_textBytes h.name).run_bind, (reads_i32 _).run_bind,
    (reads_u32 _).run_bind]
  have hself : p = { p with status := none } := by rw [← h.status]
  exact congrArg (EStateM.Result.ok · rest) hself.symm

theorem yields_read : Yields read Canonical := by
  refine (yields_true _).bind fun index _ => ?_
  refine yields_lossyText.bind fun name hname => ?_
  refine (yields_true _).bind fun score _ => ?_
  refine (yields_true _).bind fun time _ => ?_
  exact yields_pure ⟨hname, rfl⟩

theorem readMany_bytes {ps : List Player} (h : ∀ p ∈ ps, p.Canonical) {n : Nat}
    (hn : ps.length ≤ n) : readMany n (ps.flatMap bytes) = .ok ps [] := by
  induction ps generalizing n with
  | nil => cases n <;> rfl
  | cons p ps ih =>
    obtain ⟨n, rfl⟩ : ∃ m, n = m + 1 := Nat.exists_eq_succ_of_ne_zero (by
      rintro rfl
      simp at hn)
    have hps := ih (fun q hq => h q (List.mem_cons_of_mem p hq)) (Nat.le_of_succ_le_succ hn)
    have hp := reads_bytes (h p List.mem_cons_self)
    rw [List.flatMap_cons, readMany, bytes, List.append_assoc, List.singleton_append,
      atEnd_bind_cons, ← List.singleton_append, ← List.append_assoc]
    simp only [Bool.false_eq_true, if_false]
    rw [← bytes, hp.run_bind]
    simp only [bind, EStateM.bind, hps, pure, EStateM.pure]

theorem length_le_length_flatMap_bytes (ps : List Player) :
    ps.length ≤ (ps.flatMap bytes).length := by
  induction ps with
  | nil => exact Nat.le_refl 0
  | cons p ps ih =>
    simp only [List.flatMap_cons, List.length_cons, List.length_append, bytes, List.length_nil]
    omega

/-- The announced count has no say, so that lists of any length are read back. -/
theorem readAll_bytes {ps : List Player} (h : ∀ p ∈ ps, p.Canonical) (count : UInt8) :
    readAll ([count] ++ ps.flatMap bytes) = .ok ps [] := by
  rw [readAll, (reads_u8 count).run_bind]
  exact readMany_bytes h (length_le_length_flatMap_bytes ps)

theorem yields_readMany (n : Nat) : Yields (readMany n) fun ps => ∀ p ∈ ps, p.Canonical := by
  induction n with
  | zero => exact yields_pure fun p hp => nomatch hp
  | succ n ih =>
    refine (yields_true _).bind fun empty _ => ?_
    split
    · exact yields_pure fun p hp => nomatch hp
    · refine yields_read.bind fun p hp => ih.bind fun ps hps => yields_pure ?_
      exact List.forall_mem_cons.2 ⟨hp, hps⟩

theorem yields_readAll : Yields readAll fun ps => ∀ p ∈ ps, p.Canonical := by
  refine (yields_true _).bind fun count _ => ?_
  exact (yields_true _).bind fun remaining _ => yields_readMany _

end Player

/-! ## Rules -/

namespace Rules

theorem reads_ruleBytes {entries : List (String × String)}
    (h : ∀ entry ∈ entries, NulFree entry.1 ∧ NulFree entry.2 ∧ entry.1 ≠ "") :
    Reads (readMany entries.length) (entries.flatMap ruleBytes) entries := by
  induction entries with
  | nil => exact reads_pure []
  | cons entry entries ih =>
    obtain ⟨name, value⟩ := entry
    obtain ⟨hname, hvalue, hne⟩ := h (name, value) List.mem_cons_self
    have hrest := ih fun e he => h e (List.mem_cons_of_mem _ he)
    intro rest
    rw [List.flatMap_cons, ruleBytes, List.length_cons, readMany]
    simp only [List.append_assoc]
    rw [(reads_textBytes hname).run_bind, if_neg hne, (reads_textBytesOrRest hvalue).run_bind]
    simp only [bind, EStateM.bind, hrest rest, pure, EStateM.pure]

theorem reads_bytes {r : Rules} (h : r.Canonical) :
    Reads read (leBytes 2 (UInt16.ofNat r.size).toNat ++ r.entries.flatMap ruleBytes) r := by
  have hsize : (UInt16.ofNat r.size).toNat = r.entries.length :=
    UInt16.toNat_ofNat_of_lt' (Nat.lt_succ_of_le h.size)
  have hentries := (reads_ruleBytes h.entries).map ofList
  rw [ofList_entries] at hentries
  refine (reads_u16 (UInt16.ofNat r.size)).bind ?_
  rw [hsize]
  exact hentries

theorem yields_readMany (n : Nat) : Yields (readMany n) fun entries =>
    entries.length ≤ n ∧ ∀ entry ∈ entries, NulFree entry.1 ∧ NulFree entry.2 ∧ entry.1 ≠ "" := by
  induction n with
  | zero => exact yields_pure ⟨Nat.le_refl 0, fun e he => nomatch he⟩
  | succ n ih =>
    refine yields_lossyText.bind fun name hname => ?_
    split
    · exact yields_pure ⟨Nat.zero_le _, fun e he => nomatch he⟩
    · next hne =>
      refine yields_lossyTextOrRest.bind fun value hvalue => ih.bind fun entries hentries => ?_
      refine yields_pure ⟨Nat.succ_le_succ hentries.1, ?_⟩
      exact List.forall_mem_cons.2 ⟨⟨hname, hvalue, hne⟩, hentries.2⟩

theorem yields_read : Yields read Canonical := by
  refine (yields_true _).bind fun count _ => Yields.map ?_
  refine (yields_readMany count.toNat).imp fun entries h => ⟨?_, fun entry hentry => ?_⟩
  · have hcount := count.toNat_lt
    have hsize := size_ofList_le entries
    omega
  · exact h.2 entry (mem_of_mem_ofList hentry)

end Rules

/-! ## Console texts -/

/-- What is dropped from the end of console text. -/
def isTextEnd (c : Char) : Bool := c = '\n' ∨ c = '\x00'

theorem CanonicalText.tail {s tail : String} (h : CanonicalText s)
    (hs : s = String.ofList ('c' :: tail.toList)) : CanonicalText tail := by
  subst hs
  constructor
  · intro hmem
    refine h.nulFree ?_
    rw [String.toList_ofList]
    exact List.mem_cons_of_mem _ hmem
  · intro hlast
    refine h.noLineFeed ?_
    rw [String.toList_ofList, List.getLast?_cons, hlast]
    rfl

theorem CanonicalText.dropEndWhile_eq {s : String} (h : CanonicalText s) :
    Text.dropEndWhile isTextEnd s.toList = s.toList := by
  refine Text.dropEndWhile_of_getLast? fun c hc => ?_
  have hline : c ≠ '\n' := fun he => h.noLineFeed (he ▸ hc)
  have hnul : c ≠ '\x00' := fun he => h.nulFree (he ▸ List.mem_of_getLast? hc)
  simp [isTextEnd, hline, hnul]

theorem reads_readConsoleText {s : String} (h : NulFree s) :
    Reads readConsoleText (textBytes s) (Text.dropEndWhile isTextEnd s.toList) := by
  rw [← List.append_nil (textBytes s)]
  exact (reads_textBytesOrRest h).bind (reads_pure _)

theorem encode_append_lineFeed (s : String) :
    Text.Utf8.encode (s ++ "\n") = Text.Utf8.encode s ++ [0x0A] := by
  simp [Text.Utf8.encode, String.utf8EncodeChar]

theorem reads_readConsoleText_lineFeed {s : String} (h : CanonicalText s) :
    Reads readConsoleText (Text.Utf8.encode s ++ ([0x0A] ++ [0])) s.toList := by
  have hnul : NulFree (s ++ "\n") := by
    simpa [NulFree] using h.nulFree
  have hread := reads_readConsoleText hnul
  rw [textBytes, encode_append_lineFeed, List.append_assoc, String.toList_append,
    show "\n".toList = ['\n'] from rfl, Text.dropEndWhile_concat, if_pos (by decide),
    h.dropEndWhile_eq] at hread
  exact hread

theorem yields_readConsoleText : Yields readConsoleText fun cs =>
    '\x00' ∉ cs ∧ cs.getLast? ≠ some '\n' := by
  refine yields_lossyTextOrRest.bind fun s hs => yields_pure ⟨fun h => ?_, fun h => ?_⟩
  · exact hs ((Text.dropEndWhile_isPrefix _).subset h)
  · have hlast := Text.getLast?_dropEndWhile isTextEnd s.toList '\n' h
    exact absurd hlast (by decide)

/-! ## Replies -/

namespace Reply

theorem read_bytes_kind {kind : UInt8} {s : List UInt8} :
    read (leBytes 4 wholeHeader.toUInt32.toNat ++ (kind :: s)) = readKind kind s := by
  rw [read, (reads_i32 wholeHeader).run_bind, if_neg (by decide)]
  exact (reads_u8 kind).run_bind readKind s

theorem decode_of_readKind {kind : UInt8} {s rest : List UInt8} {r : Reply}
    (hbody : r.body = kind :: s) (h : readKind kind s = .ok r rest) :
    decode r.bytes = .ok r := by
  rw [decode, Reader.decode, bytes, hbody, read_bytes_kind, h]

theorem body_console_challenge {text : String}
    (h : challengePhrase.isPrefixOf text.toList = true) :
    ∃ tail : String, text = String.ofList ('c' :: tail.toList) ∧
      (console text).body = 0x63 :: (Text.Utf8.encode tail ++ ([0x0A] ++ [0])) := by
  obtain ⟨more, hmore⟩ := List.isPrefixOf_iff_prefix.1 h
  refine ⟨String.ofList ("hallenge".toList ++ more), ?_, ?_⟩
  · rw [String.toList_ofList, ← String.toList_inj, String.toList_ofList, ← hmore]
    rfl
  · have htext : text = String.ofList ('c' :: ("hallenge".toList ++ more)) := by
      rw [← String.toList_inj, String.toList_ofList, ← hmore]
      rfl
    have hbytes : Text.Utf8.encode text =
        0x63 :: Text.Utf8.encode (String.ofList ("hallenge".toList ++ more)) := by
      rw [htext]
      simp [Text.Utf8.encode, String.utf8EncodeChar]
    rw [body, if_pos h, hbytes]
    rfl

theorem decode_bytes {r : Reply} (h : r.Canonical) : decode r.bytes = .ok r := by
  cases r with
  | info i =>
    cases haddr : i.address with
    | none =>
      have hbody : (info i).body = 0x49 :: i.bytes := by simp [body, haddr]
      exact decode_of_readKind hbody (map_eq_ok (ServerInfo.read_bytes h haddr) info)
    | some address =>
      have hbody : (info i).body = 0x6D :: (i.detailedBytes ++ []) := by simp [body, haddr]
      exact decode_of_readKind hbody (map_eq_ok (ServerInfo.reads_detailedBytes h haddr []) info)
  | players ps =>
    exact decode_of_readKind rfl (map_eq_ok (Player.readAll_bytes h _) players)
  | rules r =>
    have hread := Rules.reads_bytes h []
    rw [List.append_nil] at hread
    exact decode_of_readKind rfl (map_eq_ok hread rules)
  | challenge n =>
    have hread := reads_i32 n []
    rw [List.append_nil] at hread
    exact decode_of_readKind rfl (map_eq_ok hread challenge)
  | console text =>
    by_cases hphrase : challengePhrase.isPrefixOf text.toList = true
    · obtain ⟨tail, htext, hbody⟩ := body_console_challenge hphrase
      have hread := reads_readConsoleText_lineFeed (h.tail htext) []
      rw [List.append_nil] at hread
      have hkind := map_eq_ok hread fun text => console (String.ofList ('c' :: text))
      rw [← htext] at hkind
      exact decode_of_readKind hbody hkind
    · have hread := reads_readConsoleText h.nulFree []
      rw [List.append_nil, h.dropEndWhile_eq] at hread
      have hkind := map_eq_ok hread fun text => console (String.ofList text)
      rw [String.ofList_toList] at hkind
      have hbody : (console text).body = 0x6C :: textBytes text := by simp [body, hphrase]
      exact decode_of_readKind hbody hkind
  | log text =>
    have hread := reads_readConsoleText h.nulFree []
    rw [List.append_nil, h.dropEndWhile_eq] at hread
    have hkind := map_eq_ok hread fun text => log (String.ofList text)
    rw [String.ofList_toList] at hkind
    exact decode_of_readKind rfl hkind

theorem canonicalText_ofList {cs : List Char} (h : '\x00' ∉ cs ∧ cs.getLast? ≠ some '\n') :
    CanonicalText (String.ofList cs) := by
  constructor
  · simpa [NulFree] using h.1
  · simpa using h.2

theorem yields_readKind (kind : UInt8) : Yields (readKind kind) Canonical := by
  have hcons : ∀ cs : List Char, '\x00' ∉ cs ∧ cs.getLast? ≠ some '\n' →
      CanonicalText (String.ofList ('c' :: cs)) := by
    intro cs hcs
    refine canonicalText_ofList ⟨by simpa using hcs.1, ?_⟩
    cases cs with
    | nil => decide
    | cons c cs => simpa using hcs.2
  rw [readKind]
  repeat' split
  · exact Yields.map ServerInfo.yields_read
  · exact Yields.map ServerInfo.yields_readDetailed
  · exact Yields.map Player.yields_readAll
  · exact Yields.map Rules.yields_read
  · exact Yields.map (yields_true _)
  · exact Yields.map (yields_readConsoleText.imp fun cs h => canonicalText_ofList h)
  · exact Yields.map (yields_readConsoleText.imp hcons)
  · exact Yields.map (yields_readConsoleText.imp fun cs h => canonicalText_ofList h)
  · exact yields_throw _

theorem yields_read : Yields read Canonical := by
  refine (yields_true _).bind fun header _ => ?_
  split
  · exact (yields_throw (P := fun _ => True) _).bind fun _ _ =>
      (yields_true _).bind fun kind _ => yields_readKind kind
  · exact (yields_true _).bind fun kind _ => yields_readKind kind

/-- Encoding a reply into a buffer with room for its bytes succeeds, and decoding gives the reply
back exactly if it is canonical. What is decoded is always canonical, so that encoding and
decoding it again changes nothing. -/
theorem decode_encode_iff_canonical (r : Reply) (buffer s : List UInt8) :
    (r.bytes.length ≤ buffer.length →
      ∃ filled, r.encode buffer = .ok filled ∧
        (decode filled.bytes = .ok r ↔ r.Canonical)) ∧
      (decode s = .ok r → r.Canonical ∧
        (r.bytes.length ≤ buffer.length →
          ∃ filled, r.encode buffer = .ok filled ∧ decode filled.bytes = .ok r)) := by
  have hcanonical : ∀ {t : List UInt8}, decode t = .ok r → r.Canonical :=
    fun ht => yields_of_decode yields_read ht
  have hencode : r.bytes.length ≤ buffer.length →
      ∃ filled, r.encode buffer = .ok filled ∧ filled.bytes = r.bytes := by
    intro hroom
    rw [encode, write_eq]
    exact Writer.encode_bytes_of_le hroom
  constructor
  · intro hroom
    obtain ⟨filled, hfilled, hbytes⟩ := hencode hroom
    refine ⟨filled, hfilled, ?_⟩
    rw [hbytes]
    exact ⟨hcanonical, decode_bytes⟩
  · intro hs
    refine ⟨hcanonical hs, fun hroom => ?_⟩
    obtain ⟨filled, hfilled, hbytes⟩ := hencode hroom
    exact ⟨filled, hfilled, hbytes ▸ decode_bytes (hcanonical hs)⟩

/-- A server of a modification without links. -/
def modifiedServer : ServerInfo :=
  { address := some "10.0.0.1:27015", name := "Srv", flags := .secure
    modInfo := some { version := -1, size := 1024 } }

theorem canonical_modifiedServer : modifiedServer.Canonical where
  name := by decide
  map := by decide
  folder := by decide
  game := by decide
  version := by decide
  layout := by
    refine ⟨by decide, ?_, rfl, rfl, rfl, rfl⟩
    intro m hm
    cases hm
    exact ⟨by decide, by decide⟩
  flags := by decide

theorem decode_encode_modifiedServer :
    let buffer := List.replicate 64 0
    (info modifiedServer).bytes.length ≤ buffer.length ∧ modifiedServer.Canonical ∧
      ∃ filled, (info modifiedServer).encode buffer = .ok filled ∧
        decode filled.bytes = .ok (info modifiedServer) := by
  intro buffer
  have hroom : (info modifiedServer).bytes.length ≤ buffer.length := by decide +kernel
  have hcodec := decode_encode_iff_canonical (info modifiedServer) buffer []
  obtain ⟨filled, hfilled, hdecode⟩ := hcodec.1 hroom
  exact ⟨hroom, canonical_modifiedServer, filled, hfilled, hdecode.2 canonical_modifiedServer⟩

/-- A server with a flag that means nothing. -/
def strayServer : ServerInfo := { name := "Srv", flags := 4 }

/-- A flag that means nothing is not written, so it does not come back. -/
theorem decode_encode_strayServer :
    strayServer.Fits ∧ ∃ filled, (info strayServer).encode (List.replicate 64 0) = .ok filled ∧
      decode filled.bytes ≠ .ok (info strayServer) := by
  have hfits : strayServer.Fits := {
    name := by decide
    map := by decide
    folder := by decide
    game := by decide
    version := by decide
    layout := ⟨rfl, by decide, ExtraData.canonical_empty⟩ }
  have hcleared : ServerInfo.Canonical { strayServer with flags := 0 } := {
    hfits with
    flags := by decide }
  have hroom : (info strayServer).bytes.length ≤ (List.replicate 64 (0 : UInt8)).length := by
    decide +kernel
  obtain ⟨filled, hfilled, hbytes⟩ := Writer.encode_bytes_of_le hroom
  have hdecode : decode (info { strayServer with flags := 0 }).bytes = .ok _ :=
    decode_bytes hcleared
  refine ⟨hfits, filled, ?_, ?_⟩
  · rw [encode, write_eq, hfilled]
  · change filled.bytes = (info { strayServer with flags := 0 }).bytes at hbytes
    rw [hbytes, hdecode]
    decide

end Reply

end GameQuery
