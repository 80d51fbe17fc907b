import GameQuery.Proofs.ReplyCodec

namespace GameQuery

/-!
# Replies that are cut short

A reader that gets only the bytes in front of a cut either runs out of bytes or does not notice the
cut. It misses every number and every text that has to end in a NUL. It does not miss extra data that
are lost as a whole, players that are lost as a whole, and the end of the last value of some rules.
-/

namespace Reader

variable {α β : Type} {r : Reader α} {k : α → Reader β} {s s' : List UInt8} {a : α} {b : β}

/-- The reader gives the only value that `P` allows, or it runs out of bytes and `P` allows none. -/
def Gives (r : Reader α) (s : List UInt8) (P : α → Prop) : Prop :=
  (∃ a, decode r s = .ok a ∧ ∀ b, P b ↔ b = a) ∨ decode r s = .error .endOfBuffer ∧ ∀ b, ¬ P b

/-- What the reader gives for `s` without the bytes that are lost at its end. -/
structure Cuts (r : Reader α) (s : List UInt8) (P : List UInt8 → α → Prop) : Prop where
  within : ∀ lost a, P lost a → lost.length ≤ s.length
  gives : ∀ t lost, s = t ++ lost → lost ≠ [] → Gives r t (P lost)

/-- The reader takes `s` and gives `a`, and it runs out of bytes if any of them is lost. -/
structure Demands (r : Reader α) (s : List UInt8) (a : α) : Prop where
  reads : Reads r s a
  cuts : Cuts r s fun _ _ => False

theorem decode_bind_of_ok {t rest : List UInt8} (h : r t = .ok a rest) (k : α → Reader β) :
    decode (r >>= k) t = decode (k a) rest := by
  simp only [decode, bind, EStateM.bind, h]

theorem decode_bind_of_error {t : List UInt8} {e : CodecError} (h : decode r t = .error e)
    (k : α → Reader β) : decode (r >>= k) t = .error e := by
  simp only [decode] at h
  split at h
  · cases h
  · next he =>
    cases h
    simp only [decode, bind, EStateM.bind, he]

theorem decode_map (f : α → β) (t : List UInt8) : decode (f <$> r) t = (decode r t).map f := by
  simp only [decode, Functor.map, EStateM.map]
  cases r t <;> rfl

section Gives

variable {P Q : α → Prop}

theorem Gives.ok_iff (h : Gives r s P) (b : α) : decode r s = .ok b ↔ P b := by
  rcases h with ⟨a, ha, hP⟩ | ⟨he, hP⟩
  · rw [ha, hP, Except.ok.injEq, eq_comm]
  · rw [he]
    exact ⟨nofun, fun hb => (hP b hb).elim⟩

theorem Gives.error_eq (h : Gives r s P) {e : CodecError} (he : decode r s = .error e) :
    e = .endOfBuffer := by
  rcases h with ⟨a, ha, -⟩ | ⟨hend, -⟩
  · rw [ha] at he
    cases he
  · rw [hend] at he
    exact (Except.error.inj he).symm

theorem Gives.congr (h : Gives r s P) (hPQ : ∀ b, P b ↔ Q b) : Gives r s Q := by
  have hsame : P = Q := funext fun b => propext (hPQ b)
  exact hsame ▸ h

theorem Gives.map (h : Gives r s P) (f : α → β) : Gives (f <$> r) s fun b => ∃ a, P a ∧ f a = b := by
  rw [Gives, decode_map]
  rcases h with ⟨a, ha, hP⟩ | ⟨he, hP⟩
  · rw [ha]
    refine .inl ⟨f a, rfl, fun b => ?_⟩
    simp [hP, eq_comm]
  · rw [he]
    exact .inr ⟨rfl, fun b ⟨a, ha, _⟩ => hP a ha⟩

theorem gives_of_ok (h : decode r s = .ok a) : Gives r s (· = a) := .inl ⟨a, h, fun _ => Iff.rfl⟩

theorem gives_of_error (h : decode r s = .error .endOfBuffer) : Gives r s fun _ => False :=
  .inr ⟨h, fun _ => id⟩

end Gives

theorem Cuts.of_error (h : ∀ t lost, s = t ++ lost → lost ≠ [] → decode r t = .error .endOfBuffer) :
    Cuts r s fun _ _ => False where
  within := nofun
  gives t lost hs hlost := gives_of_error (h t lost hs hlost)

theorem Cuts.congr {P Q : List UInt8 → α → Prop} (h : Cuts r s P)
    (hPQ : ∀ lost a, P lost a ↔ Q lost a) : Cuts r s Q := by
  have hsame : P = Q := funext fun lost => funext fun a => propext (hPQ lost a)
  exact hsame ▸ h

theorem Cuts.map {P : List UInt8 → α → Prop} (h : Cuts r s P) (f : α → β) :
    Cuts (f <$> r) s fun lost b => ∃ a, P lost a ∧ f a = b where
  within := by
    rintro lost _ ⟨a, ha, rfl⟩
    exact h.within lost a ha
  gives t lost hs hlost := (h.gives t lost hs hlost).map f

/-- A cut is behind `s`, where the reader goes on, or inside `s`, where it is noticed. -/
theorem Demands.cut (h : Demands r s a) (k : α → Reader β) {t lost : List UInt8}
    (hs : s ++ s' = t ++ lost) (hlost : lost ≠ []) :
    (∃ t', t = s ++ t' ∧ s' = t' ++ lost ∧ decode (r >>= k) t = decode (k a) t') ∨
      s'.length < lost.length ∧ decode (r >>= k) t = .error .endOfBuffer := by
  rcases List.append_eq_append_iff.1 hs with ⟨t', rfl, hs'⟩ | ⟨inside, hinside, rfl⟩
  · exact .inl ⟨t', rfl, hs', decode_bind_of_ok (h.reads t') k⟩
  · by_cases hnil : inside = []
    · subst hnil
      rw [List.append_nil] at hinside
      subst hinside
      have hread := h.reads []
      rw [List.append_nil] at hread
      exact .inl ⟨[], (List.append_nil s).symm, rfl, decode_bind_of_ok hread k⟩
    · have hpos := List.length_pos_iff.2 hnil
      have hnone : ∀ b, decode r t ≠ .ok b := fun b hb =>
        ((h.cuts.gives t inside hinside hnil).ok_iff b).1 hb
      have hend : decode r t = .error .endOfBuffer := by
        cases hr : decode r t with
        | ok b => exact (hnone b hr).elim
        | error e => rw [(h.cuts.gives t inside hinside hnil).error_eq hr]
      refine .inr ⟨?_, decode_bind_of_error hend k⟩
      rw [List.length_append]
      omega

theorem Demands.cuts_bind {P : List UInt8 → β → Prop} (h : Demands r s a) (hk : Cuts (k a) s' P) :
    Cuts (r >>= k) (s ++ s') P where
  within lost b hP := by
    rw [List.length_append]
    exact Nat.le_add_left_of_le (hk.within lost b hP)
  gives t lost hs hlost := by
    rcases h.cut k hs hlost with ⟨t', -, hs', heq⟩ | ⟨hlength, heq⟩
    · rw [Gives, heq]
      exact hk.gives t' lost hs' hlost
    · refine .inr ⟨heq, fun b hP => ?_⟩
      exact absurd (hk.within lost b hP) (Nat.not_le_of_lt hlength)

theorem cuts_pure (a : α) : Cuts (pure a) [] fun _ _ => False :=
  .of_error fun _ _ hs hlost => absurd (List.append_eq_nil_iff.1 hs.symm).2 hlost

theorem demands_pure (a : α) : Demands (pure a) [] a := ⟨reads_pure a, cuts_pure a⟩

theorem Demands.map (h : Demands r s a) (f : α → β) : Demands (f <$> r) s (f a) :=
  ⟨h.reads.map f, (h.cuts.map f).congr fun _ _ => by simp⟩

/-! ## Numbers and texts -/

theorem cuts_map_number {n : Nat} (h : s.length = n) (f : Nat → α) :
    Cuts (f <$> number n) s fun _ _ => False := by
  apply Cuts.of_error
  rintro t lost rfl hlost
  have hpos := List.length_pos_iff.2 hlost
  have hshort : ¬ n ≤ t.length := by
    rw [List.length_append] at h
    omega
  rw [decode_map, number, decode_map, decode, bytes, splitOff_eq, if_neg hshort]
  rfl

theorem demands_u8 (v : UInt8) : Demands u8 [v] v :=
  ⟨reads_u8 v, cuts_map_number List.length_singleton _⟩

theorem demands_u16 (v : UInt16) : Demands u16 (leBytes 2 v.toNat) v :=
  ⟨reads_u16 v, cuts_map_number (length_leBytes 2 _) _⟩

theorem demands_u32 (v : UInt32) : Demands u32 (leBytes 4 v.toNat) v :=
  ⟨reads_u32 v, cuts_map_number (length_leBytes 4 _) _⟩

theorem demands_u64 (v : UInt64) : Demands u64 (leBytes 8 v.toNat) v :=
  ⟨reads_u64 v, cuts_map_number (length_leBytes 8 _) _⟩

theorem demands_i32 (v : Int32) : Demands i32 (leBytes 4 v.toUInt32.toNat) v :=
  ⟨reads_i32 v, ((demands_u32 v.toUInt32).map _).cuts⟩

theorem demands_flag (v : Bool) : Demands flag [flagByte v] v :=
  ⟨reads_flagByte v, ((demands_u8 _).map _).cuts⟩

/-- With any of its bytes, a text loses the NUL that ends it. -/
theorem textBytes_cut {text : String} (h : NulFree text) {t lost : List UInt8}
    (hs : textBytes text = t ++ lost) (hlost : lost ≠ []) :
    splitAtNul t = none ∧ ∃ tail, lost = tail ++ [0] ∧ Text.Utf8.encode text = t ++ tail := by
  have hconcat := (List.dropLast_concat_getLast hlost).symm
  rw [hconcat, textBytes, ← List.append_assoc] at hs
  obtain ⟨htext, hlast⟩ := List.append_inj' hs rfl
  refine ⟨splitAtNul_of_notMem fun hmem => ?_, lost.dropLast, ?_, htext⟩
  · have hzero : 0 ∉ Text.Utf8.encode text := mt (Text.Utf8.zero_mem_encode text).1 h
    rw [htext] at hzero
    exact hzero (List.mem_append_left _ hmem)
  · rw [hlast]
    exact hconcat

theorem demands_lossyText {text : String} (h : NulFree text) :
    Demands lossyText (textBytes text) text where
  reads := reads_textBytes h
  cuts := .of_error fun t lost hs hlost => by
    rw [lossyText, decode_map, decode, untilNul, (textBytes_cut h hs hlost).1]
    rfl

end Reader

open Reader

/-! ## Server information -/

namespace ExtraData

theorem demands_readIf {α : Type} {r : Reader α} {f : α → List UInt8} {flags mask : UInt8}
    {x : Option α} (hx : x.isSome = decide (flags &&& mask ≠ 0))
    (h : ∀ a ∈ x, Demands r (f a) a) : Demands (readIf flags mask r) (someBytes f x) x := by
  cases x with
  | none =>
    have hm : ¬ flags &&& mask ≠ 0 := by simpa using hx
    rw [readIf, if_neg hm]
    exact demands_pure none
  | some a =>
    have hm : flags &&& mask ≠ 0 := by simpa using hx
    rw [readIf, if_pos hm]
    exact (h a rfl).map some

/-- Reads extra data that are there. -/
def readPresent : Reader ExtraData := do
  let flags ← Reader.u8
  let port ← readIf flags 0x80 Reader.u16
  let steamId ← readIf flags 0x10 Reader.u64
  let tvPort ← readIf flags 0x40 Reader.u16
  let tvName ← readIf flags 0x40 Reader.lossyText
  let keywords ← readIf flags 0x20 Reader.lossyText
  let gameId ← readIf flags 0x01 Reader.u64
  return { port, steamId, tvPort, tvName, keywords, gameId }

theorem cuts_readPresent {e : ExtraData} (h : e.Canonical) (hne : e ≠ {}) :
    Cuts readPresent e.bytes fun _ _ => False := by
  obtain ⟨hport, hsteam, htv, hwords, hgame⟩ := e.flags_and
  have hname : e.tvName.isSome = decide (e.flags &&& 0x40 ≠ 0) := h.relay.trans htv
  have hempty : ¬ e.isEmpty = true := by simpa [isEmpty] using hne
  rw [bytes, if_neg hempty, relay_bytes h, ← List.append_nil (someBytes _ e.gameId),
    List.append_assoc]
  apply (demands_u8 e.flags).cuts_bind
  apply (demands_readIf hport fun _ _ => demands_u16 _).cuts_bind
  apply (demands_readIf hsteam fun _ _ => demands_u64 _).cuts_bind
  apply (demands_readIf htv fun _ _ => demands_u16 _).cuts_bind
  apply (demands_readIf hname fun s hs => demands_lossyText (h.tvName s hs)).cuts_bind
  apply (demands_readIf hwords fun s hs => demands_lossyText (h.keywords s hs)).cuts_bind
  apply (demands_readIf hgame fun _ _ => demands_u64 _).cuts_bind
  apply cuts_pure

/-- Extra data are not missed if all of them are lost. -/
theorem cuts_read {e : ExtraData} (h : e.Canonical) :
    Cuts read e.bytes fun lost a => lost = e.bytes ∧ a = {} where
  within := by
    rintro lost a ⟨rfl, -⟩
    exact Nat.le_refl _
  gives t lost hs hlost := by
    cases t with
    | nil =>
      apply (gives_of_ok (a := {}) (by rw [decode, read_nil])).congr
      simp [hs]
    | cons c t =>
      have hne : e ≠ {} := by
        rintro rfl
        cases hs
      apply ((cuts_readPresent h hne).gives (c :: t) lost hs hlost).congr
      intro a
      constructor
      · exact False.elim
      · intro hall
        rw [← hall.1] at hs
        exact absurd (List.self_eq_append_left.1 hs) (List.cons_ne_nil c t)

end ExtraData

theorem TheShip.demands_read (s : TheShip) : Demands read s.bytes s where
  reads := reads_bytes s
  cuts := by
    change Cuts read ([s.mode] ++ ([s.witnesses] ++ ([s.duration] ++ []))) _
    apply (demands_u8 s.mode).cuts_bind
    apply (demands_u8 s.witnesses).cuts_bind
    apply (demands_u8 s.duration).cuts_bind
    apply cuts_pure

theorem ModInfo.demands_read {m : ModInfo} (h : m.Canonical) : Demands read m.bytes m where
  reads := reads_bytes h
  cuts := by
    rw [bytes, ← List.append_nil [flagByte m.clientDll]]
    apply (demands_lossyText h.urlInfo).cuts_bind
    apply (demands_lossyText h.urlDownload).cuts_bind
    apply (demands_u8 0).cuts_bind
    apply (demands_i32 m.version).cuts_bind
    apply (demands_i32 m.size).cuts_bind
    apply (demands_flag m.serverOnly).cuts_bind
    apply (demands_flag m.clientDll).cuts_bind
    apply cuts_pure

namespace ServerInfo

variable {i : ServerInfo}

theorem demands_serverType (t : ServerType) :
    Demands (ServerType.ofByte <$> u8) [t.toByte] t := by
  have h := (demands_u8 t.toByte).map ServerType.ofByte
  rwa [ServerType.ofByte_toByte] at h

theorem demands_os (os : Os) : Demands (Os.ofByte <$> u8) [os.toByte] os := by
  have h := (demands_u8 os.toByte).map Os.ofByte
  rwa [Os.ofByte_toByte] at h

theorem demands_theShip (h : i.theShip.isSome ↔ i.appId = TheShip.appId) :
    Demands (if i.appId = TheShip.appId then some <$> TheShip.read else pure none)
      (if i.appId = TheShip.appId then (i.theShip.getD {}).bytes else []) i.theShip where
  reads := reads_theShip h
  cuts := by
    split
    · exact ((TheShip.demands_read _).map some).cuts
    · exact cuts_pure none

theorem demands_modInfo {x : Option ModInfo} (h : ∀ m ∈ x, m.Canonical) :
    Demands (if x.isSome then some <$> ModInfo.read else pure none)
      (someBytes ModInfo.bytes x) x := by
  cases x with
  | none => exact demands_pure none
  | some m => exact (ModInfo.demands_read (h m rfl)).map some

theorem cuts_read (h : i.Canonical) (haddr : i.address = none) :
    Cuts read i.bytes fun lost j => lost = i.extra.bytes ∧ j = { i with extra := {} } := by
  obtain ⟨hmod, hship, hextra⟩ : i.modInfo = none ∧
      (i.theShip.isSome ↔ i.appId = TheShip.appId) ∧ i.extra.Canonical := by
    simpa [haddr] using h.layout
  rw [bytes]
  apply (demands_u8 i.protocol).cuts_bind
  apply (demands_lossyText h.name).cuts_bind
  apply (demands_lossyText h.map).cuts_bind
  apply (demands_lossyText h.folder).cuts_bind
  apply (demands_lossyText h.game).cuts_bind
  apply (demands_u16 i.appId).cuts_bind
  apply (demands_u8 i.players).cuts_bind
  apply (demands_u8 i.maxPlayers).cuts_bind
  apply (demands_u8 i.bots).cuts_bind
  apply (demands_serverType i.serverType).cuts_bind
  apply (demands_os i.os).cuts_bind
  apply (demands_flag i.hasPassword).cuts_bind
  apply (demands_flag i.isSecure).cuts_bind
  rw [ite_bind]
  apply (demands_theShip hship).cuts_bind
  apply (demands_lossyText h.version).cuts_bind
  rw [← map_eq_pure_bind]
  apply ((ExtraData.cuts_read hextra).map _).congr
  have hself : { i with extra := {} } = { i with extra := {}, address := none, modInfo := none } := by
    rw [← haddr, ← hmod]
  have hflags : ServerFlags.ofBools i.hasPassword i.isSecure = i.flags :=
    ServerFlags.ofBools_contains h.flags
  intro lost j
  rw [hself, hflags]
  simp [eq_comm]

theorem cuts_readDetailed (h : i.Canonical) {address : String} (haddr : i.address = some address) :
    Cuts readDetailed i.detailedBytes fun _ _ => False := by
  obtain ⟨haddress, hmod, -⟩ : NulFree address ∧ (∀ m ∈ i.modInfo, m.Canonical) ∧ i.appId = 0 ∧
      i.theShip = none ∧ i.version = "" ∧ i.extra = {} := by
    simpa [haddr] using h.layout
  rw [detailedBytes, haddr, Option.getD_some, ← List.append_nil [i.bots]]
  apply (demands_lossyText haddress).cuts_bind
  apply (demands_lossyText h.name).cuts_bind
  apply (demands_lossyText h.map).cuts_bind
  apply (demands_lossyText h.folder).cuts_bind
  apply (demands_lossyText h.game).cuts_bind
  apply (demands_u8 i.players).cuts_bind
  apply (demands_u8 i.maxPlayers).cuts_bind
  apply (demands_u8 i.protocol).cuts_bind
  apply (demands_serverType i.serverType).cuts_bind
  apply (demands_os i.os).cuts_bind
  apply (demands_flag i.hasPassword).cuts_bind
  apply (demands_flag i.modInfo.isSome).cuts_bind
  rw [ite_bind]
  apply (demands_modInfo hmod).cuts_bind
  apply (demands_flag i.isSecure).cuts_bind
  apply (demands_u8 i.bots).cuts_bind
  apply cuts_pure

end ServerInfo

/-! ## Players -/

namespace Player

variable {ps : List Player}

theorem demands_read {p : Player} (h : p.Canonical) : Demands read p.bytes p where
  reads := reads_bytes h
  cuts := by
    rw [bytes, ← List.append_nil (leBytes 4 p.time.bits.toNat)]
    apply (demands_u8 p.index).cuts_bind
    apply (demands_lossyText h.name).cuts_bind
    apply (demands_i32 p.score).cuts_bind
    apply (demands_u32 p.time.bits).cuts_bind
    apply cuts_pure

/-- The players that are left if all behind them are lost. -/
def Kept (ps : List Player) (lost : List UInt8) (qs : List Player) : Prop :=
  ∃ gone, ps = qs ++ gone ∧ lost = gone.flatMap bytes

theorem kept_of_all_iff (ps qs : List Player) : Kept ps (ps.flatMap bytes) qs ↔ qs = [] := by
  constructor
  · rintro ⟨gone, rfl, hlost⟩
    rw [List.flatMap_append, List.append_left_eq_self] at hlost
    have hlength := length_le_length_flatMap_bytes qs
    rw [hlost] at hlength
    exact List.eq_nil_of_length_eq_zero (Nat.le_zero.1 hlength)
  · rintro rfl
    exact ⟨ps, rfl, rfl⟩

theorem kept_cons_iff {p : Player} {lost : List UInt8}
    (h : lost.length < ((p :: ps).flatMap bytes).length) (qs : List Player) :
    Kept (p :: ps) lost qs ↔ ∃ rs, Kept ps lost rs ∧ p :: rs = qs := by
  constructor
  · rintro ⟨gone, hps, rfl⟩
    cases qs with
    | nil =>
      rw [hps] at h
      exact absurd h (Nat.lt_irrefl _)
    | cons q qs =>
      obtain ⟨rfl, rfl⟩ := List.cons.inj hps
      exact ⟨qs, ⟨gone, rfl, rfl⟩, rfl⟩
  · rintro ⟨rs, ⟨gone, rfl, rfl⟩, rfl⟩
    exact ⟨gone, rfl, rfl⟩

theorem not_kept_of_lt {lost : List UInt8} (h : (ps.flatMap bytes).length < lost.length)
    (qs : List Player) : ¬ Kept ps lost qs := by
  rintro ⟨gone, rfl, rfl⟩
  rw [List.flatMap_append, List.length_append] at h
  omega

theorem gives_readMany (h : ∀ p ∈ ps, p.Canonical) {t lost : List UInt8}
    (hs : ps.flatMap bytes = t ++ lost) (hlost : lost ≠ []) {n : Nat} (hn : t.length ≤ n) :
    Gives (readMany n) t (Kept ps lost) := by
  induction ps generalizing t n with
  | nil => exact absurd (List.append_eq_nil_iff.1 hs.symm).2 hlost
  | cons p ps ih =>
    cases t with
    | nil =>
      have hread : decode (readMany n) [] = .ok [] := by cases n <;> rfl
      rw [List.nil_append] at hs
      apply (gives_of_ok hread).congr
      intro qs
      rw [← hs, kept_of_all_iff]
    | cons c t =>
      obtain ⟨n, rfl⟩ : ∃ m, n = m + 1 := Nat.exists_eq_succ_of_ne_zero (by
        rintro rfl
        cases hn)
      have hshorter : lost.length < ((p :: ps).flatMap bytes).length := by
        rw [hs, List.length_append, List.length_cons]
        omega
      have hread : decode (readMany (n + 1)) (c :: t) =
          decode (read >>= fun p => (p :: ·) <$> readMany n) (c :: t) := by
        rw [readMany]
        rfl
      rw [Gives, hread]
      obtain ⟨hp, hps⟩ := List.forall_mem_cons.1 h
      rcases (demands_read hp).cut _ hs hlost with ⟨t', ht, hs', heq⟩ | ⟨hlong, heq⟩
      · -- The first player is there, so the cut is behind.
        rw [heq]
        have hlength : t'.length ≤ n := by
          have ht' := congrArg List.length ht
          rw [bytes, List.length_append, List.length_append] at ht'
          simp only [List.length_cons, List.length_nil] at ht' hn
          omega
        apply ((ih hps hs' hlength).map (p :: ·)).congr
        intro qs
        rw [kept_cons_iff hshorter]
      · refine .inr ⟨heq, fun qs hkept => ?_⟩
        obtain ⟨rs, hrs, -⟩ := (kept_cons_iff hshorter qs).1 hkept
        exact not_kept_of_lt hlong rs hrs

/-- The announced count does not tell whether players are missing. -/
theorem cuts_readAll (h : ∀ p ∈ ps, p.Canonical) (count : UInt8) :
    Cuts readAll ([count] ++ ps.flatMap bytes) (Kept ps) := by
  apply (demands_u8 count).cuts_bind
  constructor
  · intro lost qs hkept
    apply Nat.le_of_not_lt
    exact fun hlt => not_kept_of_lt hlt qs hkept
  · intro t lost hs hlost
    have hread : decode (get >>= fun remaining => readMany remaining.length) t =
        decode (readMany t.length) t := rfl
    rw [Gives, hread]
    exact gives_readMany h hs hlost (Nat.le_refl _)

end Player

/-! ## Rules -/

namespace Rules

variable {entries : List (String × String)}

/-- The rules that are left if an end of the last value is lost. -/
def Shortened (entries : List (String × String)) (lost : List UInt8)
    (es : List (String × String)) : Prop :=
  ∃ front name value kept gone, entries = front ++ [(name, value)] ∧
    Text.Utf8.encode value = kept ++ gone ∧ lost = gone ++ [0] ∧
      es = front ++ [(name, Text.Utf8.decodeLossy kept)]

theorem shortened_cons_iff (entry : String × String) (hne : entries ≠ []) (lost : List UInt8)
    (es : List (String × String)) :
    Shortened (entry :: entries) lost es ↔ ∃ rs, Shortened entries lost rs ∧ entry :: rs = es := by
  constructor
  · rintro ⟨front, name, value, kept, gone, hentries, hvalue, rfl, rfl⟩
    cases front with
    | nil => exact absurd (List.cons.inj hentries).2 hne
    | cons e front =>
      obtain ⟨rfl, rfl⟩ := List.cons.inj hentries
      exact ⟨_, ⟨front, name, value, kept, gone, rfl, hvalue, rfl, rfl⟩, rfl⟩
  · rintro ⟨rs, ⟨front, name, value, kept, gone, rfl, hvalue, rfl, rfl⟩, rfl⟩
    exact ⟨entry :: front, name, value, kept, gone, rfl, hvalue, rfl, rfl⟩

theorem shortened_singleton_iff {name value : String} {t lost : List UInt8}
    (hvalue : NulFree value) (hs : textBytes value = t ++ lost) (hlost : lost ≠ [])
    (es : List (String × String)) :
    Shortened [(name, value)] lost es ↔ es = [(name, Text.Utf8.decodeLossy t)] := by
  obtain ⟨-, tail, rfl, htail⟩ := textBytes_cut hvalue hs hlost
  constructor
  · rintro ⟨front, name', value', kept, gone, hentries, hkept, hgone, rfl⟩
    cases front with
    | nil =>
      cases hentries
      rw [htail, List.append_cancel_right hgone] at hkept
      rw [List.append_cancel_right hkept]
      rfl
    | cons e front => exact absurd (List.cons.inj hentries).2 (by simp)
  · rintro rfl
    exact ⟨[], name, value, t, tail, rfl, htail, rfl, rfl⟩

theorem length_le_of_shortened {lost : List UInt8} {es : List (String × String)}
    (h : Shortened entries lost es) : lost.length ≤ (entries.flatMap ruleBytes).length := by
  obtain ⟨front, name, value, kept, gone, rfl, hvalue, rfl, rfl⟩ := h
  simp only [List.flatMap_append, List.flatMap_singleton, List.length_append, ruleBytes, textBytes,
    hvalue]
  omega

theorem length_le_of_shortened_cons {name value : String} {lost : List UInt8}
    {es : List (String × String)} (h : Shortened ((name, value) :: entries) lost es) :
    lost.length ≤ (textBytes value ++ entries.flatMap ruleBytes).length := by
  rw [List.length_append]
  by_cases hne : entries = []
  · obtain ⟨front, name', value', kept, gone, hentries, hvalue, rfl, -⟩ := h
    subst hne
    cases front with
    | nil =>
      cases hentries
      simp only [textBytes, hvalue, List.length_append]
      omega
    | cons e front => exact absurd (List.cons.inj hentries).2 (by simp)
  · obtain ⟨rs, hrs, -⟩ := (shortened_cons_iff _ hne lost es).1 h
    exact Nat.le_add_left_of_le (length_le_of_shortened hrs)

/-- Behind a value the cut is for the rules that follow. Inside a value it is taken for its end. -/
theorem lossyTextOrRest_cut {value : String} (h : NulFree value) {s t lost : List UInt8}
    (hs : textBytes value ++ s = t ++ lost) :
    (∃ t', s = t' ++ lost ∧ lossyTextOrRest t = .ok value t') ∨
      ∃ inside, inside ≠ [] ∧ textBytes value = t ++ inside ∧ lost = inside ++ s ∧
        lossyTextOrRest t = .ok (Text.Utf8.decodeLossy t) [] := by
  rcases List.append_eq_append_iff.1 hs with ⟨t', rfl, hs'⟩ | ⟨inside, hinside, rfl⟩
  · exact .inl ⟨t', hs', reads_textBytesOrRest h t'⟩
  · by_cases hnil : inside = []
    · have hread := reads_textBytesOrRest h []
      rw [List.append_nil, hinside, hnil, List.append_nil] at hread
      exact .inl ⟨[], by rw [hnil, List.nil_append, List.nil_append], hread⟩
    · refine .inr ⟨inside, hnil, hinside, rfl, ?_⟩
      rw [lossyTextOrRest, (textBytes_cut h hinside hnil).1]

/-- The number of rules tells that rules are missing, but not that the end of a value is. -/
theorem cuts_readMany
    (h : ∀ entry ∈ entries, NulFree entry.1 ∧ NulFree entry.2 ∧ entry.1 ≠ "") :
    Cuts (readMany entries.length) (entries.flatMap ruleBytes) (Shortened entries) := by
  induction entries with
  | nil =>
    refine ⟨fun lost es => length_le_of_shortened, fun t lost hs hlost => ?_⟩
    exact absurd (List.append_eq_nil_iff.1 hs.symm).2 hlost
  | cons entry entries ih =>
    obtain ⟨name, value⟩ := entry
    obtain ⟨⟨hname, hvalue, hne⟩, hrest⟩ := List.forall_mem_cons.1 h
    rw [List.flatMap_cons, ruleBytes, List.append_assoc, List.length_cons, readMany]
    apply (demands_lossyText hname).cuts_bind
    rw [if_neg hne]
    refine ⟨fun lost es => length_le_of_shortened_cons, fun t lost hs hlost => ?_⟩
    rcases lossyTextOrRest_cut hvalue hs with ⟨t', hs', hread⟩ | ⟨inside, hnil, hinside, rfl, hread⟩
    · have hentries : entries ≠ [] := by
        rintro rfl
        exact hlost (List.append_eq_nil_iff.1 hs'.symm).2
      rw [Gives, decode_bind_of_ok hread, ← map_eq_pure_bind]
      apply (((ih hrest).gives t' lost hs' hlost).map _).congr
      exact fun es => (shortened_cons_iff _ hentries lost es).symm
    · rw [Gives, decode_bind_of_ok hread]
      cases entries with
      | nil =>
        have hone : decode (readMany 0 >>= fun es =>
            pure ((name, Text.Utf8.decodeLossy t) :: es)) [] =
              .ok [(name, Text.Utf8.decodeLossy t)] := rfl
        rw [List.flatMap_nil, List.append_nil]
        exact (gives_of_ok hone).congr fun es =>
          (shortened_singleton_iff hvalue hinside hnil es).symm
      | cons next entries =>
        refine .inr ⟨rfl, fun es hes => ?_⟩
        obtain ⟨rs, hrs, -⟩ := (shortened_cons_iff _ (List.cons_ne_nil _ _) _ es).1 hes
        have hle := length_le_of_shortened hrs
        have hpos := List.length_pos_iff.2 hnil
        rw [List.length_append] at hle
        omega

/-- A value may change without a change of the order. -/
theorem pairwise_of_shortened {r : Rules} {lost : List UInt8} {es : List (String × String)}
    (h : Shortened r.entries lost es) : es.Pairwise (fun a b => a.1 < b.1) := by
  obtain ⟨front, name, value, kept, gone, hentries, -, -, rfl⟩ := h
  have hsorted := r.sorted
  rw [hentries] at hsorted
  rw [List.pairwise_append] at hsorted ⊢
  refine ⟨hsorted.1, List.pairwise_singleton _ _, fun a ha b hb => ?_⟩
  rw [List.mem_singleton.1 hb]
  exact hsorted.2.2 a ha (name, value) (List.mem_singleton_self _)

theorem cuts_read {r : Rules} (h : r.Canonical) :
    Cuts read (leBytes 2 (UInt16.ofNat r.size).toNat ++ r.entries.flatMap ruleBytes)
      fun lost q => Shortened r.entries lost q.entries := by
  have hsize : (UInt16.ofNat r.size).toNat = r.entries.length :=
    UInt16.toNat_ofNat_of_lt' (Nat.lt_succ_of_le h.size)
  apply (demands_u16 (UInt16.ofNat r.size)).cuts_bind
  rw [hsize]
  apply ((cuts_readMany h.entries).map ofList).congr
  intro lost q
  constructor
  · rintro ⟨es, hes, rfl⟩
    rwa [entries_ofList (pairwise_of_shortened hes)]
  · intro hq
    exact ⟨q.entries, hq, ofList_entries q⟩

end Rules

/-! ## Replies -/

namespace Reply

/-- What a reply turns into if bytes at its end are lost and nothing tells that they are: server
information that had extra data, players that were followed by others, and rules the last of which
had more of a value. -/
inductive Unnoticed : Reply → List UInt8 → Reply → Prop
  | extra {i : ServerInfo} (h : i.address = none) :
    Unnoticed (info i) i.extra.bytes (info { i with extra := {} })
  | players (front gone : List Player) :
    Unnoticed (players (front ++ gone)) (gone.flatMap Player.bytes) (players front)
  | rules {r q : Rules} {front : List (String × String)} {name value : String}
    {kept gone : List UInt8} (hr : r.entries = front ++ [(name, value)])
    (hvalue : Text.Utf8.encode value = kept ++ gone)
    (hq : q.entries = front ++ [(name, Text.Utf8.decodeLossy kept)]) :
    Unnoticed (rules r) (gone ++ [0]) (rules q)

/-- Replies other than texts. -/
def IsText : Reply → Prop
  | console _ | log _ => True
  | _ => False

theorem cuts_kind {kind : UInt8} {s : List UInt8} {P : List UInt8 → Reply → Prop}
    (h : Cuts (readKind kind) s P) :
    Cuts read (leBytes 4 wholeHeader.toUInt32.toNat ++ ([kind] ++ s)) P := by
  apply (demands_i32 wholeHeader).cuts_bind
  rw [if_neg (by decide)]
  exact (demands_u8 kind).cuts_bind h

theorem cuts_read {p : Reply} (h : p.Canonical) (htext : ¬ p.IsText) :
    Cuts read p.bytes (Unnoticed p) := by
  cases p with
  | info i =>
    cases haddr : i.address with
    | none =>
      have hbody : (info i).body = [0x49] ++ i.bytes := by simp [body, haddr]
      rw [bytes, hbody]
      apply cuts_kind
      apply ((ServerInfo.cuts_read h haddr).map info).congr
      intro lost q
      constructor
      · rintro ⟨j, ⟨rfl, rfl⟩, rfl⟩
        exact .extra haddr
      · rintro ⟨⟩
        exact ⟨_, ⟨rfl, rfl⟩, rfl⟩
    | some address =>
      have hbody : (info i).body = [0x6D] ++ i.detailedBytes := by simp [body, haddr]
      rw [bytes, hbody]
      apply cuts_kind
      apply ((ServerInfo.cuts_readDetailed h haddr).map info).congr
      intro lost q
      constructor
      · rintro ⟨j, hj, -⟩
        exact hj.elim
      · rintro ⟨hnone⟩
        cases hnone.symm.trans haddr
  | players ps =>
    apply cuts_kind
    apply ((Player.cuts_readAll h (UInt8.ofNat ps.length)).map players).congr
    intro lost q
    constructor
    · rintro ⟨qs, ⟨gone, rfl, rfl⟩, rfl⟩
      exact .players qs gone
    · rintro ⟨⟩
      exact ⟨_, ⟨_, rfl, rfl⟩, rfl⟩
  | rules r =>
    apply cuts_kind
    apply ((Rules.cuts_read h).map rules).congr
    intro lost q
    constructor
    · rintro ⟨r', ⟨front, name, value, kept, gone, hr, hvalue, rfl, hq⟩, rfl⟩
      exact .rules hr hvalue hq
    · intro hq
      cases hq with
      | rules hr hvalue hq => exact ⟨_, ⟨_, _, _, _, _, hr, hvalue, rfl, hq⟩, rfl⟩
  | challenge n =>
    apply cuts_kind
    apply ((demands_i32 n).map challenge).cuts.congr
    intro lost q
    constructor
    · exact False.elim
    · rintro ⟨⟩
  | console text => exact absurd trivial htext
  | log text => exact absurd trivial htext

/-- A reply that is cut short is read as another one exactly in the three cases in which nothing
tells that bytes are lost. In every other case the reader runs out of bytes. -/
theorem decode_cut_iff {p : Reply} (htext : ¬ p.IsText) {buffer : List UInt8}
    {filled : Writer.Filled} (hfilled : p.encode buffer = .ok filled)
    (hround : decode filled.bytes = .ok p) {t lost : List UInt8} (hs : filled.bytes = t ++ lost)
    (hlost : lost ≠ []) :
    (∀ q, decode t = .ok q ↔ Unnoticed p lost q) ∧
      ∀ e, decode t = .error e → e = .endOfBuffer := by
  have hbytes : filled.bytes = p.bytes := by
    rw [encode, write_eq] at hfilled
    exact Writer.bytes_of_encode hfilled
  have hgives := (cuts_read (yields_of_decode yields_read hround) htext).gives t lost
    (hbytes.symm.trans hs) hlost
  exact ⟨hgives.ok_iff, fun e => hgives.error_eq⟩

/-- The cut is inside the last letter of the last value. -/
theorem decode_cut_iff_letter :
    let front : List (String × String) := [("mp_timelimit", "20")]
    let p := rules ⟨front ++ [("sv_motto", "café")], by decide⟩
    let q := rules ⟨front ++ [("sv_motto", "caf\uFFFD")], by decide⟩
    let buffer := List.replicate 64 0
    ¬ p.IsText ∧ ∃ filled t, p.encode buffer = .ok filled ∧ decode filled.bytes = .ok p ∧
      filled.bytes = t ++ [0xA9, 0] ∧ decode t = .ok q := by
  intro front p q buffer
  have htext : ¬ p.IsText := nofun
  have hentries : ∀ entry ∈ front ++ [("sv_motto", "café")],
      '\x00' ∉ entry.1.toList ∧ '\x00' ∉ entry.2.toList ∧ entry.1 ≠ "" := by decide
  have hcanonical : p.Canonical := ⟨by decide, hentries⟩
  have hroom : p.bytes.length ≤ buffer.length := by decide
  obtain ⟨filled, hfilled, hbytes⟩ := Writer.encode_bytes_of_le hroom
  rw [← write_eq] at hfilled
  have hround : decode filled.bytes = .ok p := by rw [hbytes, decode_bytes hcanonical]
  have hcut : filled.bytes = p.bytes.take 36 ++ [0xA9, 0] := by
    rw [hbytes]
    decide
  have hvalue : Text.Utf8.encode "café" = [0x63, 0x61, 0x66, 0xC3] ++ [0xA9] := by decide
  have hkept : Text.Utf8.decodeLossy [0x63, 0x61, 0x66, 0xC3] = "caf\uFFFD" := by decide +kernel
  have hlost : Unnoticed p [0xA9, 0] q := .rules rfl hvalue (by rw [hkept])
  refine ⟨htext, filled, _, hfilled, hround, hcut, ?_⟩
  exact ((decode_cut_iff htext hfilled hround hcut (List.cons_ne_nil _ _)).1 q).2 hlost

end Reply

end GameQuery
