import GameQuery.Proofs.ReaderInversion
import GameQuery.Proofs.ReplyCodec

namespace GameQuery

/-!
# The form of listed players and rules

A server lists its players one after another up to the end of the datagram, whatever number it
announces. A list of rules ends with the announced number, with an empty name, or with the datagram,
which then may come in place of the NUL behind the last value. Lists of exactly these forms are
read. Names and values need not be UTF-8.
-/

open Reader

/-- The bytes of a text that a NUL can end. -/
structure RawText where
  bytes : List UInt8
  nulFree : 0 ∉ bytes

namespace RawText

def terminated (t : RawText) : List UInt8 := t.bytes ++ [0]

def text (t : RawText) : String := Text.Utf8.decodeLossy t.bytes

theorem text_eq_empty_iff {t : RawText} : t.text = "" ↔ t.bytes = [] :=
  Text.Utf8.decodeLossy_eq_empty_iff

theorem lossyText_eq_ok_iff {s rest : List UInt8} {text : String} :
    lossyText s = .ok text rest ↔
      ∃ raw : RawText, s = raw.terminated ++ rest ∧ raw.text = text := by
  rw [Reader.lossyText_eq_ok_iff]
  constructor
  · rintro ⟨raw, hraw, rfl, rfl⟩
    exact ⟨⟨raw, hraw⟩, by simp [terminated], rfl⟩
  · rintro ⟨raw, rfl, rfl⟩
    exact ⟨raw.bytes, raw.nulFree, by simp [terminated], rfl⟩

theorem lossyTextOrRest_eq_ok_iff {s rest : List UInt8} {text : String} :
    lossyTextOrRest s = .ok text rest ↔ ∃ raw : RawText,
      (s = raw.terminated ++ rest ∨ s = raw.bytes ∧ rest = []) ∧ raw.text = text := by
  rw [Reader.lossyTextOrRest_eq_ok_iff]
  constructor
  · rintro ⟨raw, hraw, hs, rfl⟩
    exact ⟨⟨raw, hraw⟩, by simpa [terminated] using hs, rfl⟩
  · rintro ⟨raw, hs, rfl⟩
    exact ⟨raw.bytes, raw.nulFree, by simpa [terminated] using hs, rfl⟩

theorem reads_lossyText (t : RawText) : Reads lossyText t.terminated t.text :=
  fun _ => lossyText_eq_ok_iff.2 ⟨t, rfl, rfl⟩

end RawText

/-! ## Players -/

/-- A player as a server lists it: a byte, a name, and four bytes each for the score and the
time. -/
structure PlayerRecord where
  index : UInt8
  name : RawText
  score : Int32
  time : Single

namespace PlayerRecord

def bytes (p : PlayerRecord) : List UInt8 :=
  p.index :: (p.name.terminated ++
    (leBytes 4 p.score.toUInt32.toNat ++ leBytes 4 p.time.bits.toNat))

def player (p : PlayerRecord) : Player where
  index := p.index
  name := p.name.text
  score := p.score
  time := p.time

end PlayerRecord

namespace Player

theorem read_eq_ok_iff {s rest : List UInt8} {p : Player} :
    read s = .ok p rest ↔
      ∃ record : PlayerRecord, s = record.bytes ++ rest ∧ record.player = p := by
  simp only [read, bind_eq_ok_iff, u8_eq_ok_iff, RawText.lossyText_eq_ok_iff, i32_eq_ok_iff,
    u32_eq_ok_iff, pure_eq_ok_iff]
  constructor
  · rintro ⟨index, _, rfl, _, _, ⟨name, rfl, rfl⟩, score, _, rfl, bits, _, rfl, rfl, rfl⟩
    exact ⟨⟨index, name, score, ⟨bits⟩⟩, by simp [PlayerRecord.bytes], rfl⟩
  · rintro ⟨record, rfl, rfl⟩
    refine ⟨record.index, _, rfl, _, _, ⟨record.name, ?_, rfl⟩, record.score, _, rfl,
      record.time.bits, _, rfl, rfl, rfl⟩
    simp

theorem readMany_nil_eq_ok_iff (n : Nat) {rest : List UInt8} {ps : List Player} :
    readMany n [] = .ok ps rest ↔ rest = [] ∧ ∃ records : List PlayerRecord,
      [] = records.flatMap PlayerRecord.bytes ∧ ps = records.map PlayerRecord.player := by
  have hnil : readMany n [] = .ok [] [] := by cases n <;> rfl
  rw [hnil]
  constructor
  · intro h
    cases h
    exact ⟨rfl, [], rfl, rfl⟩
  · rintro ⟨rfl, records, hs, rfl⟩
    cases records with
    | nil => rfl
    | cons record records => cases hs

theorem readMany_succ_cons (n : Nat) (b : UInt8) (s : List UInt8) :
    readMany (n + 1) (b :: s) = (read >>= fun p => (p :: ·) <$> readMany n) (b :: s) := by
  rw [readMany]
  rfl

theorem length_le_of_cons_eq {n : Nat} {b : UInt8} {s t : List UInt8} {record : PlayerRecord}
    (hn : (b :: s).length ≤ n + 1) (h : b :: s = record.bytes ++ t) : t.length ≤ n := by
  rw [h, PlayerRecord.bytes, List.cons_append, List.length_cons, List.length_append] at hn
  omega

/-- Every player takes a byte, so that as many players as there are bytes are all of them. -/
theorem readMany_eq_ok_iff {n : Nat} {s rest : List UInt8} (hn : s.length ≤ n) {ps : List Player} :
    readMany n s = .ok ps rest ↔ rest = [] ∧ ∃ records : List PlayerRecord,
      s = records.flatMap PlayerRecord.bytes ∧ ps = records.map PlayerRecord.player := by
  induction n generalizing s ps with
  | zero =>
    obtain rfl := List.eq_nil_of_length_eq_zero (Nat.le_zero.1 hn)
    exact readMany_nil_eq_ok_iff 0
  | succ n ih =>
    cases s with
    | nil => exact readMany_nil_eq_ok_iff (n + 1)
    | cons b s =>
      rw [readMany_succ_cons]
      simp only [bind_eq_ok_iff, map_eq_ok_iff, read_eq_ok_iff]
      constructor
      · rintro ⟨_, t, ⟨record, hs, rfl⟩, qs, hqs, rfl⟩
        obtain ⟨rfl, records, rfl, rfl⟩ := (ih (length_le_of_cons_eq hn hs)).1 hqs
        exact ⟨rfl, record :: records, hs, rfl⟩
      · rintro ⟨rfl, records, hs, rfl⟩
        cases records with
        | nil => cases hs
        | cons record records =>
          have hn := length_le_of_cons_eq hn hs
          exact ⟨_, _, ⟨record, hs, rfl⟩, _, (ih hn).2 ⟨rfl, records, rfl, rfl⟩, rfl⟩

theorem readAll_eq_ok_iff {s rest : List UInt8} {ps : List Player} :
    readAll s = .ok ps rest ↔ rest = [] ∧ ∃ count, ∃ records : List PlayerRecord,
      s = count :: records.flatMap PlayerRecord.bytes ∧ ps = records.map PlayerRecord.player := by
  simp only [readAll, bind_eq_ok_iff, u8_eq_ok_iff, get_eq_ok_iff]
  constructor
  · rintro ⟨count, t, rfl, _, _, ⟨rfl, rfl⟩, h⟩
    obtain ⟨rfl, records, rfl, rfl⟩ := (readMany_eq_ok_iff (Nat.le_refl _)).1 h
    exact ⟨rfl, count, records, rfl, rfl⟩
  · rintro ⟨rfl, count, records, rfl, rfl⟩
    exact ⟨count, _, rfl, _, _, ⟨rfl, rfl⟩,
      (readMany_eq_ok_iff (Nat.le_refl _)).2 ⟨rfl, records, rfl, rfl⟩⟩

end Player

/-! ## Rules -/

/-- A rule as a server lists it. The empty name would end the list. -/
structure RawRule where
  name : RawText
  value : RawText
  name_ne_nil : name.bytes ≠ []

namespace RawRule

def bytes (r : RawRule) : List UInt8 := r.name.terminated ++ r.value.terminated

/-- A rule whose value has no end but that of the datagram. -/
def openBytes (r : RawRule) : List UInt8 := r.name.terminated ++ r.value.bytes

def entry (r : RawRule) : String × String := (r.name.text, r.value.text)

end RawRule

/-- The forms of a list with an announced number of rules. The bytes `rest` are behind its end. -/
inductive RuleList : Nat → List UInt8 → List RawRule → Prop
  | full (rules : List RawRule) (rest : List UInt8) :
    RuleList rules.length (rules.flatMap RawRule.bytes ++ rest) rules
  | ended {count : Nat} {rules : List RawRule} (h : rules.length ≤ count) (rest : List UInt8) :
    RuleList count (rules.flatMap RawRule.bytes ++ 0 :: rest) rules
  | unterminated (rules : List RawRule) (last : RawRule) :
    RuleList (rules.length + 1) (rules.flatMap RawRule.bytes ++ last.openBytes) (rules ++ [last])

theorem RuleList.cons {count : Nat} {list : List UInt8} {rules : List RawRule}
    (h : RuleList count list rules) (rule : RawRule) :
    RuleList (count + 1) (rule.bytes ++ list) (rule :: rules) := by
  cases h with
  | full _ rest =>
    rw [← List.append_assoc, ← List.flatMap_cons]
    exact .full (rule :: rules) rest
  | ended h rest =>
    rw [← List.append_assoc, ← List.flatMap_cons]
    exact .ended (Nat.succ_le_succ h) rest
  | unterminated rules last =>
    rw [← List.append_assoc, ← List.flatMap_cons]
    exact .unterminated (rule :: rules) last

namespace Rules

/-- The name decides between the end of the list and one more rule, whose value may be open. -/
theorem readMany_succ_eq_ok_iff {n : Nat} {s rest : List UInt8} {entries : List (String × String)} :
    readMany (n + 1) s = .ok entries rest ↔ (s = 0 :: rest ∧ entries = []) ∨
      ∃ (rule : RawRule) (t : List UInt8) (tail : List (String × String)),
        (s = rule.bytes ++ t ∨ s = rule.openBytes ∧ t = []) ∧
          readMany n t = .ok tail rest ∧ entries = rule.entry :: tail := by
  rw [readMany, bind_eq_ok_iff]
  constructor
  · rintro ⟨_, t, hname, h⟩
    obtain ⟨name, rfl, rfl⟩ := RawText.lossyText_eq_ok_iff.1 hname
    split at h
    · next hempty =>
      obtain ⟨rfl, rfl⟩ := pure_eq_ok_iff.1 h
      apply Or.inl
      rw [RawText.terminated, RawText.text_eq_empty_iff.1 hempty]
      exact ⟨rfl, rfl⟩
    · next hne =>
      simp only [bind_eq_ok_iff, RawText.lossyTextOrRest_eq_ok_iff, pure_eq_ok_iff] at h
      obtain ⟨_, t, ⟨value, ht, rfl⟩, tail, _, htail, rfl, rfl⟩ := h
      let rule : RawRule := ⟨name, value, mt RawText.text_eq_empty_iff.2 hne⟩
      apply Or.inr
      refine ⟨rule, t, tail, ?_, htail, rfl⟩
      obtain rfl | ⟨rfl, rfl⟩ := ht
      · exact .inl (List.append_assoc _ _ _).symm
      · exact .inr ⟨rfl, rfl⟩
  · rintro (⟨rfl, rfl⟩ | ⟨rule, t, tail, hs, htail, rfl⟩)
    · let name : RawText := ⟨[], List.not_mem_nil⟩
      refine ⟨name.text, rest, name.reads_lossyText rest, ?_⟩
      rw [if_pos (RawText.text_eq_empty_iff.2 rfl)]
      rfl
    · obtain ⟨behind, hs, hvalue⟩ : ∃ behind, s = rule.name.terminated ++ behind ∧
          (behind = rule.value.terminated ++ t ∨ behind = rule.value.bytes ∧ t = []) := by
        obtain rfl | ⟨rfl, rfl⟩ := hs
        · exact ⟨_, List.append_assoc _ _ _, .inl rfl⟩
        · exact ⟨_, rfl, .inr ⟨rfl, rfl⟩⟩
      refine ⟨_, _, RawText.lossyText_eq_ok_iff.2 ⟨rule.name, hs, rfl⟩, ?_⟩
      rw [if_neg (mt RawText.text_eq_empty_iff.1 rule.name_ne_nil)]
      apply bind_eq_ok_iff.2
      refine ⟨_, t, RawText.lossyTextOrRest_eq_ok_iff.2 ⟨rule.value, hvalue, rfl⟩, ?_⟩
      exact bind_eq_ok_iff.2 ⟨tail, rest, htail, rfl⟩

/-- After some rules, the rest of the list is read as a list of its own. -/
theorem readMany_append (rules : List RawRule) {n : Nat} {s rest : List UInt8}
    {entries : List (String × String)} (h : readMany n s = .ok entries rest) :
    readMany (rules.length + n) (rules.flatMap RawRule.bytes ++ s) =
      .ok (rules.map RawRule.entry ++ entries) rest := by
  induction rules with
  | nil => simpa using h
  | cons rule rules ih =>
    rw [List.length_cons, Nat.add_right_comm, List.flatMap_cons, List.append_assoc]
    exact readMany_succ_eq_ok_iff.2 (.inr ⟨rule, _, _, .inl rfl, ih, rfl⟩)

theorem exists_readMany_of_ruleList {count : Nat} {list : List UInt8} {rules : List RawRule}
    (h : RuleList count list rules) :
    ∃ rest, readMany count list = .ok (rules.map RawRule.entry) rest := by
  cases h with
  | full _ rest => exact ⟨rest, by simpa using readMany_append rules (n := 0) (s := rest) rfl⟩
  | ended hle rest =>
    obtain ⟨n, rfl⟩ := Nat.exists_eq_add_of_le hle
    have hend : ∃ t, readMany n (0 :: rest) = .ok [] t := by
      cases n with
      | zero => exact ⟨_, rfl⟩
      | succ n => exact ⟨_, readMany_succ_eq_ok_iff.2 (.inl ⟨rfl, rfl⟩)⟩
    obtain ⟨t, ht⟩ := hend
    exact ⟨t, by simpa using readMany_append rules ht⟩
  | unterminated rules last =>
    have hlast : readMany 1 last.openBytes = .ok [last.entry] [] :=
      readMany_succ_eq_ok_iff.2 (.inr ⟨last, _, _, .inr ⟨rfl, rfl⟩, rfl, rfl⟩)
    exact ⟨[], by simpa using readMany_append rules hlast⟩

theorem exists_ruleList_of_readMany {count : Nat} {list rest : List UInt8}
    {entries : List (String × String)} (h : readMany count list = .ok entries rest) :
    ∃ rules, RuleList count list rules ∧ entries = rules.map RawRule.entry := by
  induction count generalizing list entries with
  | zero =>
    cases h
    exact ⟨[], .full [] rest, rfl⟩
  | succ n ih =>
    obtain ⟨rfl, rfl⟩ | ⟨rule, t, tail, hs, htail, rfl⟩ := readMany_succ_eq_ok_iff.1 h
    · have hend : RuleList (n + 1) ([].flatMap RawRule.bytes ++ 0 :: rest) [] :=
        .ended (Nat.zero_le _) rest
      exact ⟨[], hend, rfl⟩
    · obtain rfl | ⟨rfl, rfl⟩ := hs
      · obtain ⟨rules, hlist, rfl⟩ := ih htail
        exact ⟨rule :: rules, hlist.cons rule, rfl⟩
      · cases n with
        | zero =>
          cases htail
          exact ⟨[rule], .unterminated [] rule, rfl⟩
        | succ n => cases htail

/-- What is behind the list does not matter, so it is left open. -/
theorem read_eq_ok_iff {s : List UInt8} {q : Rules} :
    (∃ rest, read s = .ok q rest) ↔ ∃ (count : UInt16) (list : List UInt8) (rules : List RawRule),
      s = leBytes 2 count.toNat ++ list ∧ RuleList count.toNat list rules ∧
        ∀ name, q.entries.lookup name = (rules.map RawRule.entry).reverse.lookup name := by
  simp only [read, bind_eq_ok_iff, u16_eq_ok_iff, map_eq_ok_iff, ofList_eq_iff]
  constructor
  · rintro ⟨rest, count, list, rfl, entries, hread, hvalues⟩
    obtain ⟨rules, hlist, rfl⟩ := exists_ruleList_of_readMany hread
    exact ⟨count, list, rules, rfl, hlist, hvalues⟩
  · rintro ⟨count, list, rules, rfl, hlist, hvalues⟩
    obtain ⟨rest, hread⟩ := exists_readMany_of_ruleList hlist
    exact ⟨rest, count, list, rfl, _, hread, hvalues⟩

end Rules

namespace Reply

theorem decode_players_eq_ok_iff {body : List UInt8} {r : Reply} :
    decode (leBytes 4 wholeHeader.toUInt32.toNat ++ 0x44 :: body) = .ok r ↔
      ∃ (count : UInt8) (records : List PlayerRecord),
        body = count :: records.flatMap PlayerRecord.bytes ∧
          r = players (records.map PlayerRecord.player) := by
  have hkind : readKind 0x44 = players <$> Player.readAll := rfl
  simp only [decode, decode_eq_ok_iff, read_bytes_kind, hkind, map_eq_ok_iff,
    Player.readAll_eq_ok_iff]
  constructor
  · rintro ⟨_, _, ⟨rfl, count, records, hbody, rfl⟩, rfl⟩
    exact ⟨count, records, hbody, rfl⟩
  · rintro ⟨count, records, hbody, rfl⟩
    exact ⟨[], _, ⟨rfl, count, records, hbody, rfl⟩, rfl⟩

theorem decode_rules_eq_ok_iff {body : List UInt8} {r : Reply} :
    decode (leBytes 4 wholeHeader.toUInt32.toNat ++ 0x45 :: body) = .ok r ↔
      ∃ (count : UInt16) (list : List UInt8) (listed : List RawRule),
        body = leBytes 2 count.toNat ++ list ∧ RuleList count.toNat list listed ∧
          ∃ q, r = rules q ∧
            ∀ name, q.entries.lookup name = (listed.map RawRule.entry).reverse.lookup name := by
  have hkind : readKind 0x45 = rules <$> Rules.read := rfl
  simp only [decode, decode_eq_ok_iff, read_bytes_kind, hkind, map_eq_ok_iff]
  constructor
  · rintro ⟨rest, q, hread, rfl⟩
    obtain ⟨count, list, listed, hbody, hlist, hvalues⟩ := Rules.read_eq_ok_iff.1 ⟨rest, hread⟩
    exact ⟨count, list, listed, hbody, hlist, q, rfl, hvalues⟩
  · rintro ⟨count, list, listed, hbody, hlist, q, rfl, hvalues⟩
    obtain ⟨rest, hread⟩ := Rules.read_eq_ok_iff.2 ⟨count, list, listed, hbody, hlist, hvalues⟩
    exact ⟨rest, q, hread, rfl⟩

/-- A body of players is read exactly if it is a byte and whole records, however many. A body of
rules is read exactly if it is a number and a list for this number, and the last of several values
with one name counts. -/
theorem decode_lists (body : List UInt8) (r : Reply) :
    (decode (leBytes 4 wholeHeader.toUInt32.toNat ++ 0x44 :: body) = .ok r ↔
      ∃ (count : UInt8) (records : List PlayerRecord),
        body = count :: records.flatMap PlayerRecord.bytes ∧
          r = players (records.map PlayerRecord.player)) ∧
    (decode (leBytes 4 wholeHeader.toUInt32.toNat ++ 0x45 :: body) = .ok r ↔
      ∃ (count : UInt16) (list : List UInt8) (listed : List RawRule),
        body = leBytes 2 count.toNat ++ list ∧ RuleList count.toNat list listed ∧
          ∃ q, r = rules q ∧
            ∀ name, q.entries.lookup name = (listed.map RawRule.entry).reverse.lookup name) :=
  ⟨decode_players_eq_ok_iff, decode_rules_eq_ok_iff⟩

end Reply

end GameQuery
