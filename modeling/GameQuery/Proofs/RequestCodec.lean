import GameQuery.Proofs.FilterText
import GameQuery.Proofs.RequestNumbers

namespace GameQuery

/-!
# Requests are told apart

What a server reads as a request for information, players or rules is exactly what a client writes
of it. A line for the console comes back if its password has no space, which would end it. The byte
behind the header decides who reads a datagram, so no datagram is two kinds of request.
-/

open Reader Writer

theorem Request.encodes_bytes (r : Request) : Encodes r.write.encode r.bytes := by
  rw [r.write_eq]
  exact Writer.encodes_bytes r.bytes

namespace ConsoleLine

/-- The password of a command ends at the next space. -/
def SpaceFree : ConsoleLine → Prop
  | challenge => True
  | exec _ password _ | more _ password => ' ' ∉ password.toList

/-- The characters of a line. -/
def text : ConsoleLine → List Char
  | challenge => challengeText
  | exec number password command =>
    commandStart ++ (Text.decimal number.toNat ++
      ' ' :: (password.toList ++ ' ' :: command.toList))
  | more number password => commandStart ++ (Text.decimal number.toNat ++ ' ' :: password.toList)

theorem bytes_eq (line : ConsoleLine) :
    line.bytes = requestStart ++ Text.Utf8.encode (String.ofList line.text) := by
  have hspace : String.utf8EncodeChar ' ' = [0x20] := by decide
  cases line <;> simp [bytes, text, commandBytes, Text.Utf8.encode, hspace]

theorem space_notMem_decimal (n : Nat) : ' ' ∉ Text.decimal n :=
  fun h => absurd (Text.isDigit_of_mem_decimal h) (by decide)

/-! ## Reading a line -/

theorem parse_append (arguments : List Char) :
    parse (commandStart ++ arguments) = parseArguments arguments := by
  have hcommand : commandStart = 'r' :: "con ".toList := by decide
  have hchallenge : challengeText = 'c' :: "hallenge rcon".toList := by decide
  have hne : commandStart ++ arguments ≠ challengeText := by
    rw [hcommand, hchallenge]
    exact fun h => absurd (List.cons.inj h).1 (by decide)
  have hstart : commandStart.isPrefixOf (commandStart ++ arguments) = true := by simp
  rw [parse, if_neg hne, if_pos hstart, List.drop_left]

theorem parse_eq_some_iff {text : List Char} {line : ConsoleLine} :
    parse text = some line ↔ (text = challengeText ∧ line = challenge) ∨
      ∃ arguments, text = commandStart ++ arguments ∧ parseArguments arguments = some line := by
  constructor
  · intro h
    rw [parse] at h
    split at h
    · next htext =>
      cases h
      exact .inl ⟨htext, rfl⟩
    · split at h
      · next hstart =>
        have htext := List.prefix_iff_eq_append.1 (List.isPrefixOf_iff_prefix.1 hstart)
        exact .inr ⟨_, htext.symm, h⟩
      · cases h
  · rintro (⟨rfl, rfl⟩ | ⟨arguments, rfl, h⟩)
    · exact if_pos rfl
    · rw [parse_append, h]

theorem parseArguments_append (number : UInt32) (rest : List Char) :
    parseArguments (Text.decimal number.toNat ++ ' ' :: rest) =
      match Text.splitOnce ' ' rest with
      | some (password, command) =>
        some (exec number (String.ofList password) (String.ofList command))
      | none => some (more number (String.ofList rest)) := by
  rw [parseArguments, Text.splitOnce_append (space_notMem_decimal _)]
  simp only [Option.bind_eq_bind, Option.bind_some, Text.readUInt32_decimal]
  rfl

theorem parse_text {line : ConsoleLine} (h : line.SpaceFree) : parse line.text = some line := by
  cases line with
  | challenge => exact if_pos rfl
  | exec number password command =>
    rw [text, parse_append, parseArguments_append, Text.splitOnce_append h]
    simp only [String.ofList_toList]
  | more number password =>
    rw [text, parse_append, parseArguments_append, Text.splitOnce_eq_none_iff.2 h]
    simp only [String.ofList_toList]

theorem of_parseArguments {text : List Char} {line : ConsoleLine}
    (h : parseArguments text = some line) : line.SpaceFree ∧ line ≠ challenge := by
  simp only [parseArguments, Option.bind_eq_bind, Option.bind_eq_some_iff] at h
  obtain ⟨⟨_, rest⟩, -, number, -, h⟩ := h
  split at h
  · next hsplit =>
    cases h
    refine ⟨?_, nofun⟩
    rw [SpaceFree, String.toList_ofList]
    exact (Text.splitOnce_eq_some hsplit).2
  · next hsplit =>
    cases h
    refine ⟨?_, nofun⟩
    rw [SpaceFree, String.toList_ofList]
    exact Text.splitOnce_eq_none_iff.1 hsplit

theorem spaceFree_of_parse {text : List Char} {line : ConsoleLine} (h : parse text = some line) :
    line.SpaceFree := by
  obtain ⟨-, rfl⟩ | ⟨arguments, -, harguments⟩ := parse_eq_some_iff.1 h
  · trivial
  · exact (of_parseArguments harguments).1

theorem decode_eq_ok_iff {s : List UInt8} {line : ConsoleLine} :
    decode s = .ok line ↔
      ∃ text : String, s = requestStart ++ Text.Utf8.encode text ∧
        parse text.toList = some line := by
  simp only [decode, Reader.decode_eq_ok_iff, read, bind_eq_ok_iff, literal_eq_ok_iff,
    get_eq_ok_iff, text_eq_ok_iff]
  constructor
  · rintro ⟨rest, _, _, rfl, _, _, ⟨rfl, rfl⟩, text, behind, ⟨hall, rfl⟩, h⟩
    obtain rfl : behind = [] := by simpa using hall
    cases hparse : parse text.toList with
    | none =>
      rw [hparse] at h
      exact absurd h (throw_ne_ok _)
    | some line =>
      rw [hparse] at h
      obtain ⟨rfl, -⟩ := pure_eq_ok_iff.1 h
      exact ⟨text, by rw [List.append_nil], hparse⟩
  · rintro ⟨text, rfl, hparse⟩
    refine ⟨[], (), _, rfl, _, _, ⟨rfl, rfl⟩, text, [], ⟨rfl, (List.append_nil _).symm⟩, ?_⟩
    rw [hparse]
    rfl

theorem decode_bytes_iff {line : ConsoleLine} :
    decode line.bytes = .ok line ↔ line.SpaceFree := by
  rw [decode_eq_ok_iff]
  constructor
  · rintro ⟨text, -, hparse⟩
    exact spaceFree_of_parse hparse
  · intro h
    exact ⟨String.ofList line.text, line.bytes_eq, by rw [String.toList_ofList, parse_text h]⟩

end ConsoleLine

namespace Request

/-- A server takes the datagram for the request. -/
def IsReadFrom (s : List UInt8) : Request → Prop
  | info r => InfoRequest.decode s = .ok r
  | players r => PlayersRequest.decode s = .ok r
  | rules r => RulesRequest.decode s = .ok r
  | console line => ConsoleLine.decode s = .ok line

variable {s : List UInt8} {q r : Request}

theorem exists_kind_of_parse {text : String} {line : ConsoleLine}
    (h : ConsoleLine.parse text.toList = some line) :
    ∃ rest, Text.Utf8.encode text = (console line).kind :: rest := by
  obtain ⟨htext, rfl⟩ | ⟨arguments, htext, harguments⟩ := ConsoleLine.parse_eq_some_iff.1 h
  · rw [← String.ofList_toList (s := text), htext]
    exact ⟨_, ConsoleLine.encode_challengeText⟩
  · have hkind : (console line).kind = 0x72 := by
      cases line with
      | challenge => exact absurd rfl (ConsoleLine.of_parseArguments harguments).2
      | exec | more => rfl
    have hstart := ConsoleLine.encode_commandStart
    rw [Text.Utf8.encode, String.toList_ofList] at hstart
    rw [Text.Utf8.encode, htext, List.flatMap_append, hstart, hkind]
    exact ⟨_, rfl⟩

/-- Whoever reads the request has looked at the byte behind the header. -/
theorem IsReadFrom.exists_kind (h : r.IsReadFrom s) :
    ∃ rest, s = requestStart ++ r.kind :: rest := by
  cases r with
  | info request =>
    rw [InfoRequest.decode_eq_ok_iff.1 h]
    exact exists_bytes_eq _
  | players request =>
    rw [PlayersRequest.decode_eq_ok_iff.1 h]
    exact exists_bytes_eq _
  | rules request =>
    rw [RulesRequest.decode_eq_ok_iff.1 h]
    exact exists_bytes_eq _
  | console line =>
    obtain ⟨text, rfl, hparse⟩ := ConsoleLine.decode_eq_ok_iff.1 h
    obtain ⟨rest, hrest⟩ := exists_kind_of_parse hparse
    exact ⟨rest, by rw [hrest]⟩

theorem IsReadFrom.unique (hq : q.IsReadFrom s) (hr : r.IsReadFrom s) : q = r := by
  have hkind : r.kind = q.kind := by
    obtain ⟨t, ht⟩ := hq.exists_kind
    obtain ⟨u, hu⟩ := hr.exists_kind
    rw [ht, List.append_cancel_left_eq] at hu
    exact (List.cons.inj hu).1.symm
  cases q with
  | info request =>
    obtain ⟨other, rfl⟩ := exists_info hkind
    cases hq.symm.trans hr
    rfl
  | players request =>
    obtain ⟨other, rfl⟩ := exists_players hkind
    cases hq.symm.trans hr
    rfl
  | rules request =>
    obtain ⟨other, rfl⟩ := exists_rules hkind
    cases hq.symm.trans hr
    rfl
  | console line =>
    obtain ⟨other, rfl⟩ := exists_console (hkind ▸ kind_console line)
    cases hq.symm.trans hr
    rfl

/-- Requests for information, players and rules are read exactly from what is written of them, and a
line for the console comes back exactly if its password has no space. No datagram is read as two
requests. -/
theorem requests_told_apart :
    (∀ (s : List UInt8) (r : InfoRequest), InfoRequest.decode s = .ok r ↔ Encodes r.encode s) ∧
    (∀ (s : List UInt8) (r : PlayersRequest),
      PlayersRequest.decode s = .ok r ↔ Encodes r.encode s) ∧
    (∀ (s : List UInt8) (r : RulesRequest), RulesRequest.decode s = .ok r ↔ Encodes r.encode s) ∧
    (∀ line : ConsoleLine, ∃ s, Encodes line.encode s ∧
      (ConsoleLine.decode s = .ok line ↔ line.SpaceFree)) ∧
    ∀ (s : List UInt8) (q r : Request), q.IsReadFrom s → r.IsReadFrom s → q = r := by
  refine ⟨?_, ?_, ?_, ?_, ?_⟩
  · intro s r
    rw [InfoRequest.decode_eq_ok_iff]
    exact (encodes_bytes (info r)).eq_iff
  · intro s r
    rw [PlayersRequest.decode_eq_ok_iff]
    exact (encodes_bytes (players r)).eq_iff
  · intro s r
    rw [RulesRequest.decode_eq_ok_iff]
    exact (encodes_bytes (rules r)).eq_iff
  · intro line
    exact ⟨line.bytes, encodes_bytes (console line), ConsoleLine.decode_bytes_iff⟩
  · intro s q r hq hr
    exact hq.unique hr

end Request

end GameQuery
