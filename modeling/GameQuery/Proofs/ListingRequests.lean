import GameQuery.Proofs.AddressText
import GameQuery.Proofs.DiscoveryAttempt
import GameQuery.Proofs.ReaderLaws

namespace GameQuery

/-!
# Requests that a master server reads back

A request holds the region, the cursor up to a NUL, and the filter up to the end. One NUL at the end
does not belong to the filter. So a filter may hold NULs itself, and the NUL behind it may be missing
unless the filter ends in one.
-/

namespace Text.Utf8

theorem encode_concat (cs : List Char) (c : Char) :
    encode (String.ofList (cs ++ [c])) = encode (String.ofList cs) ++ String.utf8EncodeChar c := by
  simp [encode]

/-- A text ends in the byte zero exactly if its last character is the NUL. -/
theorem getLast?_encode (s : String) :
    (encode s).getLast? = some 0 ↔ s.toList.getLast? = some '\x00' := by
  obtain ⟨cs, rfl⟩ : ∃ cs, s = String.ofList cs := ⟨s.toList, String.ofList_toList.symm⟩
  rw [String.toList_ofList]
  induction cs using List.reverseRecOn with
  | nil => decide
  | append_singleton cs c =>
    obtain ⟨b, t, hc, -⟩ := scan_utf8EncodeChar c []
    have hlast : (encode (String.ofList (cs ++ [c]))).getLast? =
        (String.utf8EncodeChar c).getLast? := by
      rw [encode_concat, List.getLast?_append, hc]
      exact Option.or_of_isSome (by simp)
    rw [hlast, List.getLast?_concat, Option.some.injEq, ← zero_mem_utf8EncodeChar]
    constructor
    · exact List.mem_of_getLast?
    · intro hzero
      rw [(zero_mem_utf8EncodeChar c).1 hzero]
      rfl

end Text.Utf8

namespace ListingQuery

open Reader

/-- The bytes in front of the filter. -/
def opening (q : ListingQuery) : List UInt8 :=
  [0x31] ++ ([q.region.toByte] ++ (Text.Utf8.encode (String.ofList q.last.text) ++ [0]))

theorem bytes_eq (q : ListingQuery) :
    q.bytes = q.opening ++ (Text.Utf8.encode q.filter ++ [0]) := by
  simp [bytes, opening]

theorem dropLast_bytes (q : ListingQuery) :
    q.bytes.dropLast = q.opening ++ Text.Utf8.encode q.filter := by
  rw [bytes_eq, ← List.append_assoc, List.dropLast_concat]

theorem nul_notMem_last (q : ListingQuery) : '\x00' ∉ (String.ofList q.last.text).toList := by
  rw [String.toList_ofList]
  intro hmem
  rcases SocketAddressV4.mem_text hmem with h | h | h
  all_goals exact absurd h (by decide)

/-- Behind the opening of a request, a text is the filter, but for a NUL at its end. -/
theorem decode_opening_append (q : ListingQuery) {filter : List UInt8} {text : String}
    (h : dropNul filter = Text.Utf8.encode text) :
    decode (q.opening ++ filter) = .ok { q with filter := text } := by
  have hread : read (q.opening ++ filter) = .ok { q with filter := text } [] := by
    rw [opening, List.append_assoc, List.append_assoc, read, (reads_literal _).run_bind,
      (reads_u8 _).run_bind, Region.ofByte?_toByte]
    dsimp only
    rw [(reads_textUntilNul q.nul_notMem_last).run_bind]
    simp only [bind, EStateM.bind, rest, String.toList_ofList, SocketAddressV4.parse?_text, h,
      Text.Utf8.decode?_encode]
    rfl
  rw [decode, Reader.decode, hread]

theorem decode_bytes (q : ListingQuery) : decode q.bytes = .ok q := by
  rw [bytes_eq]
  apply decode_opening_append
  rw [dropNul, List.getLast?_concat, if_pos rfl, List.dropLast_concat]

/-- Without its last byte, a request has another filter exactly if the filter ends in a NUL. -/
theorem decode_dropLast_bytes (q : ListingQuery) :
    decode q.bytes.dropLast = .ok q ↔ q.filter.toList.getLast? ≠ some '\x00' := by
  rw [dropLast_bytes]
  constructor
  · intro hdecode hnul
    obtain ⟨cs, hcs⟩ := List.getLast?_eq_some_iff.1 hnul
    have hfilter : q.filter = String.ofList (cs ++ ['\x00']) := by
      rw [← hcs, String.ofList_toList]
    have hdrop : dropNul (Text.Utf8.encode q.filter) = Text.Utf8.encode (String.ofList cs) := by
      rw [dropNul, if_pos ((Text.Utf8.getLast?_encode _).2 hnul), hfilter,
        Text.Utf8.encode_concat]
      exact List.dropLast_concat
    rw [decode_opening_append q hdrop] at hdecode
    have hsame : (String.ofList cs).toList = q.filter.toList :=
      congrArg (fun r => r.filter.toList) (Except.ok.inj hdecode)
    have hlength := congrArg List.length hsame
    rw [String.toList_ofList, hcs, List.length_append, List.length_singleton] at hlength
    omega
  · intro hnul
    apply decode_opening_append
    rw [dropNul, if_neg (mt (Text.Utf8.getLast?_encode _).1 hnul)]

/-- A master server reads the region, the cursor and the filter that a client asks for. The last byte
of the request may be missing exactly if the filter does not end in a NUL, and the text of a
canonical filter is read as this filter. -/
theorem decode_of_request (q : ListingQuery) (buffer : List UInt8)
    (hroom : q.bytes.length ≤ buffer.length) :
    ∃ filled, q.encode buffer = .ok filled ∧ decode filled.bytes = .ok q ∧
      (decode filled.bytes.dropLast = .ok q ↔ q.filter.toList.getLast? ≠ some '\x00') ∧
      ∀ f : Filter, f.Canonical → q.filter = String.ofList f.text →
        ∀ received, decode filled.bytes = .ok received →
          received.region = q.region ∧ received.last = q.last ∧
            Filter.parse received.filter.toList = .ok f := by
  obtain ⟨filled, hfilled, hbytes⟩ := Writer.encode_bytes_of_le hroom
  refine ⟨filled, ?_, ?_, ?_, ?_⟩
  · rw [encode, write_eq, hfilled]
  · rw [hbytes, decode_bytes]
  · rw [hbytes, decode_dropLast_bytes]
  · intro f hf htext received hreceived
    rw [hbytes, decode_bytes] at hreceived
    cases hreceived
    refine ⟨rfl, rfl, ?_⟩
    rw [htext, String.toList_ofList]
    exact Filter.parse_text_of_canonical hf

/-- A directory with a NUL in its name. -/
def oddFilter : Filter where
  gamedir := some "c\x00s"
  appId := some 240
  flags := 2
  mask := 3

def oddRequest : ListingQuery :=
  ⟨.europe, ⟨⟨1, 2, 30, 255⟩, 27015⟩, String.ofList oddFilter.text⟩

theorem canonical_oddFilter : oddFilter.Canonical where
  gamedir := by decide
  map := nofun
  tags := nofun
  nameMatch := nofun
  versionMatch := nofun
  gameaddr := nofun
  flags := by
    intro i hi
    have hlt : i < 16 := BitVec.lt_of_getLsbD hi
    interval_cases i <;> revert hi <;> decide
  named := by
    intro i hi
    have hlt : i < 16 := BitVec.lt_of_getLsbD hi
    interval_cases i <;> revert hi <;> decide

theorem decode_of_request_odd :
    let buffer := List.replicate 64 0
    oddRequest.bytes.length ≤ buffer.length ∧ oddFilter.Canonical ∧
      oddRequest.filter.toList.getLast? ≠ some '\x00' ∧
      ∃ filled received, oddRequest.encode buffer = .ok filled ∧
        decode filled.bytes = .ok oddRequest ∧ decode filled.bytes.dropLast = .ok received ∧
        received.last = oddRequest.last ∧ Filter.parse received.filter.toList = .ok oddFilter := by
  intro buffer
  have hroom : oddRequest.bytes.length ≤ buffer.length := by decide
  have hlast : oddRequest.filter.toList.getLast? ≠ some '\x00' := by decide
  obtain ⟨filled, hfilled, hdecode, hshort, hfilter⟩ := decode_of_request oddRequest buffer hroom
  obtain ⟨-, -, hparse⟩ := hfilter oddFilter canonical_oddFilter rfl oddRequest hdecode
  exact ⟨hroom, canonical_oddFilter, hlast, filled, oddRequest, hfilled, hdecode, hshort.2 hlast,
    rfl, hparse⟩

end ListingQuery

end GameQuery
