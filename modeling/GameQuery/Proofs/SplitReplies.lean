import GameQuery.Proofs.PassedDatagrams
import GameQuery.Proofs.ReplyCodec

namespace GameQuery

/-!
# Replies in fragments

A reply that is cut into fragments is received as if it came whole. The fragments may come in any
order and more than once, and datagrams that are passed over may come between them. As long as a
fragment is missing there is no reply.
-/

/-- How many fragments the numbers of a framing can tell apart. -/
def Framing.maxTotal : Framing → Nat
  | .source => 255
  | .goldSrc => 15

theorem Framing.maxTotal_le (framing : Framing) : framing.maxTotal ≤ 255 := by
  cases framing <;> decide

/-- A canonical reply whose encoding is cut into chunks, to be sent as fragments of one id. It is
not one of the log lines that a client skips. -/
structure SplitReply (framing : Framing) where
  reply : Reply
  canonical : reply.Canonical
  notLine : QueryChannel.isLogLine framing reply = false
  id : Int32
  plain : isCompressedId id = false
  chunks : List (List UInt8)
  nonempty : chunks ≠ []
  length_le : chunks.length ≤ framing.maxTotal
  content : ∃ buffer filled, reply.encode buffer = .ok filled ∧ filled.bytes = chunks.flatten

open Reassembler

namespace SplitReply

variable {framing : Framing} (x : SplitReply framing)

/-- The fragment that carries a chunk. -/
def fragment (i : Nat) : Fragment where
  id := x.id
  number := UInt8.ofNat i
  total := UInt8.ofNat x.chunks.length
  compression := none
  payload := x.chunks.getD i []

theorem toNat_total (i : Nat) : (x.fragment i).total.toNat = x.chunks.length := by
  have hle := x.length_le.trans framing.maxTotal_le
  exact UInt8.toNat_ofNat_of_lt' (Nat.lt_succ_of_le hle)

theorem toNat_number {i : Nat} (hi : i < x.chunks.length) : (x.fragment i).number.toNat = i := by
  have hle := x.length_le.trans framing.maxTotal_le
  exact UInt8.toNat_ofNat_of_lt' ((hi.trans_le hle).trans_le (Nat.le_succ 255))

theorem wellFormed_fragment {i : Nat} (hi : i < x.chunks.length) :
    (x.fragment i).WellFormed framing where
  number_lt := by
    rw [UInt8.lt_iff_toNat_lt, x.toNat_number hi, x.toNat_total]
    exact hi
  total_le := by
    rintro rfl
    rw [UInt8.le_iff_toNat_le, x.toNat_total]
    exact x.length_le
  compressed := by
    intro h
    rw [fragment, x.plain] at h
    cases h
  compression := by simp [fragment, x.plain]

/-- A datagram brings a part of the reply. -/
def IsPart (i : Nat) (datagram : List UInt8) : Prop :=
  i < x.chunks.length ∧ Fragment.decode framing datagram = .ok (x.fragment i)

instance (i : Nat) (datagram : List UInt8) : Decidable (x.IsPart i datagram) :=
  inferInstanceAs (Decidable (_ ∧ _))

/-- What is sent of a fragment brings its part. -/
theorem isPart_of_encode {i : Nat} {buffer : List UInt8} {filled : Writer.Filled}
    (hi : i < x.chunks.length) (h : (x.fragment i).encode framing buffer = .ok filled) :
    x.IsPart i filled.bytes := by
  refine ⟨hi, ?_⟩
  rw [Fragment.encode_eq_ok h]
  exact (x.wellFormed_fragment hi).decode_bytes

theorem flatten_chunks : x.chunks.flatten = x.reply.bytes := by
  obtain ⟨buffer, filled, hencode, hbytes⟩ := x.content
  rw [Reply.encode, Reply.write_eq] at hencode
  rw [← hbytes, Writer.bytes_of_encode hencode]

theorem decode_flatten_chunks : Reply.decode x.chunks.flatten = .ok x.reply := by
  rw [x.flatten_chunks]
  exact Reply.decode_bytes x.canonical

/-- What comes to a client that waits for the reply: parts of it, fragments of other ids and, from
a GoldSrc server, lines of its log. -/
inductive Expected (datagram : List UInt8) : Prop
  | part {i : Nat} (h : x.IsPart i datagram)
  | stray {f : Fragment} (h : Fragment.decode framing datagram = .ok f) (hid : f.id ≠ x.id)
  | line {text : String} (hframing : framing = .goldSrc)
    (hlog : Reply.decode datagram = .ok (.log text))

/-- Some datagrams as they are expected. The fragments of another id are passed over. -/
structure Mixes (datagrams : List (List UInt8)) : Prop where
  length_le : ∀ datagram ∈ datagrams, datagram.length ≤ maxDatagramSize
  expected : ∀ datagram ∈ datagrams, x.Expected datagram
  others : ∀ id ≠ x.id, PassedOver framing (fragmentsOf framing id datagrams)

variable {x} {datagrams : List (List UInt8)} {k : Nat}

theorem Mixes.exists_part (h : x.Mixes datagrams) {f : Fragment}
    (hf : f ∈ fragmentsOf framing x.id datagrams) :
    ∃ datagram ∈ datagrams, ∃ i, x.IsPart i datagram ∧ f = x.fragment i := by
  obtain ⟨datagram, hmem, hdecode, hid⟩ := mem_fragmentsOf.1 hf
  refine ⟨datagram, hmem, ?_⟩
  cases h.expected datagram hmem with
  | @part i hpart => exact ⟨i, hpart, Except.ok.inj (hdecode.symm.trans hpart.2)⟩
  | stray hstray hne =>
    cases hdecode.symm.trans hstray
    exact absurd hid hne
  | line hframing hlog =>
    have hheader := (headerOf_of_decode_fragment hdecode).symm.trans (headerOf_of_decode_reply hlog)
    exact absurd (Option.some.inj hheader) (by decide)

theorem Mixes.incomplete (h : x.Mixes datagrams) (hk : k < x.chunks.length)
    (hmissing : ∀ datagram ∈ datagrams, ¬x.IsPart k datagram) :
    Incomplete (fragmentsOf framing x.id datagrams) where
  agree f hf g hg := by
    obtain ⟨_, _, i, _, rfl⟩ := h.exists_part hf
    obtain ⟨_, _, j, _, rfl⟩ := h.exists_part hg
    rfl
  missing f hf hcovers := by
    obtain ⟨_, _, i, _, rfl⟩ := h.exists_part hf
    rw [Covers, x.toNat_total] at hcovers
    obtain ⟨g, hg, hnumber⟩ := hcovers k hk
    obtain ⟨datagram, hmem, j, hpart, rfl⟩ := h.exists_part hg
    rw [x.toNat_number hpart.1] at hnumber
    exact hmissing datagram hmem (hnumber ▸ hpart)

theorem Mixes.passes (h : x.Mixes datagrams) (hk : k < x.chunks.length)
    (hmissing : ∀ datagram ∈ datagrams, ¬x.IsPart k datagram) {front behind : List (List UInt8)}
    {datagram : List UInt8} (hsplit : datagrams = front ++ datagram :: behind) :
    QueryChannel.Passes framing front datagram := by
  have hfragments : ∀ id, PassedOver framing (fragmentsOf framing id datagrams) := by
    intro id
    by_cases hid : id = x.id
    · rw [hid]
      exact .incomplete (h.incomplete hk hmissing)
    · exact h.others id hid
  have hfragment : ∀ f, Fragment.decode framing datagram = .ok f →
      QueryChannel.Passes framing front datagram := by
    intro f hf
    have hfs := fragmentsOf_append_cons hf front behind
    rw [← hsplit] at hfs
    rcases (hfragments f.id).answer_cases Bzip2.unpacker hfs with
      hnone | ⟨hframing, whole, text, hwhole, hlog⟩
    · exact .fragment hf hnone
    · exact .splitLine hframing hf hwhole hlog
  have hmem : datagram ∈ datagrams := by
    rw [hsplit]
    exact List.mem_append_right front List.mem_cons_self
  cases h.expected datagram hmem with
  | part hpart => exact hfragment _ hpart.2
  | stray hstray hne => exact hfragment _ hstray
  | line hframing hlog => exact .line hframing hlog

theorem latestPayload_parts {all : List Fragment} {i : Nat}
    (hall : ∀ f ∈ all, ∃ j < x.chunks.length, f = x.fragment j)
    (hi : ∃ f ∈ all, f.number.toNat = i) :
    latestPayload all i = some (x.chunks.getD i []) := by
  obtain ⟨payload, hpayload⟩ :=
    Option.isSome_iff_exists.1 ((PartialReply.isSome_latestPayload all i).2 hi)
  obtain ⟨f, hf, rfl⟩ := Option.map_eq_some_iff.1 hpayload
  obtain ⟨j, hj, rfl⟩ := hall f (List.mem_reverse.1 (List.mem_of_find?_eq_some hf))
  have hnumber := List.find?_some hf
  rw [decide_eq_true_eq, x.toNat_number hj] at hnumber
  rw [hpayload, ← hnumber]
  rfl

/-- All parts together are the reply, whichever copies are the latest. -/
theorem latestContent_parts {all : List Fragment} {total : UInt8}
    (hall : ∀ f ∈ all, ∃ i < x.chunks.length, f = x.fragment i)
    (htotal : total.toNat = x.chunks.length) (hcovers : Covers all total) :
    latestContent all total = x.chunks.flatten := by
  have hlatest : ∀ i ∈ List.range x.chunks.length,
      (latestPayload all i).getD [] = x.chunks.getD i [] := by
    intro i hi
    rw [latestPayload_parts hall (hcovers i (htotal ▸ List.mem_range.1 hi)), Option.getD_some]
  have hchunks : (List.range x.chunks.length).map (fun i => x.chunks.getD i []) = x.chunks := by
    refine List.ext_getElem (by simp) ?_
    intro i hi hi'
    simp [hi']
  rw [latestContent, htotal, List.flatMap_def, List.map_congr_left hlatest, hchunks]

/-- The part that is still missing completes the reply. -/
theorem Mixes.answer_last (h : x.Mixes datagrams) (hk : k < x.chunks.length)
    (hmissing : ∀ datagram ∈ datagrams, ¬x.IsPart k datagram)
    (hothers : ∀ i < x.chunks.length, i ≠ k → ∃ datagram ∈ datagrams, x.IsPart i datagram) :
    answer Bzip2.unpacker ((fragmentsOf framing x.id datagrams).foldl received []) (x.fragment k) =
      .ok (some x.chunks.flatten) := by
  have hparts : ∀ f ∈ fragmentsOf framing x.id datagrams ++ [x.fragment k],
      ∃ i < x.chunks.length, f = x.fragment i := by
    intro f hf
    rcases List.mem_append.1 hf with hf | hf
    · obtain ⟨_, _, i, hpart, rfl⟩ := h.exists_part hf
      exact ⟨i, hpart.1, rfl⟩
    · exact ⟨k, hk, List.mem_singleton.1 hf⟩
  have hcovers : Covers (fragmentsOf framing x.id datagrams ++ [x.fragment k])
      (x.fragment k).total := by
    intro i hi
    rw [x.toNat_total] at hi
    refine ⟨x.fragment i, ?_, x.toNat_number hi⟩
    by_cases hik : i = k
    · rw [hik]
      exact List.mem_concat_self
    · obtain ⟨datagram, hmem, hpart⟩ := hothers i hi hik
      exact List.mem_append_left _ (mem_fragmentsOf.2 ⟨datagram, hmem, hpart.2, rfl⟩)
  have hagrees : ¬(x.fragment k).Disagrees (fragmentsOf framing x.id datagrams) := by
    rintro ⟨f, hf, hne⟩
    obtain ⟨_, _, i, _, rfl⟩ := h.exists_part hf
    exact hne rfl
  rw [(h.incomplete hk hmissing).foldl_received, answer, if_neg hagrees, if_pos hcovers, replyOf,
    show isCompressedId (x.fragment k).id = false from x.plain,
    latestContent_parts hparts (x.toNat_total k) hcovers]
  rfl

end SplitReply

open Arrival Dialog

namespace QueryChannel

variable {framing : Framing} {c : QueryChannel} {n : Network}
  {datagram : List UInt8} {datagrams : List (List UInt8)}

/-- A canonical reply that is cut into fragments is received when the last of them arrives, as it
is when it comes whole. If that one does not arrive, the receive fails as the socket does. -/
theorem reply_of_split (x : SplitReply c.reassembler.framing) {k : Nat} (timeout : Option Nat)
    (hk : k < x.chunks.length) (hmixes : x.Mixes datagrams)
    (hmissing : ∀ datagram ∈ datagrams, ¬x.IsPart k datagram) :
    (∀ i < x.chunks.length, ∀ buffer filled,
        (x.fragment i).encode c.reassembler.framing buffer = .ok filled →
          x.IsPart i filled.bytes) ∧
      (∀ last back, x.IsPart k last → last.length ≤ maxDatagramSize →
        (∀ i < x.chunks.length, i ≠ k → ∃ datagram ∈ datagrams, x.IsPart i datagram) →
          BringsDatagrams c.queue (datagrams ++ [last]) back →
            ∃ v, reply timeout (c, n) = .ok x.reply v) ∧
      (∀ back, x.chunks.flatten.length ≤ maxDatagramSize →
        BringsDatagrams c.queue [x.chunks.flatten] back →
          ∃ v, reply timeout (c, n) = .ok x.reply v) ∧
      ∀ e back, BringsDatagrams c.queue datagrams back → receiveError? back = some e →
        ∃ v, reply timeout (c, n) = .error e v := by
  obtain ⟨c', hreply, hholds, hqueue⟩ := reply_eq_loop (c := c) (n := n) timeout rfl
  rw [hreply, ← hqueue]
  have hskip : ∀ rest back, BringsDatagrams c'.queue (datagrams ++ rest) back →
      ∃ v, loop timeout (c', n) = loop timeout v ∧
        Holds c.reassembler.framing datagrams v.1 ∧ BringsDatagrams v.1.queue rest back := by
    intro rest back hbrings
    exact loop_of_passes timeout hholds hmixes.length_le
      (fun front datagram behind => hmixes.passes hk hmissing) hbrings
  refine ⟨?_, ?_, ?_, ?_⟩
  · intro i hi buffer filled hencode
    exact x.isPart_of_encode hi hencode
  · intro last back hlast hsize hothers hbrings
    obtain ⟨v, hloop, hv, hrest⟩ := hskip [last] back hbrings
    rw [hloop]
    apply loop_of_accept timeout hv hsize x.notLine _ hrest
    intro u m hu
    obtain ⟨u', -, hholds', -, haccept⟩ := accept_fragment (n := m) hu hlast.2
    refine ⟨u', ?_, hholds'.framing_eq⟩
    exact haccept _ _ (hmixes.answer_last hk hmissing hothers) x.decode_flatten_chunks
  · intro back hsize hbrings
    apply loop_of_accept timeout hholds hsize x.notLine _ hbrings
    intro u m hu
    exact ⟨u, accept_whole x.decode_flatten_chunks _, hu.framing_eq⟩
  · intro e back hbrings he
    obtain ⟨v, hloop, -, hrest⟩ := hskip [] back (by rwa [List.append_nil])
    rw [hloop]
    exact loop_fails timeout hrest he

end QueryChannel

/-! ## Fragments out of order -/

/-- A challenge in two fragments. -/
def halvedChallenge : SplitReply .goldSrc where
  reply := .challenge 7
  canonical := trivial
  notLine := rfl
  id := 5
  plain := by decide
  chunks := [[255, 255, 255, 255, 0x41], [7, 0, 0, 0]]
  nonempty := List.cons_ne_nil _ _
  length_le := by decide
  content := ⟨List.replicate 9 0, ⟨9, _⟩, rfl, rfl⟩

def half (i : Nat) : List UInt8 := (halvedChallenge.fragment i).bytes .goldSrc

def strayFragment : Fragment := ⟨6, 1, 3, none, [1]⟩

/-- A line of the log in two fragments. -/
def lineStart : Fragment := ⟨9, 0, 2, none, [255, 255, 255, 255]⟩

def lineEnd : Fragment := ⟨9, 1, 2, none, [0x52, 0x61, 0]⟩

/-- The second half comes twice, and what is passed over comes between the copies. -/
def shuffled : List (List UInt8) :=
  [half 1, lineStart.bytes .goldSrc, strayFragment.bytes .goldSrc, lineEnd.bytes .goldSrc,
    [255, 255, 255, 255, 0x52, 0x62, 0], half 1]

theorem fragmentsIn_shuffled : fragmentsIn .goldSrc shuffled =
    [halvedChallenge.fragment 1, lineStart, strayFragment, lineEnd,
      halvedChallenge.fragment 1] := by decide +kernel

theorem passedOver_line : PassedOver .goldSrc ([lineStart] ++ [lineEnd]) := by
  have hlog : Reply.decode (latestContent ([lineStart] ++ [lineEnd]) lineEnd.total) =
      .ok (.log "a") := by decide +kernel
  refine .logLine rfl (by decide) ⟨?_, ?_⟩ (by decide) (by decide) hlog (.incomplete ⟨?_, ?_⟩) <;>
    decide

theorem mixes_shuffled : halvedChallenge.Mixes shuffled where
  length_le := by decide
  expected := by
    have hhalf : halvedChallenge.Expected (half 1) := by
      apply SplitReply.Expected.part (i := 1)
      constructor <;> decide +kernel
    have hline : Reply.decode [255, 255, 255, 255, 0x52, 0x62, 0] = .ok (.log "b") := by
      decide +kernel
    have hstray : ∀ f ∈ [lineStart, strayFragment, lineEnd],
        halvedChallenge.Expected (f.bytes .goldSrc) := by
      intro f hf
      have hdecode : ∀ f ∈ [lineStart, strayFragment, lineEnd],
          Fragment.decode .goldSrc (f.bytes .goldSrc) = .ok f ∧ f.id ≠ halvedChallenge.id := by
        decide +kernel
      exact .stray (hdecode f hf).1 (hdecode f hf).2
    simp only [shuffled, List.forall_mem_cons]
    exact ⟨hhalf, hstray _ (by decide), hstray _ (by decide), hstray _ (by decide),
      .line rfl hline, hhalf, nofun⟩
  others := by
    intro id hid
    rw [fragmentsOf, fragmentsIn_shuffled]
    by_cases hstray : id = 6
    · rw [hstray]
      apply PassedOver.incomplete
      constructor <;> decide
    by_cases hline : id = 9
    · rw [hline]
      exact passedOver_line
    · have hnone : [halvedChallenge.fragment 1, lineStart, strayFragment, lineEnd,
          halvedChallenge.fragment 1].filter (·.id = id) = [] := by
        simp [SplitReply.fragment, lineStart, strayFragment, lineEnd, Ne.symm hid,
          Ne.symm hstray, Ne.symm hline]
      rw [hnone]
      apply PassedOver.incomplete
      constructor <;> decide

namespace QueryChannel

/-- A channel to a GoldSrc server from which some datagrams have come. -/
def receiving (datagrams : List (List UInt8)) : QueryChannel where
  channel :=
    { socket :=
        { transport := .udp
          peer := .v4 ⟨⟨192, 0, 2, 1⟩, 27015⟩
          queue := datagrams.map .data }
      buffer := .clamp queryBufferSize }
  reassembler := { framing := .goldSrc }

def quiet : World where
  connect _ _ _ := none
  react _ _ _ _ := .ok []
  resolve _ := none
  sessionId _ := 1

theorem brings_receiving (datagrams : List (List UInt8)) :
    BringsDatagrams (receiving datagrams).queue datagrams [] := by
  refine ⟨datagrams.map .data, (List.append_nil _).symm, ?_⟩
  induction datagrams with
  | nil => rfl
  | cons datagram datagrams ih => rw [List.map_cons, Arrival.datagrams, ih, Option.map_some]

theorem reply_of_split_shuffled :
    (0 < halvedChallenge.chunks.length ∧ halvedChallenge.Mixes shuffled ∧
        ∀ datagram ∈ shuffled, ¬halvedChallenge.IsPart 0 datagram) ∧
      (∃ v, reply none (receiving (shuffled ++ [half 0]), { world := quiet }) =
        .ok (.challenge 7) v) ∧
      ∃ v, reply none (receiving shuffled, { world := quiet }) = .error .timeout v := by
  have hzero : 0 < halvedChallenge.chunks.length := by decide
  have hmissing : ∀ datagram ∈ shuffled, ¬halvedChallenge.IsPart 0 datagram := by decide +kernel
  have hlast : halvedChallenge.IsPart 0 (half 0) := by decide +kernel
  have hothers : ∀ i < halvedChallenge.chunks.length, i ≠ 0 →
      ∃ datagram ∈ shuffled, halvedChallenge.IsPart i datagram := by decide +kernel
  have hwhole := reply_of_split (c := receiving (shuffled ++ [half 0])) (n := { world := quiet })
    halvedChallenge none hzero mixes_shuffled hmissing
  have hpart := reply_of_split (c := receiving shuffled) (n := { world := quiet })
    halvedChallenge none hzero mixes_shuffled hmissing
  refine ⟨⟨hzero, mixes_shuffled, hmissing⟩, ?_, ?_⟩
  · exact hwhole.2.1 (half 0) [] hlast (by decide) hothers (brings_receiving _)
  · exact hpart.2.2.2 .timeout [] (brings_receiving shuffled) rfl

end QueryChannel

end GameQuery
