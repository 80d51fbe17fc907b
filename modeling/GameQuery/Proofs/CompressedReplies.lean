import GameQuery.Proofs.FragmentCodec
import GameQuery.Proofs.Reassembly
import GameQuery.Proofs.StreamReading

namespace GameQuery

/-!
# Compressed replies are intact

The header of a compressed reply stands in its first fragment, and a fragment that comes again
replaces both its payload and its header. So a reply whose fragments are all there has a header,
and it is delivered exactly if a decoder makes of the latest payloads what this header announces.
Otherwise the reply is lost, but nothing of it stays behind.
-/

namespace Reassembler

theorem mem_receivedAfter {framing : Framing} {id : Int32} {before : List Fragment}
    (h : ∀ g ∈ before, g.WellFormed framing ∧ g.id = id) (c : Call) :
    ∀ g ∈ receivedAfter framing id before c, g.WellFormed framing ∧ g.id = id := by
  cases c with
  | clear => simp [receivedAfter]
  | push datagram =>
    simp only [receivedAfter]
    split
    · exact h
    · next f hf =>
      split
      · next hid =>
        unfold received
        split
        · simp
        · intro g hg
          rcases List.mem_append.1 hg with hg | hg
          · exact h g hg
          · rw [List.mem_singleton.1 hg]
            exact ⟨Fragment.wellFormed_of_decode hf, hid⟩
      · exact h

theorem mem_sinceReset (framing : Framing) (id : Int32) (history : List Call) :
    ∀ g ∈ sinceReset framing id history, g.WellFormed framing ∧ g.id = id := by
  induction history using List.reverseRecOn with
  | nil => simp [sinceReset]
  | append_singleton history c ih =>
    rw [sinceReset_append_singleton]
    exact mem_receivedAfter ih c

/-- The latest copy of a fragment. -/
def latest (received : List Fragment) (i : Nat) : Option Fragment :=
  received.reverse.find? (·.number.toNat = i)

theorem isSome_latest_of_covers {received : List Fragment} {total : UInt8}
    (h : Covers received total) {i : Nat} (hi : i < total.toNat) :
    ∃ g ∈ received, latest received i = some g ∧ g.number.toNat = i := by
  obtain ⟨g, hg, hnumber⟩ := h i hi
  have hsome : (latest received i).isSome := by
    simpa [latest] using ⟨g, hg, hnumber⟩
  obtain ⟨g', hg'⟩ := Option.isSome_iff_exists.1 hsome
  refine ⟨g', List.mem_reverse.1 (List.mem_of_find?_eq_some hg'), hg', ?_⟩
  simpa using List.find?_some hg'

theorem findSome?_compression {gs : List Fragment}
    (h : ∀ g ∈ gs, g.compression.isSome ↔ g.number.toNat = 0) :
    gs.findSome? Fragment.compression =
      (gs.find? (·.number.toNat = 0)).bind Fragment.compression := by
  induction gs with
  | nil => rfl
  | cons g gs ih =>
    have hg := h g List.mem_cons_self
    cases hc : g.compression with
    | none =>
      have hnumber : ¬ g.number.toNat = 0 := by simpa [hc] using hg
      simpa [hc, hnumber] using ih fun g' hg' => h g' (List.mem_cons_of_mem g hg')
    | some c =>
      have hnumber : g.number.toNat = 0 := by simpa [hc] using hg
      simp [hc, hnumber]

/-- The header of a compressed reply is the one in the latest copy of the first fragment. -/
theorem latestHeader_of_covers {all : List Fragment} {total : UInt8} {id : Int32}
    (hid : isCompressedId id = true) (hall : ∀ g ∈ all, g.WellFormed .source ∧ g.id = id)
    (hcovers : Covers all total) (htotal : 0 < total.toNat) :
    ∃ g c, latest all 0 = some g ∧ g.compression = some c ∧ latestHeader all = some c := by
  have hheader : ∀ g ∈ all, g.compression.isSome ↔ g.number.toNat = 0 := by
    intro g hg
    obtain ⟨hformed, rfl⟩ := hall g hg
    rw [hformed.compression, ← UInt8.toNat_inj]
    exact ⟨fun h => h.2, fun h => ⟨hid, h⟩⟩
  obtain ⟨g, hg, hlatest, hnumber⟩ := isSome_latest_of_covers hcovers htotal
  obtain ⟨c, hc⟩ := Option.isSome_iff_exists.1 ((hheader g hg).2 hnumber)
  refine ⟨g, c, hlatest, hc, ?_⟩
  have hfound := findSome?_compression fun g' (hg' : g' ∈ all.reverse) =>
    hheader g' (List.mem_reverse.1 hg')
  rw [latestHeader, hfound, ← latest, hlatest]
  exact hc

theorem mem_sinceReset_append (history : List Call) {f : Fragment} (hf : f.WellFormed .source) :
    ∀ g ∈ sinceReset .source f.id history ++ [f], g.WellFormed .source ∧ g.id = f.id := by
  intro g hg
  rcases List.mem_append.1 hg with hg | hg
  · exact mem_sinceReset .source f.id history g hg
  · rw [List.mem_singleton.1 hg]
    exact ⟨hf, rfl⟩

variable {u : Unpacker} {decoder : List UInt8 → Decoding}

/-- The answer to the last fragment of a compressed reply. -/
theorem push_last_answer (u : Unpacker) (history : List Call) {datagram : List UInt8} {f : Fragment}
    (hf : Fragment.decode .source datagram = .ok f) (hid : isCompressedId f.id = true)
    (hagree : ¬ f.Disagrees (sinceReset .source f.id history))
    (hlast : Covers (sinceReset .source f.id history ++ [f]) f.total) :
    let all := sinceReset .source f.id history ++ [f]
    let pushed := (run u { framing := .source } history).push u datagram
    ∃ first c, latest all 0 = some first ∧ first.compression = some c ∧
      pushed.1 = (decompress u (latestContent all f.total) c).map some ∧
      pushed.2.get? f.id = none := by
  intro all pushed
  have hformed := Fragment.wellFormed_of_decode hf
  have htotal : 0 < f.total.toNat :=
    Nat.zero_lt_of_lt (UInt8.lt_iff_toNat_lt.1 hformed.number_lt)
  obtain ⟨first, c, hfirst, hc, hheader⟩ :=
    latestHeader_of_covers hid (mem_sinceReset_append history hformed) hlast htotal
  have hpush := pushFragment_of_get? u (get?_run u .source history f.id)
    (totals_sinceReset .source f.id history)
  have hpushed : pushed = (run u { framing := .source } history).pushFragment u f := by
    simp only [pushed, push, framing_run, hf]
  refine ⟨first, c, hfirst, hc, ?_, ?_⟩
  · rw [hpushed, hpush.1, answer, if_neg hagree, if_pos hlast, replyOf, if_pos hid, hheader]
  · rw [hpushed, hpush.2, received, if_pos (.inr hlast)]
    rfl

/-- A fragment of a compressed reply with which all of them are there. The header is that of the
latest copy of the first fragment, and the data are made up of the latest copies of all. Whatever
the decoder and the checksum are, the reply is delivered exactly if the decoder yields what the
header announces and the data end cleanly. Nothing is left of it in any case. -/
theorem push_last_compressed (hu : u.Reads decoder) (history : List Call) {datagram : List UInt8}
    {f : Fragment} (hf : Fragment.decode .source datagram = .ok f)
    (hid : isCompressedId f.id = true)
    (hagree : ¬ f.Disagrees (sinceReset .source f.id history))
    (hlast : Covers (sinceReset .source f.id history ++ [f]) f.total) :
    let all := sinceReset .source f.id history ++ [f]
    let decoded := decoder (latestContent all f.total)
    let pushed := (run u { framing := .source } history).push u datagram
    ∃ first c, latest all 0 = some first ∧ first.compression = some c ∧
      (∀ out, pushed.1 = .ok (some out) ↔ decoded.IsIntact u c ∧ out = decoded.bytes) ∧
      (¬ decoded.IsIntact u c → ∃ e, pushed.1 = .error e ∧ c.Flaw e) ∧
      pushed.1 ≠ .error .badFragment ∧
      pushed.2.get? f.id = none := by
  intro all decoded pushed
  obtain ⟨first, c, hfirst, hc, hanswer, hgone⟩ := push_last_answer u history hf hid hagree hlast
  replace hanswer : pushed.1 = (decompress u (latestContent all f.total) c).map some := hanswer
  have hflawed (h : ¬ decoded.IsIntact u c) : ∃ e, pushed.1 = .error e ∧ c.Flaw e := by
    obtain ⟨e, he, hflaw⟩ := decompress_of_not_isIntact hu h
    refine ⟨e, ?_, hflaw⟩
    rw [hanswer, he]
    rfl
  have hdelivered (out : List UInt8) :
      pushed.1 = .ok (some out) ↔ decoded.IsIntact u c ∧ out = decoded.bytes := by
    rw [← decompress_eq_ok_iff hu, hanswer]
    cases decompress u (latestContent all f.total) c <;> simp [Except.map]
  refine ⟨first, c, hfirst, hc, hdelivered, hflawed, fun hbad => ?_, hgone⟩
  by_cases h : decoded.IsIntact u c
  · cases hbad.symm.trans ((hdelivered _).2 ⟨h, rfl⟩)
  · obtain ⟨e, he, hflaw⟩ := hflawed h
    cases Except.error.inj (hbad.symm.trans he)
    cases hflaw

/-- The stream of the text `ok`. -/
def okStream : List UInt8 :=
  [66, 90, 104, 57, 49, 65, 89, 38, 83, 89, 164, 196, 241, 54, 0, 0, 0, 129, 0, 0, 8, 160, 0, 33, 0,
    130, 177, 119, 36, 83, 133, 9, 10, 76, 79, 19, 96]

/-- The first of two fragments of a compressed reply. -/
def okStart (size : UInt32) (payload : List UInt8) : Fragment where
  id := -7
  number := 0
  total := 2
  compression := some { size, crc32 := 2044517703 }
  payload

/-- The second one. -/
def okEnd : Fragment where
  id := -7
  number := 1
  total := 2
  compression := none
  payload := okStream.drop 20

/-- The first fragment has come twice. The earlier copy announces another size. -/
def okHistory : List Call :=
  [.push ((okStart 3 [0]).bytes .source), .push ((okStart 2 (okStream.take 20)).bytes .source)]

theorem push_last_compressed_replaced :
    (Fragment.decode .source (okEnd.bytes .source) = .ok okEnd ∧
        isCompressedId okEnd.id = true ∧
        ¬ okEnd.Disagrees (sinceReset .source okEnd.id okHistory) ∧
        Covers (sinceReset .source okEnd.id okHistory ++ [okEnd]) okEnd.total) ∧
      Bzip2.unpacker.Reads Bzip2.decoding ∧
      ((run Bzip2.unpacker { framing := .source } okHistory).push Bzip2.unpacker
        (okEnd.bytes .source)).1 = .ok (some [0x6F, 0x6B]) := by
  have hdecode : Fragment.decode .source (okEnd.bytes .source) = .ok okEnd := by decide +kernel
  have hid : isCompressedId okEnd.id = true := by decide
  have hagree : ¬ okEnd.Disagrees (sinceReset .source okEnd.id okHistory) := by decide +kernel
  have hlast : Covers (sinceReset .source okEnd.id okHistory ++ [okEnd]) okEnd.total := by
    decide +kernel
  obtain ⟨first, c, hfirst, hc, hout, -⟩ :=
    push_last_compressed Bzip2.reads_decoding okHistory hdecode hid hagree hlast
  have hlatest : latest (sinceReset .source okEnd.id okHistory ++ [okEnd]) 0 =
      some (okStart 2 (okStream.take 20)) := by decide +kernel
  obtain rfl := Option.some.inj (hfirst.symm.trans hlatest)
  obtain rfl := Option.some.inj hc
  refine ⟨⟨hdecode, hid, hagree, hlast⟩, Bzip2.reads_decoding, (hout _).2 ?_⟩
  decide +kernel

end Reassembler

end GameQuery
