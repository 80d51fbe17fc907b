import GameQuery.Reassembler
import Mathlib.Data.List.Induction

namespace GameQuery

/-!
# Histories of a reassembler

What a reassembler answers is fixed by the fragments with the same id that it has received since
the id was last reset. A history is a list of calls, the earliest first. The representation lemma
`get?_run` says that the entry of an id is what those fragments add up to, and everything else is
read off it.
-/

/-- A fragment with another total than `f` is among the fragments received. -/
def Fragment.Disagrees (f : Fragment) (received : List Fragment) : Prop :=
  ∃ g ∈ received, g.total ≠ f.total

instance (f : Fragment) (received : List Fragment) : Decidable (f.Disagrees received) :=
  inferInstanceAs (Decidable (∃ g ∈ received, g.total ≠ f.total))

/-- The numbers received are all those below the total. -/
def Covers (received : List Fragment) (total : UInt8) : Prop :=
  ∀ i < total.toNat, ∃ g ∈ received, g.number.toNat = i

instance (received : List Fragment) (total : UInt8) : Decidable (Covers received total) :=
  inferInstanceAs (Decidable (∀ i < total.toNat, ∃ g ∈ received, g.number.toNat = i))

/-- The payload of the latest copy of a fragment. -/
def latestPayload (received : List Fragment) (i : Nat) : Option (List UInt8) :=
  (received.reverse.find? (·.number.toNat = i)).map Fragment.payload

def latestHeader (received : List Fragment) : Option Compression :=
  received.reverse.findSome? Fragment.compression

/-- The latest copies of all fragments, one after another. -/
def latestContent (received : List Fragment) (total : UInt8) : List UInt8 :=
  (List.range total.toNat).flatMap fun i => (latestPayload received i).getD []

namespace PartialReply

/-- The entry that some fragments with the same id and total make up. -/
def ofFragments : List Fragment → Option PartialReply
  | [] => none
  | f :: received => some ((f :: received).foldl add (empty f.total))

theorem total_foldl_add (received : List Fragment) (p : PartialReply) :
    (received.foldl add p).total = p.total := by
  induction received generalizing p with
  | nil => rfl
  | cons f received ih => exact ih (p.add f)

theorem length_parts_foldl_add (received : List Fragment) (p : PartialReply) :
    (received.foldl add p).parts.length = p.parts.length := by
  induction received generalizing p with
  | nil => rfl
  | cons f received ih =>
    rw [List.foldl_cons, ih]
    exact List.length_set

theorem getElem?_parts_foldl_add (received : List Fragment) (total : UInt8) {i : Nat}
    (hi : i < total.toNat) :
    (received.foldl add (empty total)).parts[i]? = some (latestPayload received i) := by
  induction received using List.reverseRecOn with
  | nil => simp [empty, latestPayload, hi]
  | append_singleton received f ih =>
    have hlen := length_parts_foldl_add received (empty total)
    rw [List.foldl_append, List.foldl_cons, List.foldl_nil, add]
    by_cases hf : f.number.toNat = i
    · rw [hf, List.getElem?_set_self (by rw [hlen]; simpa [empty] using hi)]
      simp [latestPayload, hf]
    · rw [List.getElem?_set_ne hf, ih]
      simp [latestPayload, hf]

theorem compression_foldl_add (received : List Fragment) (total : UInt8) :
    (received.foldl add (empty total)).compression = latestHeader received := by
  induction received using List.reverseRecOn with
  | nil => rfl
  | append_singleton received f ih =>
    rw [List.foldl_append, List.foldl_cons, List.foldl_nil, add, ih]
    cases hf : f.compression <;> simp [latestHeader, hf]

theorem parts_foldl_add (received : List Fragment) (total : UInt8) :
    (received.foldl add (empty total)).parts =
      (List.range total.toNat).map (latestPayload received) := by
  apply List.ext_getElem?
  intro i
  by_cases hi : i < total.toNat
  · rw [getElem?_parts_foldl_add received total hi]
    simp [hi]
  · rw [List.getElem?_eq_none, List.getElem?_eq_none]
    · simpa using hi
    · simpa [length_parts_foldl_add, empty] using hi

theorem isSome_latestPayload (received : List Fragment) (i : Nat) :
    (latestPayload received i).isSome ↔ ∃ g ∈ received, g.number.toNat = i := by
  simp [latestPayload]

theorem isComplete_foldl_add (received : List Fragment) (total : UInt8) :
    (received.foldl add (empty total)).isComplete = true ↔ Covers received total := by
  simp only [isComplete, parts_foldl_add, List.all_map, List.all_eq_true, List.mem_range,
    Function.comp_apply, isSome_latestPayload, Covers]

theorem joined_foldl_add (received : List Fragment) (total : UInt8) :
    (received.foldl add (empty total)).joined = latestContent received total := by
  simp only [joined, parts_foldl_add, latestContent, List.flatMap, List.map_map, Function.comp_def]

theorem ofFragments_append_singleton (received : List Fragment) (f : Fragment) :
    ofFragments (received ++ [f]) =
      some (((ofFragments received).getD (empty f.total)).add f) := by
  cases received <;> simp [ofFragments]

end PartialReply

namespace Reassembler

variable (u : Unpacker)

inductive Call where
  | push (datagram : List UInt8)
  | clear

def apply (r : Reassembler) : Call → Reassembler
  | .push datagram => (r.push u datagram).2
  | .clear => r.clear

def run (r : Reassembler) (history : List Call) : Reassembler := history.foldl (apply u) r

/-- The fragments of an id that count after one more has arrived. A disagreement about the total
resets the id, and so does the last fragment that is missing. -/
def received (before : List Fragment) (f : Fragment) : List Fragment :=
  if f.Disagrees before ∨ Covers (before ++ [f]) f.total then [] else before ++ [f]

/-- The fragments of an id that a call adds to or takes away. -/
def receivedAfter (framing : Framing) (id : Int32) (before : List Fragment) :
    Call → List Fragment
  | .clear => []
  | .push datagram =>
    match Fragment.decode framing datagram with
    | .error _ => before
    | .ok f => if f.id = id then received before f else before

/-- The fragments of an id that have arrived since its last reset. -/
def sinceReset (framing : Framing) (id : Int32) (history : List Call) : List Fragment :=
  history.foldl (receivedAfter framing id) []

/-- The reply that all fragments of an id carry together. -/
def replyOf (id : Int32) (all : List Fragment) (total : UInt8) :
    Except CodecError (List UInt8) :=
  if isCompressedId id then
    match latestHeader all with
    | some c => decompress u (latestContent all total) c
    | none => .error .badFragment
  else .ok (latestContent all total)

theorem content_foldl_add (id : Int32) (all : List Fragment) (total : UInt8) :
    (all.foldl PartialReply.add (.empty total)).content u id = replyOf u id all total := by
  have hcompression := PartialReply.compression_foldl_add all total
  cases hheader : latestHeader all with
  | none =>
    rw [hheader] at hcompression
    simp only [PartialReply.content, replyOf, hcompression, hheader,
      PartialReply.joined_foldl_add]
  | some c =>
    rw [hheader] at hcompression
    simp only [PartialReply.content, replyOf, hcompression, hheader,
      PartialReply.joined_foldl_add]

/-- The answer to a fragment, given those of its id that have arrived since the last reset. -/
def answer (before : List Fragment) (f : Fragment) : Except CodecError (Option (List UInt8)) :=
  if f.Disagrees before then .error .badFragment
  else if Covers (before ++ [f]) f.total then (replyOf u f.id (before ++ [f]) f.total).map some
  else .ok none

/-- Whether a call has a say in what becomes of an id. -/
def concerns (framing : Framing) (id : Int32) : Call → Bool
  | .clear => true
  | .push datagram =>
    match Fragment.decode framing datagram with
    | .error _ => false
    | .ok f => f.id = id

theorem run_append_singleton (r : Reassembler) (history : List Call) (c : Call) :
    r.run u (history ++ [c]) = (r.run u history).apply u c := by simp [run]

theorem sinceReset_append_singleton (framing : Framing) (id : Int32) (history : List Call)
    (c : Call) :
    sinceReset framing id (history ++ [c]) =
      receivedAfter framing id (sinceReset framing id history) c := by simp [sinceReset]

theorem get?_erase_ne (r : Reassembler) {id other : Int32} (h : id ≠ other) :
    (r.erase other).get? id = r.get? id := by
  simp only [get?, erase]
  induction r.pending with
  | nil => rfl
  | cons entry entries ih =>
    obtain ⟨key, p⟩ := entry
    by_cases hkey : key = other
    · subst hkey
      have hid : (id == key) = false := by simpa using h
      rw [List.filter_cons_of_neg (by simp), ih, List.lookup_cons, hid]
    · rw [List.filter_cons_of_pos (by simpa using hkey), List.lookup_cons, List.lookup_cons, ih]

theorem get?_insert_ne (r : Reassembler) {id other : Int32} (h : id ≠ other)
    (p : PartialReply) : (r.insert other p).get? id = r.get? id := by
  have hid : (id == other) = false := by simpa using h
  rw [← get?_erase_ne r h]
  simp [get?, insert, List.lookup_cons, hid]

theorem isPending_iff (r : Reassembler) :
    r.isPending = true ↔ ∃ id, r.get? id ≠ none := by
  obtain ⟨framing, pending⟩ := r
  cases pending with
  | nil => simp [isPending, get?]
  | cons entry entries =>
    obtain ⟨id, p⟩ := entry
    simp only [isPending, List.isEmpty_cons, Bool.not_false, true_iff]
    exact ⟨id, by simp [get?]⟩

theorem totals_receivedAfter {framing : Framing} {id : Int32} {before : List Fragment} (c : Call)
    (h : ∃ total, ∀ g ∈ before, g.total = total) :
    ∃ total, ∀ g ∈ receivedAfter framing id before c, g.total = total := by
  cases c with
  | clear => exact ⟨0, by simp [receivedAfter]⟩
  | push datagram =>
    simp only [receivedAfter]
    split
    · exact h
    · next f _ =>
      split
      · simp only [received]
        split
        · exact ⟨0, by simp⟩
        · next hf =>
          refine ⟨f.total, fun g hg => ?_⟩
          rcases List.mem_append.1 hg with hg | hg
          · exact not_not.1 fun hne => hf (Or.inl ⟨g, hg, hne⟩)
          · rw [List.mem_singleton.1 hg]
      · exact h

theorem totals_sinceReset (framing : Framing) (id : Int32) (history : List Call) :
    ∃ total, ∀ g ∈ sinceReset framing id history, g.total = total := by
  induction history using List.reverseRecOn with
  | nil => exact ⟨0, by simp [sinceReset]⟩
  | append_singleton history c ih =>
    rw [sinceReset_append_singleton]
    exact totals_receivedAfter c ih

/-- The total of an entry tells whether a fragment disagrees with any that count. -/
theorem total_ne_iff_disagrees {before : List Fragment} (f : Fragment)
    (h : ∃ total, ∀ g ∈ before, g.total = total) :
    ((PartialReply.ofFragments before).getD (.empty f.total)).total ≠ f.total ↔
      f.Disagrees before := by
  obtain ⟨total, h⟩ := h
  cases before with
  | nil => simp [PartialReply.ofFragments, PartialReply.empty, Fragment.Disagrees]
  | cons g before =>
    rw [PartialReply.ofFragments, Option.getD_some, PartialReply.total_foldl_add]
    change g.total ≠ f.total ↔ _
    constructor
    · exact fun hne => ⟨g, List.mem_cons_self, hne⟩
    · rintro ⟨g', hg', hne⟩ heq
      exact hne ((h g' hg').trans ((h g List.mem_cons_self).symm.trans heq))

theorem add_ofFragments {before : List Fragment} {f : Fragment} (h : ¬ f.Disagrees before) :
    ((PartialReply.ofFragments before).getD (.empty f.total)).add f =
      (before ++ [f]).foldl PartialReply.add (.empty f.total) := by
  cases before with
  | nil => rfl
  | cons g before =>
    have hg : g.total = f.total := not_not.1 fun hne => h ⟨g, List.mem_cons_self, hne⟩
    simp [PartialReply.ofFragments, hg]

/-- What becomes of the entry of an id, and the answer, when a fragment with the id arrives. -/
theorem pushFragment_of_get? {r : Reassembler} {f : Fragment} {before : List Fragment}
    (hr : r.get? f.id = PartialReply.ofFragments before)
    (h : ∃ total, ∀ g ∈ before, g.total = total) :
    (r.pushFragment u f).1 = answer u before f ∧
      (r.pushFragment u f).2.get? f.id = PartialReply.ofFragments (received before f) := by
  have hd := total_ne_iff_disagrees f h
  rw [pushFragment, hr]
  simp only
  by_cases hf : f.Disagrees before
  · rw [if_pos (hd.2 hf)]
    simp [answer, received, hf, get?_erase_self, PartialReply.ofFragments]
  · rw [if_neg (mt hd.1 hf), add_ofFragments hf]
    by_cases hc : Covers (before ++ [f]) f.total
    · rw [if_pos ((PartialReply.isComplete_foldl_add _ _).2 hc)]
      rw [content_foldl_add]
      simp [answer, received, hf, hc, get?_erase_self, PartialReply.ofFragments]
    · rw [if_neg (mt (PartialReply.isComplete_foldl_add _ _).1 hc)]
      simp only [answer, received, hf, hc, if_false, or_self, get?_insert_self, true_and]
      rw [PartialReply.ofFragments_append_singleton, add_ofFragments hf]

variable {u} in
theorem get?_pushFragment_ne {r : Reassembler} {f : Fragment} {id : Int32} (h : id ≠ f.id) :
    (r.pushFragment u f).2.get? id = r.get? id := by
  simp only [pushFragment]
  split
  · exact get?_erase_ne r h
  · split
    · exact get?_erase_ne r h
    · exact get?_insert_ne r h _

theorem framing_apply (r : Reassembler) (c : Call) : (r.apply u c).framing = r.framing := by
  cases c with
  | clear => rfl
  | push datagram =>
    simp only [apply, push]
    split
    · rfl
    · simp only [pushFragment]
      split
      · rfl
      · split <;> rfl

theorem framing_run (r : Reassembler) (history : List Call) :
    (r.run u history).framing = r.framing := by
  induction history using List.reverseRecOn with
  | nil => rfl
  | append_singleton history c ih => rw [run_append_singleton, framing_apply, ih]

/-- The entry of an id is what its fragments since the last reset add up to. -/
theorem get?_run (framing : Framing) (history : List Call) (id : Int32) :
    (run u { framing } history).get? id =
      PartialReply.ofFragments (sinceReset framing id history) := by
  induction history using List.reverseRecOn with
  | nil => rfl
  | append_singleton history c ih =>
    have hframing := framing_run u { framing } history
    rw [run_append_singleton, sinceReset_append_singleton]
    cases c with
    | clear => rfl
    | push datagram =>
      simp only [apply, push, receivedAfter, hframing]
      cases hd : Fragment.decode framing datagram with
      | error e => exact ih
      | ok f =>
        simp only
        by_cases hid : f.id = id
        · subst hid
          rw [if_pos rfl]
          exact (pushFragment_of_get? u ih (totals_sinceReset framing f.id history)).2
        · rw [if_neg hid, get?_pushFragment_ne (Ne.symm hid), ih]

/-- Calls that do not concern an id leave its fragments alone. -/
theorem sinceReset_filter_concerns (framing : Framing) (id : Int32) (history : List Call) :
    sinceReset framing id (history.filter (concerns framing id)) =
      sinceReset framing id history := by
  induction history using List.reverseRecOn with
  | nil => rfl
  | append_singleton history c ih =>
    rw [List.filter_append, sinceReset_append_singleton]
    by_cases hc : concerns framing id c = true
    · rw [List.filter_cons_of_pos hc, List.filter_nil, sinceReset_append_singleton, ih]
    · rw [List.filter_cons_of_neg hc, List.filter_nil, List.append_nil, ih]
      cases c with
      | clear => exact absurd rfl hc
      | push datagram =>
        simp only [receivedAfter]
        cases hd : Fragment.decode framing datagram with
        | error e => rfl
        | ok f =>
          have hid : f.id ≠ id := by simpa [concerns, hd] using hc
          simp [hid]

/-- The answer to every push after every history. A datagram that is no fragment changes nothing.
The answer to a fragment is fixed by those of its id since the last reset, so that calls which do
not concern the id can be left out of the history; and something is pending exactly if some id has
fragments since its last reset. -/
theorem push_after_history (framing : Framing) (history : List Call) (datagram : List UInt8) :
    (match Fragment.decode framing datagram with
      | .error e =>
        (run u { framing } history).push u datagram = (.error e, run u { framing } history)
      | .ok f =>
        ((run u { framing } history).push u datagram).1 =
            answer u (sinceReset framing f.id history) f ∧
          ((run u { framing } (history.filter (concerns framing f.id))).push u datagram).1 =
            ((run u { framing } history).push u datagram).1) ∧
      ((run u { framing } history).isPending = true ↔
        ∃ id, sinceReset framing id history ≠ []) := by
  have push_ok : ∀ {f : Fragment}, Fragment.decode framing datagram = .ok f →
      ∀ calls, ((run u { framing } calls).push u datagram).1 =
        answer u (sinceReset framing f.id calls) f := by
    intro f hf calls
    rw [push, framing_run, hf]
    exact (pushFragment_of_get? u (get?_run u framing calls f.id)
      (totals_sinceReset framing f.id calls)).1
  constructor
  · cases hd : Fragment.decode framing datagram with
    | error e => simp only [push, framing_run, hd]
    | ok f =>
      refine ⟨push_ok hd history, ?_⟩
      rw [push_ok hd, push_ok hd, sinceReset_filter_concerns]
  · rw [isPending_iff]
    refine exists_congr fun id => ?_
    rw [get?_run]
    cases sinceReset framing id history <;> simp [PartialReply.ofFragments]

end Reassembler

end GameQuery
