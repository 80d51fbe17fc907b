import GameQuery.Fragment

namespace GameQuery

/-!
# Reassembly

Fragments are collected by id until all of them are there. They may come in any order, and a
fragment that comes again replaces its earlier copy. An id is forgotten when its reply is complete
and when fragments with the id disagree about their total.
-/

/-- The fragments of a reply that have arrived. -/
structure PartialReply where
  total : UInt8
  compression : Option Compression
  /-- The payloads by number, one place for each. -/
  parts : List (Option (List UInt8))

namespace PartialReply

def empty (total : UInt8) : PartialReply :=
  { total, compression := none, parts := List.replicate total.toNat none }

def add (p : PartialReply) (f : Fragment) : PartialReply :=
  { p with
    compression := f.compression.or p.compression
    parts := p.parts.set f.number.toNat (some f.payload) }

def isComplete (p : PartialReply) : Bool := p.parts.all Option.isSome

/-- The payloads one after another. -/
def joined (p : PartialReply) : List UInt8 := (p.parts.map (·.getD [])).flatten

/-- The reply that all fragments together carry. -/
def content (u : Unpacker) (p : PartialReply) (id : Int32) : Except CodecError (List UInt8) :=
  if isCompressedId id then
    match p.compression with
    | some c => decompress u p.joined c
    | none => .error .badFragment
  else .ok p.joined

end PartialReply

/-- Replies that are not yet complete. -/
structure Reassembler where
  framing : Framing
  pending : List (Int32 × PartialReply) := []

namespace Reassembler

def isPending (r : Reassembler) : Bool := !r.pending.isEmpty

/-- Forgets all replies that are not complete. -/
def clear (r : Reassembler) : Reassembler := { r with pending := [] }

def get? (r : Reassembler) (id : Int32) : Option PartialReply := r.pending.lookup id

def erase (r : Reassembler) (id : Int32) : Reassembler :=
  { r with pending := r.pending.filter (·.1 ≠ id) }

def insert (r : Reassembler) (id : Int32) (p : PartialReply) : Reassembler :=
  { r with pending := (id, p) :: (r.erase id).pending }

/-- Adds a fragment that has been read. -/
def pushFragment (u : Unpacker) (r : Reassembler) (f : Fragment) :
    Except CodecError (Option (List UInt8)) × Reassembler :=
  let p := (r.get? f.id).getD (PartialReply.empty f.total)
  if p.total ≠ f.total then (.error .badFragment, r.erase f.id)
  else
    let p := p.add f
    if p.isComplete then ((p.content u f.id).map some, r.erase f.id)
    else (.ok none, r.insert f.id p)

/-- Adds a datagram. The answer is a reply, if this completes one. -/
def push (u : Unpacker) (r : Reassembler) (datagram : List UInt8) :
    Except CodecError (Option (List UInt8)) × Reassembler :=
  match Fragment.decode r.framing datagram with
  | .error e => (.error e, r)
  | .ok f => r.pushFragment u f

theorem get?_erase_self (r : Reassembler) (id : Int32) : (r.erase id).get? id = none := by
  simp only [get?, erase, List.lookup_eq_none_iff]
  intro x hx
  have := (List.mem_filter.1 hx).2
  simp only [ne_eq, decide_not, Bool.not_eq_eq_eq_not, Bool.not_true,
    decide_eq_false_iff_not] at this
  simpa using Ne.symm this

@[simp] theorem get?_insert_self (r : Reassembler) (id : Int32) (p : PartialReply) :
    (r.insert id p).get? id = some p := by
  simp [get?, insert]

@[simp] theorem isPending_clear (r : Reassembler) : r.clear.isPending = false := rfl

end Reassembler

end GameQuery
