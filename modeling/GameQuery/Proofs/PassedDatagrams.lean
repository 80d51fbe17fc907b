import GameQuery.Proofs.CommandAnswer
import GameQuery.Proofs.FragmentCodec
import GameQuery.Proofs.Reassembly

namespace GameQuery

/-!
# Datagrams that are passed over

While a client waits for a reply, other datagrams may come: fragments of replies that do not get
complete and, from a GoldSrc server, lines of its log, whole or cut into fragments. They leave
something in the reassembler, and the client receives on.
-/

/-! ## Fragments of one id -/

theorem Covers.append_right {fs : List Fragment} {total : UInt8} (h : Covers fs total)
    (gs : List Fragment) : Covers (fs ++ gs) total := by
  intro i hi
  obtain ⟨g, hg, hnumber⟩ := h i hi
  exact ⟨g, List.mem_append_left gs hg, hnumber⟩

/-- Some fragments agree about their total, and one of them is missing. -/
structure Incomplete (fs : List Fragment) : Prop where
  agree : ∀ f ∈ fs, ∀ g ∈ fs, g.total = f.total
  missing : ∀ f ∈ fs, ¬Covers fs f.total

/-- What some fragments of one id add up to is nothing, or they are lines of a log that a GoldSrc
server has cut, one behind the other. -/
inductive PassedOver (framing : Framing) : List Fragment → Prop
  | incomplete {fs : List Fragment} (h : Incomplete fs) : PassedOver framing fs
  | logLine {before after : List Fragment} {last : Fragment} {text : String}
    (hframing : framing = .goldSrc) (hplain : isCompressedId last.id = false)
    (hbefore : Incomplete before)
    (hagree : ¬last.Disagrees before) (hcovers : Covers (before ++ [last]) last.total)
    (hlog : Reply.decode (latestContent (before ++ [last]) last.total) = .ok (.log text))
    (hafter : PassedOver framing after) : PassedOver framing (before ++ last :: after)

namespace Reassembler

/-- The fragments in some datagrams. -/
def fragmentsIn (framing : Framing) (datagrams : List (List UInt8)) : List Fragment :=
  datagrams.filterMap fun datagram => (Fragment.decode framing datagram).toOption

/-- The fragments of an id in some datagrams. -/
def fragmentsOf (framing : Framing) (id : Int32) (datagrams : List (List UInt8)) :
    List Fragment := (fragmentsIn framing datagrams).filter (·.id = id)

variable {framing : Framing} {id : Int32} {f : Fragment} {datagram : List UInt8}
  {datagrams : List (List UInt8)}

theorem mem_fragmentsIn : f ∈ fragmentsIn framing datagrams ↔
    ∃ datagram ∈ datagrams, Fragment.decode framing datagram = .ok f := by
  have htoOption : ∀ datagram, (Fragment.decode framing datagram).toOption = some f ↔
      Fragment.decode framing datagram = .ok f := by
    intro datagram
    cases Fragment.decode framing datagram <;> simp [Except.toOption]
  simp only [fragmentsIn, List.mem_filterMap, htoOption]

theorem mem_fragmentsOf : f ∈ fragmentsOf framing id datagrams ↔
    ∃ datagram ∈ datagrams, Fragment.decode framing datagram = .ok f ∧ f.id = id := by
  simp only [fragmentsOf, List.mem_filter, mem_fragmentsIn, decide_eq_true_eq, and_assoc,
    ← exists_and_right]

theorem fragmentsOf_append (before after : List (List UInt8)) :
    fragmentsOf framing id (before ++ after) =
      fragmentsOf framing id before ++ fragmentsOf framing id after := by
  rw [fragmentsOf, fragmentsIn, List.filterMap_append, List.filter_append]
  rfl

theorem fragmentsOf_append_cons (h : Fragment.decode framing datagram = .ok f)
    (before after : List (List UInt8)) :
    fragmentsOf framing f.id (before ++ datagram :: after) =
      fragmentsOf framing f.id before ++ f :: fragmentsOf framing f.id after := by
  rw [fragmentsOf_append]
  simp [fragmentsOf, fragmentsIn, h, Except.toOption]

/-- Without any other calls, what counts of an id is what its fragments leave. -/
theorem sinceReset_map_push (framing : Framing) (id : Int32) (datagrams : List (List UInt8)) :
    sinceReset framing id (datagrams.map Call.push) =
      (fragmentsOf framing id datagrams).foldl received [] := by
  induction datagrams using List.reverseRecOn with
  | nil => rfl
  | append_singleton datagrams datagram ih =>
    rw [List.map_append, List.map_singleton, sinceReset_append_singleton, ih, receivedAfter,
      fragmentsOf_append, List.foldl_append]
    cases h : Fragment.decode framing datagram with
    | error e => simp [fragmentsOf, fragmentsIn, h, Except.toOption]
    | ok f => by_cases hid : f.id = id <;> simp [fragmentsOf, fragmentsIn, h, hid, Except.toOption]

end Reassembler

open Reassembler

namespace Incomplete

variable {fs before after : List Fragment} {f : Fragment}

theorem left (h : Incomplete (before ++ after)) : Incomplete before where
  agree f hf g hg := h.agree f (List.mem_append_left _ hf) g (List.mem_append_left _ hg)
  missing f hf hcovers := h.missing f (List.mem_append_left _ hf) (hcovers.append_right after)

theorem not_disagrees (h : Incomplete (before ++ [f])) : ¬f.Disagrees before := by
  rintro ⟨g, hg, hne⟩
  exact hne (h.agree f List.mem_concat_self g (List.mem_append_left _ hg))

theorem foldl_received (h : Incomplete fs) : fs.foldl received [] = fs := by
  induction fs using List.reverseRecOn with
  | nil => rfl
  | append_singleton fs f ih =>
    rw [List.foldl_append, ih h.left, List.foldl_cons, List.foldl_nil, received, if_neg]
    rintro (hdisagrees | hcovers)
    · exact h.not_disagrees hdisagrees
    · exact h.missing f List.mem_concat_self hcovers

theorem answer_eq (u : Unpacker) (h : Incomplete (before ++ [f])) :
    answer u before f = .ok none := by
  rw [answer, if_neg h.not_disagrees, if_neg (h.missing f List.mem_concat_self)]

end Incomplete

/-- A fragment that arrives behind others of its id completes nothing, or a line of a log. -/
theorem PassedOver.answer_cases (u : Unpacker) {framing : Framing}
    {fs before after : List Fragment} {f : Fragment} (h : PassedOver framing fs)
    (hfs : fs = before ++ f :: after) :
    answer u (before.foldl received []) f = .ok none ∨ framing = .goldSrc ∧ ∃ whole text,
      answer u (before.foldl received []) f = .ok (some whole) ∧
        Reply.decode whole = .ok (.log text) := by
  induction h generalizing before with
  | incomplete h =>
    rw [hfs, List.append_cons] at h
    rw [h.left.left.foldl_received]
    exact .inl (h.left.answer_eq u)
  | @logLine before' after' last text hframing hplain hbefore hagree hcovers hlog hafter ih =>
    have hlast : answer u (before'.foldl received []) last =
        .ok (some (latestContent (before' ++ [last]) last.total)) := by
      rw [hbefore.foldl_received, answer, if_neg hagree, if_pos hcovers, replyOf, hplain]
      rfl
    rcases List.append_eq_append_iff.1 hfs with ⟨between, rfl, htail⟩ | ⟨between, rfl, htail⟩
    · cases between with
      | nil =>
        obtain ⟨rfl, -⟩ := List.cons.inj htail
        rw [List.append_nil]
        exact .inr ⟨hframing, _, text, hlast, hlog⟩
      | cons g between =>
        -- Behind a line of the log the id starts anew.
        obtain ⟨rfl, hafter'⟩ := List.cons.inj htail
        have hreset : received before' last = [] := by rw [received, if_pos (.inr hcovers)]
        rw [List.foldl_append, hbefore.foldl_received, List.foldl_cons, hreset]
        exact ih hafter'
    · cases between with
      | nil =>
        obtain ⟨rfl, -⟩ := List.cons.inj htail
        rw [List.append_nil] at hlast hlog
        exact .inr ⟨hframing, _, text, hlast, hlog⟩
      | cons g between =>
        obtain ⟨rfl, -⟩ := List.cons.inj htail
        rw [List.append_cons] at hbefore
        rw [hbefore.left.left.foldl_received]
        exact .inl (hbefore.left.answer_eq u)

/-! ## Headers -/

theorem headerOf_of_decode_fragment {framing : Framing} {datagram : List UInt8} {f : Fragment}
    (h : Fragment.decode framing datagram = .ok f) : headerOf datagram = some fragmentHeader :=
  headerOf_of_decode h

/-! ## Queues -/

namespace Arrival

/-- First some datagrams come, with nothing but delays between them, and then something else. -/
def BringsDatagrams (queue : List Arrival) (datagrams : List (List UInt8)) (back : List Arrival) :
    Prop :=
  ∃ front, queue = front ++ back ∧ Arrival.datagrams front = some datagrams

/-- The error with which a receive fails, if it does. -/
def receiveError? (queue : List Arrival) : Option ClientError :=
  match (passDelays queue).2 with
  | [] | .silence :: _ => some .timeout
  | .failure f :: _ => some (.ofFailure f)
  | .closed :: _ => some .dropped
  | .data _ :: _ | .delay _ :: _ => none

variable {queue back : List Arrival} {datagram : List UInt8} {datagrams : List (List UInt8)}

theorem BringsDatagrams.cons (h : BringsDatagrams queue (datagram :: datagrams) back) :
    ∃ rest, (passDelays queue).2 = .data datagram :: rest ∧
      BringsDatagrams rest datagrams back := by
  obtain ⟨front, rfl, hfront⟩ := h
  induction front with
  | nil => cases hfront
  | cons a front ih =>
    cases a with
    | data bytes =>
      obtain ⟨rest, hrest, he⟩ := Option.map_eq_some_iff.1 hfront
      cases he
      exact ⟨front ++ back, rfl, front, rfl, hrest⟩
    | delay micros => exact ih hfront
    | silence => cases hfront
    | failure f => cases hfront
    | closed => cases hfront

theorem BringsDatagrams.nil (h : BringsDatagrams queue [] back) :
    (passDelays queue).2 = (passDelays back).2 := by
  obtain ⟨front, rfl, hfront⟩ := h
  induction front with
  | nil => rfl
  | cons a front ih =>
    cases a with
    | data bytes =>
      obtain ⟨rest, -, he⟩ := Option.map_eq_some_iff.1 hfront
      cases he
    | delay micros => exact ih hfront
    | silence => cases hfront
    | failure f => cases hfront
    | closed => cases hfront

end Arrival

open Arrival Dialog

namespace DatagramChannel

variable {c : DatagramChannel} {n : Network} {back : List Arrival} {datagram : List UInt8}
  {datagrams : List (List UInt8)}

theorem receive_of_brings (timeout : Option Nat) (hsize : datagram.length ≤ maxDatagramSize)
    (h : BringsDatagrams c.socket.queue (datagram :: datagrams) back) :
    ∃ v, receive timeout (c, n) = .ok datagram v ∧
      BringsDatagrams v.1.socket.queue datagrams back := by
  obtain ⟨rest, hqueue, hrest⟩ := h.cons
  have hpeek : Socket.peek (n.settings.wait timeout c.timeout) (c.socket, n) =
      .ok (some datagram) ({ c.socket with queue := .data datagram :: rest },
        n.pass (passDelays c.socket.queue).1) := by
    simp only [Socket.peek]
    rw [hqueue]
  have hon := on_of_ok (p := socketPart) (s := c) rfl hpeek
  have hwhole := (c.buffer.take_fit datagram).trans (List.take_of_length_le hsize)
  refine ⟨({ c with socket := { c.socket with queue := rest }, buffer := c.buffer.fit datagram },
    (n.pass (passDelays c.socket.queue).1).record
      (.received c.socket.transport c.socket.peer datagram)), ?_, hrest⟩
  rw [receive, state_bind, network_bind, bind_of_ok hon]
  exact congrArg (EStateM.Result.ok · _) hwhole

theorem receive_fails (timeout : Option Nat) {e : ClientError}
    (h : BringsDatagrams c.socket.queue [] back) (he : receiveError? back = some e) :
    ∃ v, receive timeout (c, n) = .error e v := by
  rw [receiveError?, ← h.nil] at he
  have hpeek : (∃ v, Socket.peek (n.settings.wait timeout c.timeout) (c.socket, n) = .error e v) ∨
      e = .dropped ∧
        ∃ v, Socket.peek (n.settings.wait timeout c.timeout) (c.socket, n) = .ok none v := by
    simp only [Socket.peek]
    cases hqueue : (passDelays c.socket.queue).2 with
    | nil =>
      rw [hqueue] at he
      cases he
      exact .inl ⟨_, rfl⟩
    | cons a rest =>
      rw [hqueue] at he
      cases a with
      | data bytes => cases he
      | delay micros => cases he
      | silence =>
        cases he
        exact .inl ⟨_, rfl⟩
      | failure f =>
        cases he
        exact .inl ⟨_, rfl⟩
      | closed =>
        cases he
        exact .inr ⟨rfl, _, rfl⟩
  rw [receive, state_bind, network_bind]
  have hget : socketPart.get? c = some c.socket := rfl
  rcases hpeek with ⟨v, hv⟩ | ⟨rfl, v, hv⟩
  · exact ⟨_, bind_of_error (on_of_error hget hv) _⟩
  · exact ⟨_, bind_of_ok (on_of_ok hget hv) _⟩

end DatagramChannel

namespace QueryChannel

variable {c : QueryChannel} {n : Network} {datagram : List UInt8} {before : List (List UInt8)}
  {f : Fragment} {framing : Framing}

/-- The reassembler holds what some datagrams have left in it. -/
def Holds (framing : Framing) (before : List (List UInt8)) (c : QueryChannel) : Prop :=
  c.reassembler = run Bzip2.unpacker { framing } (before.map Call.push)

/-- What becomes of a fragment is fixed by those of its id before it. -/
theorem accept_fragment (hc : Holds framing before c)
    (h : Fragment.decode framing datagram = .ok f) :
    ∃ c', c'.queue = c.queue ∧ Holds framing (before ++ [datagram]) c' ∧
      (answer Bzip2.unpacker ((fragmentsOf framing f.id before).foldl received []) f = .ok none →
        accept datagram (c, n) = .ok none (c', n)) ∧
      ∀ whole r, answer Bzip2.unpacker ((fragmentsOf framing f.id before).foldl received []) f =
        .ok (some whole) → Reply.decode whole = .ok r →
          accept datagram (c, n) = .ok (some r) (c', n) := by
  have hne : fragmentHeader ≠ wholeHeader := by decide
  have hframing : c.reassembler.framing = framing := by
    rw [hc, framing_run]
  have hpush : c.reassembler.push Bzip2.unpacker datagram =
      c.reassembler.pushFragment Bzip2.unpacker f := by
    rw [push, hframing, h]
  have hcontent : (c.reassembler.pushFragment Bzip2.unpacker f).1 =
      answer Bzip2.unpacker ((fragmentsOf framing f.id before).foldl received []) f := by
    have hentry := get?_run Bzip2.unpacker framing (before.map Call.push) f.id
    have htotals := totals_sinceReset framing f.id (before.map Call.push)
    rw [sinceReset_map_push] at hentry htotals
    rw [hc]
    exact (pushFragment_of_get? Bzip2.unpacker hentry htotals).1
  let after := (c.reassembler.pushFragment Bzip2.unpacker f).2
  refine ⟨{ c with reassembler := after }, rfl, ?_, ?_, ?_⟩
  · rw [Holds, List.map_append, List.map_singleton, run_append_singleton, ← hc, apply, hpush]
  · intro hnone
    simp only [accept, headerOf_of_decode_fragment h, hne, if_false, if_true]
    rw [state_bind]
    simp only [hpush, hcontent, hnone]
    rfl
  · intro whole r hwhole hr
    simp only [accept, headerOf_of_decode_fragment h, hne, if_false, if_true]
    rw [state_bind]
    simp only [hpush, hcontent, hwhole]
    rw [modifyState_bind]
    simp only [Dialog.ofCodec, pure_bind, hr]
    rfl

/-- A datagram that arrives behind others is no reply and completes none, but for lines of a log. -/
inductive Passes (framing : Framing) (before : List (List UInt8)) (datagram : List UInt8) : Prop
  | fragment {f : Fragment} (h : Fragment.decode framing datagram = .ok f)
    (hnone : answer Bzip2.unpacker ((fragmentsOf framing f.id before).foldl received []) f =
      .ok none) : Passes framing before datagram
  | splitLine {f : Fragment} {whole : List UInt8} {text : String} (hframing : framing = .goldSrc)
    (h : Fragment.decode framing datagram = .ok f)
    (hwhole : answer Bzip2.unpacker ((fragmentsOf framing f.id before).foldl received []) f =
      .ok (some whole))
    (hlog : Reply.decode whole = .ok (.log text)) : Passes framing before datagram
  | line {text : String} (hframing : framing = .goldSrc)
    (hlog : Reply.decode datagram = .ok (.log text)) : Passes framing before datagram

theorem Holds.framing_eq (h : Holds framing before c) : c.reassembler.framing = framing := by
  rw [h, framing_run]

theorem Holds.line (h : Holds framing before c) {r : Reply} (hr : Reply.decode datagram = .ok r) :
    Holds framing (before ++ [datagram]) c := by
  have hpush : c.reassembler.apply Bzip2.unpacker (.push datagram) = c.reassembler := by
    rw [apply, push]
    cases hf : Fragment.decode c.reassembler.framing datagram with
    | error e => rfl
    | ok f =>
      have hheader := (headerOf_of_decode_fragment hf).symm.trans (headerOf_of_decode_reply hr)
      exact absurd (Option.some.inj hheader) (by decide)
  rw [Holds, List.map_append, List.map_singleton, run_append_singleton, ← h, hpush]

theorem isLogLine_log (hframing : framing = .goldSrc) (text : String) :
    isLogLine framing (.log text) = true := by
  rw [hframing]
  rfl

theorem accept_of_passes (hc : Holds framing before c) (h : Passes framing before datagram) :
    ∃ c', c'.queue = c.queue ∧ Holds framing (before ++ [datagram]) c' ∧
      ∃ r, accept datagram (c, n) = .ok r (c', n) ∧
        ∀ reply ∈ r, isLogLine framing reply = true := by
  cases h with
  | fragment h hnone =>
    obtain ⟨c', hqueue, hholds, haccept, -⟩ := accept_fragment (n := n) hc h
    refine ⟨c', hqueue, hholds, none, haccept hnone, ?_⟩
    intro reply hreply
    exact absurd hreply (Option.not_mem_none reply)
  | splitLine hframing h hwhole hlog =>
    obtain ⟨c', hqueue, hholds, -, haccept⟩ := accept_fragment (n := n) hc h
    refine ⟨c', hqueue, hholds, _, haccept _ _ hwhole hlog, ?_⟩
    intro reply hreply
    rw [← Option.mem_some.1 hreply]
    exact isLogLine_log hframing _
  | line hframing hlog =>
    refine ⟨c, rfl, hc.line hlog, _, accept_whole hlog _, ?_⟩
    intro reply hreply
    rw [← Option.mem_some.1 hreply]
    exact isLogLine_log hframing _

variable {back : List Arrival} {datagrams rest : List (List UInt8)}

/-- What a pass does with a datagram that it has received. -/
def finish (datagram : List UInt8) : Dialog QueryChannel (Pass Unit Reply) := do
  match ← accept datagram with
  | none => return .again ()
  | some r =>
    let c ← Dialog.state
    return if isLogLine c.reassembler.framing r then .again () else .done r

theorem replyPass_of_brings (timeout : Option Nat) (hc : Holds framing before c)
    (hsize : datagram.length ≤ maxDatagramSize)
    (h : BringsDatagrams c.queue (datagram :: datagrams) back) :
    ∃ c' m, BringsDatagrams c'.queue datagrams back ∧ Holds framing before c' ∧
      replyPass timeout (c, n) = finish datagram (c', m) := by
  obtain ⟨v, hreceive, hbrings⟩ :=
    DatagramChannel.receive_of_brings (c := c.channel) (n := n) timeout hsize h
  have hon := on_of_ok (p := channelPart) (s := c) rfl hreceive
  exact ⟨{ c with channel := v.1 }, v.2, hbrings, hc, bind_of_ok hon _⟩

theorem replyPass_of_passes (timeout : Option Nat) (hc : Holds framing before c)
    (hsize : datagram.length ≤ maxDatagramSize) (hpasses : Passes framing before datagram)
    (h : BringsDatagrams c.queue (datagram :: datagrams) back) :
    ∃ v, replyPass timeout (c, n) = .ok (.again ()) v ∧
      Holds framing (before ++ [datagram]) v.1 ∧ BringsDatagrams v.1.queue datagrams back := by
  obtain ⟨c₁, m, hbrings, hholds, hpass⟩ := replyPass_of_brings (n := n) timeout hc hsize h
  obtain ⟨c₂, hqueue, hholds', r, haccept, hlines⟩ := accept_of_passes (n := m) hholds hpasses
  refine ⟨(c₂, m), ?_, hholds', hqueue ▸ hbrings⟩
  rw [hpass, finish, bind_of_ok haccept]
  cases r with
  | none => rfl
  | some reply =>
    simp only [state_bind, hholds'.framing_eq, hlines reply rfl, if_true]
    rfl

theorem replyPass_again {timeout : Option Nat} {_ : Unit} {w : QueryChannel × Network} {u : Unit}
    {w' : QueryChannel × Network} (h : replyPass timeout w = .ok (.again u) w') :
    w'.1.queue.length < w.1.queue.length := replyPass_shortens h

/-- The passes of a reply. -/
def loop (timeout : Option Nat) : Dialog QueryChannel Reply :=
  Dialog.iterate (fun _ c => c.queue.length) (fun _ => replyPass timeout)
    (@replyPass_again timeout) ()

theorem loop_of_passes (timeout : Option Nat) {skipped : List (List UInt8)}
    (hc : Holds framing before c) (hsize : ∀ datagram ∈ skipped, datagram.length ≤ maxDatagramSize)
    (hpasses : ∀ front datagram behind, skipped = front ++ datagram :: behind →
      Passes framing (before ++ front) datagram)
    (h : BringsDatagrams c.queue (skipped ++ rest) back) :
    ∃ v, loop timeout (c, n) = loop timeout v ∧ Holds framing (before ++ skipped) v.1 ∧
      BringsDatagrams v.1.queue rest back := by
  -- What a pass has skipped joins the datagrams that the reassembler holds.
  induction skipped generalizing c n before with
  | nil =>
    rw [List.append_nil]
    exact ⟨(c, n), rfl, hc, h⟩
  | cons datagram skipped ih =>
    obtain ⟨hfirst, hsize'⟩ := List.forall_mem_cons.1 hsize
    have hhead := hpasses [] datagram skipped rfl
    rw [List.append_nil] at hhead
    obtain ⟨u, hpass, hholds, hbrings⟩ := replyPass_of_passes (n := n) timeout hc hfirst hhead h
    have hpasses' : ∀ front d behind, skipped = front ++ d :: behind →
        Passes framing (before ++ [datagram] ++ front) d := by
      intro front d behind hsplit
      rw [List.append_assoc]
      exact hpasses (datagram :: front) d behind (congrArg (datagram :: ·) hsplit)
    obtain ⟨v, hloop, hv⟩ := ih (n := u.2) hholds hsize' hpasses' hbrings
    rw [List.append_assoc] at hv
    exact ⟨v, (iterate_of_again replyPass_shortens hpass).trans hloop, hv⟩

theorem reply_eq_loop (timeout : Option Nat) (hframing : c.reassembler.framing = framing) :
    ∃ c', reply timeout (c, n) = loop timeout (c', n) ∧ Holds framing [] c' ∧
      c'.queue = c.queue := by
  refine ⟨{ c with reassembler := c.reassembler.clear }, rfl, ?_, rfl⟩
  rw [Holds, ← hframing]
  rfl

theorem loop_of_accept (timeout : Option Nat) {before : List (List UInt8)} {r : Reply}
    (hc : Holds framing before c) (hsize : datagram.length ≤ maxDatagramSize)
    (hline : isLogLine framing r = false)
    (haccept : ∀ c' m, Holds framing before c' → ∃ c'', accept datagram (c', m) =
      .ok (some r) (c'', m) ∧ c''.reassembler.framing = framing)
    (h : BringsDatagrams c.queue (datagram :: datagrams) back) :
    ∃ v, loop timeout (c, n) = .ok r v := by
  obtain ⟨c', m, -, hholds, hpass⟩ := replyPass_of_brings (n := n) timeout hc hsize h
  obtain ⟨c'', haccept, hframing⟩ := haccept c' m hholds
  have hdone : replyPass timeout (c, n) = .ok (.done r) (c'', m) := by
    rw [hpass, finish, bind_of_ok haccept]
    simp only [state_bind, hframing, hline]
    rfl
  exact ⟨_, iterate_of_done replyPass_shortens hdone⟩

theorem loop_fails (timeout : Option Nat) {e : ClientError} (h : BringsDatagrams c.queue [] back)
    (he : receiveError? back = some e) : ∃ v, loop timeout (c, n) = .error e v := by
  obtain ⟨v, hv⟩ := DatagramChannel.receive_fails (c := c.channel) (n := n) timeout h he
  have hpass : replyPass timeout (c, n) = .error e (channelPart.put v.1 c, v.2) :=
    bind_of_error (on_of_error rfl hv) _
  exact ⟨_, iterate_of_error replyPass_shortens hpass⟩

end QueryChannel

end GameQuery
