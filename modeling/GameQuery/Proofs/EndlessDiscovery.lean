import GameQuery.Proofs.DiscoveryBudget
import GameQuery.Proofs.PassedDatagrams

namespace GameQuery

/-!
# Discoveries without an end

A master server whose pages always have something beside the cursor keeps a discovery going for as
long as it lasts, also if there are only a few servers on its pages.
-/

open Arrival Dialog

theorem Arrival.BringsDatagrams.snoc {queue : List Arrival} {datagrams : List (List UInt8)}
    (h : BringsDatagrams queue datagrams []) (datagram : List UInt8) :
    BringsDatagrams (queue ++ [.data datagram]) (datagrams ++ [datagram]) [] := by
  obtain ⟨front, rfl, hfront⟩ := h
  rw [List.append_nil]
  exact ⟨front ++ [.data datagram], (List.append_nil _).symm, datagrams_append hfront rfl⟩

namespace ListingChannel

theorem ask_of_page {q : ListingQuery} {c : ListingChannel} {n : Network}
    {page : List SocketAddressV4} (hroom : q.bytes.length ≤ requestRoom)
    (hquiet : BringsDatagrams c.socket.queue [] [])
    (hreact : n.world.react n.history c.socket.transport c.socket.peer q.bytes =
      .ok [.data (Page.datagram page)])
    (hsize : (Page.datagram page).length ≤ maxDatagramSize) :
    ∃ v, ask q (c, n) = .ok page v ∧ BringsDatagrams v.1.socket.queue [] [] := by
  have hlength : q.bytes.length ≤ (List.replicate requestRoom (0 : UInt8)).length :=
    hroom.trans_eq List.length_replicate.symm
  obtain ⟨filled, hencode, hbytes⟩ := Writer.encode_bytes_of_le hlength
  have hsocket := Socket.send_eq filled.bytes c.socket n
  rw [hbytes, hreact] at hsocket
  have hrequest : ∃ v, DatagramChannel.sendRequest q.write (c.channel, n) = .ok () v ∧
      v.1.socket.queue = c.socket.queue ++ [.data (Page.datagram page)] := by
    rw [DatagramChannel.sendRequest, ListingQuery.write_eq, hencode, Dialog.ofCodec, pure_bind,
      hbytes]
    exact ⟨_, on_of_ok rfl hsocket, rfl⟩
  obtain ⟨v, hsend, hqueue⟩ := hrequest
  have hbrings := hquiet.snoc (Page.datagram page)
  rw [← hqueue] at hbrings
  obtain ⟨u, hreceive, hrest⟩ := DatagramChannel.receive_of_brings (n := v.2) none hsize hbrings
  refine ⟨({ channel := u.1 }, u.2), ?_, hrest⟩
  have hreply : reply ({ channel := v.1 }, v.2) = .ok page ({ channel := u.1 }, u.2) := by
    rw [reply, bind_of_ok (on_of_ok rfl hreceive), readPage_datagram]
    rfl
  exact (bind_of_ok (on_of_ok rfl hsend) _).trans hreply

end ListingChannel

namespace MasterServer

/-- A master server that has a page for each of some cursors. Every page has something beside the
cursor, and its last address is one of the cursors again. -/
structure IsEndless (page : SocketAddressV4 → List SocketAddressV4) (cursors : List SocketAddressV4)
    (region : Region) (filter : String) (world : World) : Prop where
  answers : ∀ history peer, ∀ cursor ∈ cursors,
    world.react history .udp peer (ListingQuery.bytes ⟨region, cursor, filter⟩) =
      .ok [.data (Page.datagram (page cursor))]
  room : ∀ cursor ∈ cursors, (ListingQuery.bytes ⟨region, cursor, filter⟩).length ≤ requestRoom
  size : ∀ cursor ∈ cursors, (Page.datagram (page cursor)).length ≤ maxDatagramSize
  goesOn : ∀ cursor ∈ cursors, (Harvest.ofPage cursor (page cursor)).isLast = false
  next : ∀ cursor ∈ cursors, ∃ last ∈ cursors,
    (Harvest.ofPage cursor (page cursor)).found.getLast? = some last

/-- A client has a socket at which nothing waits. -/
structure Waits (world : World) (w : MasterServer × Network) : Prop where
  world : w.2.world = world
  bound : w.1.IsBound
  quiet : ∃ c, w.1.connection.owner.channel = some c ∧ BringsDatagrams c.socket.queue [] []

variable {page : SocketAddressV4 → List SocketAddressV4} {cursors : List SocketAddressV4}
  {region : Region} {filter : String} {world : World} {cursor : SocketAddressV4}
  {w : MasterServer × Network} {force : Bool} {r : Nat} {p : Progress}

/-- From before to after, `k` requests have been sent, and what has been received is on the pages
for the cursors. -/
structure Gathers (page : SocketAddressV4 → List SocketAddressV4) (cursors : List SocketAddressV4)
    (k : Nat) (w v : MasterServer × Network) : Prop where
  length : (asked v.2.history).length = (asked w.2.history).length + k
  known : ∀ server ∈ received v.2.history,
    server ∈ received w.2.history ∨ ∃ cursor ∈ cursors, server ∈ page cursor

theorem Gathers.trans {u v : MasterServer × Network} {j k : Nat}
    (h : Gathers page cursors j u v) (h' : Gathers page cursors k v w) :
    Gathers page cursors (j + k) u w where
  length := by rw [h'.length, h.length, Nat.add_assoc]
  known := by
    intro server hserver
    rcases h'.known server hserver with hv | hpage
    · exact h.known server hv
    · exact .inr hpage

theorem gathers_of_page {v : MasterServer × Network} {peer : SocketAddress} {bytes : List UInt8}
    (hcursor : cursor ∈ cursors) (h : exchanges v.2.history =
      exchanges w.2.history ++ [.request peer bytes, .answer peer (.ok (page cursor))]) :
    Gathers page cursors 1 w v where
  length := by
    rw [asked_eq_filterMap_exchanges, asked_eq_filterMap_exchanges, h, List.filterMap_append,
      List.length_append]
    rfl
  known := by
    intro server hserver
    rw [received, h, List.flatMap_append] at hserver
    rcases List.mem_append.1 hserver with hold | hnew
    · exact .inl hold
    · simp only [List.flatMap_cons, List.flatMap_nil, List.nil_append, List.append_nil] at hnew
      exact .inr ⟨cursor, hcursor, List.mem_of_mem_filter hnew⟩

theorem fetchPage_endless (h : IsEndless page cursors region filter world) (hw : Waits world w)
    (hcursor : cursor ∈ cursors) :
    Ends (fetchPage region filter cursor) w fun res v =>
      res = .ok (Harvest.ofPage cursor (page cursor)) ∧ Waits world v ∧
        Gathers page cursors 1 w v := by
  obtain ⟨s, n⟩ := w
  obtain ⟨hworld, hbound, c, hc, hquiet⟩ := hw
  obtain ⟨htransport, hpeer⟩ := hbound c hc
  have hreact := h.answers n.history c.socket.peer cursor hcursor
  rw [← hworld, ← htransport] at hreact
  obtain ⟨u, hask, hrest⟩ := ListingChannel.ask_of_page (h.room cursor hcursor) hquiet hreact
    (h.size cursor hcursor)
  have hsome : s.connection.owner.channel.isSome = true := Option.isSome_iff_exists.2 ⟨c, hc⟩
  have hopen : openUp (s, n) = .ok () (s, n) := by
    simp only [openUp, state_bind, hsome, if_true]
    rfl
  have hpage : askPage region filter cursor (s, n) =
      .ok (page cursor) (channelPart.put u.1 s, u.2) := on_of_ok (p := channelPart) hc hask
  have hends := askPage_ends region filter cursor hbound hsome
  obtain ⟨-, hbound', hexchanges⟩ := hends.of_eq_ok hpage
  have hlater := (ListingChannel.laterOf_ask ⟨region, cursor, filter⟩ (c, n)).of_eq_ok hask
  have hwaits : Waits world (channelPart.put u.1 s, u.2) :=
    ⟨hlater.world.trans hworld, hbound', u.1, rfl, hrest⟩
  rw [fetchPage_eq]
  apply ends_bind_of_ok hopen
  apply Ends.map
  exact ends_of_ok hpage ⟨rfl, hwaits, gathers_of_page hcursor hexchanges⟩

theorem step_endless (h : IsEndless page cursors region filter world) (hw : Waits world w)
    (hcursor : p.cursor ∈ cursors) :
    Ends (step region filter force r p) w fun res v => Waits world v ∧
      Gathers page cursors 1 w v ∧ ∃ q, res = .ok (.resume q) ∧ q.cursor ∈ cursors := by
  have hmore := h.goesOn p.cursor hcursor
  obtain ⟨last, hlast, hfound⟩ := h.next p.cursor hcursor
  refine ends_step (fetchPage_endless h hw hcursor) ?_ ?_ ?_ ?_ ?_
  · rintro harvest v line ⟨hres, -⟩ hend
    cases hres
    cases hmore.symm.trans hend
  · rintro harvest v ⟨hres, hwaits, hgot⟩ - -
    cases hres
    refine ⟨hwaits, hgot, _, rfl, ?_⟩
    rw [Progress.collect, hfound]
    exact hlast
  · rintro harvest v line ⟨hres, -⟩ - hnone
    cases hres
    rw [hnone] at hfound
    cases hfound
  · rintro e v line ⟨hres, -⟩
    cases hres
  · rintro e v ⟨hres, -⟩
    cases hres

theorem resume_endless (h : IsEndless page cursors region filter world) (limit : Nat)
    (hw : Waits world w) (hcursor : p.cursor ∈ cursors) :
    Ends (resume region filter force r limit p) w fun res v =>
      res = .error .limit ∧ Gathers page cursors limit w v := by
  induction limit generalizing p w with
  | zero => exact ends_throw ⟨rfl, rfl, fun _ hserver => .inl hserver⟩
  | succ limit ih =>
    refine (step_endless h hw hcursor).bind ?_ ?_
    · rintro next v ⟨hwaits, hgathers, q, hq, hcursor'⟩
      cases hq
      refine (ih hwaits hcursor').imp fun res u hu => ⟨hu.1, ?_⟩
      rw [Nat.add_comm]
      exact hgathers.trans hu.2
    · rintro e v ⟨-, -, q, hq, -⟩
      cases hq

/-- Such a discovery never ends by itself, however many attempts it is given. -/
theorem getServers_endless (h : IsEndless page cursors region filter world)
    (hstart : sentinel ∈ cursors) (limit : Nat) (hw : Waits world w) :
    Ends (getServers limit region filter force) w fun res v =>
      res = .error .limit ∧ Gathers page cursors limit w v :=
  ends_state_bind (ends_network_bind (resume_endless h limit hw hstart))

section Turning

/-- The page behind the first server has the second one, and all others have the first one. -/
def turningPage (cursor : SocketAddressV4) : List SocketAddressV4 :=
  [if cursor = turningServer 1 then turningServer 2 else turningServer 1]

/-- A world in which every request is answered by one of these pages. -/
def turningWorld : World where
  connect _ _ _ := none
  react _ _ _ bytes :=
    let first := bytes = ListingQuery.bytes ⟨.world, turningServer 1, ""⟩
    .ok [.data (Page.datagram [if first then turningServer 2 else turningServer 1])]
  resolve _ := none
  sessionId _ := 0

def turningCursors : List SocketAddressV4 := [sentinel, turningServer 1, turningServer 2]

theorem turningWorld_isEndless :
    IsEndless turningPage turningCursors .world "" turningWorld where
  answers := by
    intro history peer cursor hcursor
    have hbytes : ∀ cursor ∈ turningCursors,
        ListingQuery.bytes ⟨.world, cursor, ""⟩ = ListingQuery.bytes ⟨.world, turningServer 1, ""⟩ ↔
          cursor = turningServer 1 := by decide +kernel
    simp only [turningWorld, turningPage, hbytes cursor hcursor]
  room := by decide +kernel
  size := by decide +kernel
  goesOn := by decide +kernel
  next := by decide +kernel

/-- Two servers keep a discovery going for as many requests as there may be. -/
theorem turning_never_ends (limit : Nat) : ∃ v,
    Dialog.outcome (getServers limit .world "" false)
        (clientOf 1 (masterAddress 1) [] turningWorld) = .ok (.error .limit) v ∧
      (asked v.2.history).length = limit ∧
      ∀ server ∈ received v.2.history, server = turningServer 1 ∨ server = turningServer 2 := by
  let w := clientOf 1 (masterAddress 1) [] turningWorld
  have hwaits : Waits turningWorld w := by
    refine ⟨rfl, ?_, .fresh (masterAddress 1) none, rfl, [], rfl, rfl⟩
    rintro c ⟨⟩
    exact ⟨rfl, rfl⟩
  have hends : Ends (getServers limit .world "" false) w fun res v =>
      res = .error .limit ∧ Gathers turningPage turningCursors limit w v :=
    getServers_endless turningWorld_isEndless (by decide) limit hwaits
  obtain ⟨_, v, hrun, rfl, hgathers⟩ := hends.exists_outcome
  refine ⟨v, hrun, hgathers.length.trans (Nat.zero_add limit), ?_⟩
  intro server hserver
  rcases hgathers.known server hserver with hnone | ⟨cursor, -, hpage⟩
  · cases hnone
  · rw [turningPage, List.mem_singleton] at hpage
    split at hpage
    · exact .inr hpage
    · exact .inl hpage

end Turning

end MasterServer

end GameQuery
