import GameQuery.Proofs.DiscoveryAccount
import Mathlib.Data.List.Infix
import Mathlib.Data.List.TakeWhile

namespace GameQuery

/-!
# Discovery with honest master servers

An honest master server sends some run of its list behind the cursor it is asked for. Whatever the
sizes of the pages are and whichever attempts fail, what has been collected is always the front of
the list, so a discovery that does not give up collects the whole list.
-/

open Dialog

/-! ## Pages of an honest master server -/

/-- The part of a list behind a cursor, which is the whole list behind the sentinel. -/
def following (list : List SocketAddressV4) (cursor : SocketAddressV4) : List SocketAddressV4 :=
  if cursor = sentinel then list else (list.dropWhile (· ≠ cursor)).tail

/-- A page of a list behind a cursor. The cursor itself may come first. The sentinel may come last
if nothing is left behind the page. A page without any other address has it. -/
inductive IsPageOf (list : List SocketAddressV4) (cursor : SocketAddressV4) :
    List SocketAddressV4 → Prop
  | mk (head run ending : List SocketAddressV4)
    (hhead : head = [] ∨ head = [cursor] ∧ cursor ≠ sentinel)
    (hrun : run <+: following list cursor)
    (hending : ending = [] ∧ run ≠ [] ∨ ending = [sentinel] ∧ run = following list cursor) :
    IsPageOf list cursor (head ++ run ++ ending)

/-- A page that brings nothing: it is empty or has the cursor only. -/
def IsBarren (cursor : SocketAddressV4) (page : List SocketAddressV4) : Prop :=
  page = [] ∨ page = [cursor] ∧ cursor ≠ sentinel

variable {list servers left page : List SocketAddressV4} {cursor : SocketAddressV4}

theorem following_append {front : List SocketAddressV4} (hnodup : (front ++ cursor :: left).Nodup)
    (hcursor : cursor ≠ sentinel) : following (front ++ cursor :: left) cursor = left := by
  have hfront : front.dropWhile (· ≠ cursor) = [] := by
    apply List.dropWhile_eq_nil_iff.2
    intro a ha
    have hne := (List.nodup_append.1 hnodup).2.2 a ha cursor List.mem_cons_self
    exact decide_eq_true hne
  have hstop : (decide (cursor ≠ cursor)) = false := decide_eq_false (not_not_intro rfl)
  rw [following, if_neg hcursor, List.dropWhile_append, hfront, List.dropWhile_cons, hstop]
  rfl

/-- Behind the last address that has been collected is what has not been collected. -/
theorem following_getLast (hnodup : list.Nodup) (hsentinel : sentinel ∉ list)
    (hlist : list = servers ++ left) :
    following list (servers.getLast?.getD sentinel) = left := by
  subst hlist
  rcases List.eq_nil_or_concat servers with rfl | ⟨front, last, rfl⟩
  · exact if_pos rfl
  · rw [List.concat_eq_append, List.append_assoc] at hnodup hsentinel ⊢
    rw [List.getLast?_append, List.getLast?_singleton]
    refine following_append hnodup fun hlast => hsentinel ?_
    rw [← hlast]
    simp

theorem following_subset : following list cursor ⊆ list := by
  rw [following]
  split
  · exact List.Subset.refl list
  · exact fun a ha => List.dropWhile_subset _ (List.mem_of_mem_tail ha)

/-- An address stands only once in a list, so it does not stand behind itself. -/
theorem notMem_following (hnodup : list.Nodup) (hsentinel : sentinel ∉ list) :
    cursor ∉ following list cursor := by
  rw [following]
  split
  · next hcursor =>
    rw [hcursor]
    exact hsentinel
  · intro hmem
    have hdrop := hnodup.sublist (List.dropWhile_sublist (· ≠ cursor))
    have hhead := List.head?_dropWhile_not (· ≠ cursor) list
    cases hrest : list.dropWhile (· ≠ cursor) with
    | nil =>
      rw [hrest] at hmem
      cases hmem
    | cons a rest =>
      rw [hrest] at hmem hdrop hhead
      have ha : a = cursor := by simpa using hhead
      rw [ha] at hdrop
      exact (List.nodup_cons.1 hdrop).1 hmem

/-- The new addresses are the next ones of a list, all of them if the page is the last one. -/
structure Harvest.IsRun (h : Harvest) (list : List SocketAddressV4) (cursor : SocketAddressV4) :
    Prop where
  found : h.found <+: following list cursor
  last : h.isLast = true → h.found = following list cursor
  more : h.isLast = false → h.found ≠ []

theorem IsPageOf.harvest (hnodup : list.Nodup) (hsentinel : sentinel ∉ list)
    (h : IsPageOf list cursor page) : (Harvest.ofPage cursor page).IsRun list cursor := by
  obtain ⟨head, run, ending, hhead, hrun, hending⟩ := h
  have hno : sentinel ∉ head ++ run := by
    rw [List.mem_append]
    rintro (hmem | hmem)
    · rcases hhead with rfl | ⟨rfl, hcursor⟩
      · cases hmem
      · exact hcursor (List.mem_singleton.1 hmem).symm
    · exact hsentinel (following_subset (hrun.subset hmem))
  have hlisted : (head ++ run ++ ending).takeWhile (· ≠ sentinel) = head ++ run := by
    have hall : ∀ a ∈ head ++ run, decide (a ≠ sentinel) = true := by
      intro a ha
      apply decide_eq_true
      rintro rfl
      exact hno ha
    rw [List.takeWhile_append_of_pos hall]
    rcases hending with ⟨rfl, -⟩ | ⟨rfl, -⟩ <;> simp
  have hfound : (Harvest.ofPage cursor (head ++ run ++ ending)).found = run := by
    simp only [Harvest.ofPage, hlisted]
    rcases hhead with rfl | ⟨rfl, hcursor⟩
    · rw [List.nil_append, if_neg]
      intro hfirst
      have hmem : cursor ∈ run := List.mem_of_head? hfirst
      exact notMem_following hnodup hsentinel (hrun.subset hmem)
    · rw [List.singleton_append, List.head?_cons, if_pos rfl, List.tail_cons]
  have hlast : (Harvest.ofPage cursor (head ++ run ++ ending)).isLast = true ↔ sentinel ∈ ending := by
    rw [Harvest.ofPage, decide_eq_true_eq, List.mem_append]
    exact or_iff_right hno
  have hfront : (Harvest.ofPage cursor (head ++ run ++ ending)).found <+: following list cursor := by
    rw [hfound]
    exact hrun
  rcases hending with ⟨rfl, hne⟩ | ⟨rfl, hall⟩
  · refine ⟨hfront, fun h => absurd (hlast.1 h) List.not_mem_nil, fun _ => ?_⟩
    rw [hfound]
    exact hne
  · refine ⟨hfront, fun _ => hfound.trans hall, fun h => ?_⟩
    rw [hlast.2 (List.mem_singleton.2 rfl)] at h
    cases h

theorem IsBarren.harvest (h : IsBarren cursor page) :
    Harvest.ofPage cursor page = { found := [], isLast := false } := by
  rcases h with rfl | ⟨rfl, hcursor⟩
  · rfl
  · simp [Harvest.ofPage, hcursor, hcursor.symm]

/-! ## What arrives from an honest master server -/

namespace Arrival

/-- There is nothing but delays. -/
def IsQuiet (queue : List Arrival) : Prop := (passDelays queue).2 = []

theorem passDelays_append {queue : List Arrival} (h : IsQuiet queue) (arrivals : List Arrival) :
    (passDelays (queue ++ arrivals)).2 = (passDelays arrivals).2 := by
  rw [IsQuiet] at h
  fun_induction passDelays queue with
  | case1 micros queue elapsed rest hpass ih =>
    rw [hpass] at ih
    exact ih h
  | case2 queue hdelay =>
    simp only at h
    rw [h, List.nil_append]

/-- What comes behind some delays in answer to a request: a page, or nothing that helps, and
nothing comes after it. -/
inductive IsHonest (list : List SocketAddressV4) (cursor : SocketAddressV4) : List Arrival → Prop
  | nothing : IsHonest list cursor []
  | silence {rest : List Arrival} (hrest : IsQuiet rest) : IsHonest list cursor (.silence :: rest)
  | failure {f : Failure} {rest : List Arrival}
    (hf : (ClientError.ofFailure f).isTransport = true) (hrest : IsQuiet rest) :
    IsHonest list cursor (.failure f :: rest)
  | page {page : List SocketAddressV4} {rest : List Arrival}
    (hpage : IsPageOf list cursor page ∨ IsBarren cursor page)
    (hsize : (Page.datagram page).length ≤ maxDatagramSize) (hrest : IsQuiet rest) :
    IsHonest list cursor (.data (Page.datagram page) :: rest)

/-- What a network makes of a request to an honest master server. -/
def IsHonestAnswer (list : List SocketAddressV4) (cursor : SocketAddressV4) :
    Except Failure (List Arrival) → Prop
  | .error f => (ClientError.ofFailure f).isTransport = true
  | .ok arrivals => IsHonest list cursor (passDelays arrivals).2

end Arrival

open Arrival

/-- What is to be got is got, or an attempt fails for now. -/
def MayFail {α : Type} (P : α → Prop) : Except ClientError α → Prop
  | .ok a => P a
  | .error e => e.isTransport = true

namespace DatagramChannel

theorem sendRequest_honest {bytes : List UInt8} (c : DatagramChannel) (n : Network)
    (hfits : bytes.length ≤ requestRoom) (hquiet : IsQuiet c.socket.queue)
    (h : IsHonestAnswer list cursor
      (n.world.react n.history c.socket.transport c.socket.peer bytes)) :
    Ends (sendRequest (Writer.bytes bytes)) (c, n) fun r v =>
      match r with
      | .ok _ => IsHonest list cursor (passDelays v.1.socket.queue).2
      | .error e => e.isTransport = true ∧ IsQuiet v.1.socket.queue := by
  have hroom : bytes.length ≤ (List.replicate requestRoom (0 : UInt8)).length := by
    rwa [List.length_replicate]
  obtain ⟨filled, hencode, hbytes⟩ := Writer.encode_bytes_of_le hroom
  rw [sendRequest, hencode]
  refine ends_bind_of_ok rfl ?_
  rw [hbytes]
  have hget : socketPart.get? c = some c.socket := rfl
  have hsend := Socket.send_eq bytes c.socket n
  refine Ends.on hget ?_
  cases hreact : n.world.react n.history c.socket.transport c.socket.peer bytes with
  | error f =>
    rw [hreact] at h hsend
    exact ends_of_error hsend ⟨h, hquiet⟩
  | ok arrivals =>
    rw [hreact] at h hsend
    refine ends_of_ok hsend ?_
    change IsHonest list cursor (passDelays (c.socket.queue ++ arrivals)).2
    rw [passDelays_append hquiet]
    exact h

theorem receive_honest (timeout : Option Nat) (c : DatagramChannel) (n : Network)
    (h : IsHonest list cursor (passDelays c.socket.queue).2) :
    Ends (receive timeout) (c, n) fun r v => IsQuiet v.1.socket.queue ∧
      MayFail (fun bytes => ∃ page, bytes = Page.datagram page ∧
        (IsPageOf list cursor page ∨ IsBarren cursor page)) r := by
  have hget : socketPart.get? c = some c.socket := rfl
  -- All but a page ends the wait with an error, and leaves what comes behind it.
  have hfails : ∀ e queue, (∃ m, Socket.peek (n.settings.wait timeout c.timeout) (c.socket, n) =
      .error e ({ c.socket with queue }, m)) → e.isTransport = true → IsQuiet queue →
      Ends (receive timeout) (c, n) fun r v => IsQuiet v.1.socket.queue ∧
        MayFail (fun bytes => ∃ page, bytes = Page.datagram page ∧
          (IsPageOf list cursor page ∨ IsBarren cursor page)) r := by
    rintro e queue ⟨m, hpeek⟩ he hquiet
    refine ends_state_bind (ends_network_bind ?_)
    exact ends_of_error (bind_of_error (on_of_error hget hpeek) _) ⟨hquiet, he⟩
  generalize hqueue : (passDelays c.socket.queue).2 = arrived at h
  cases h with
  | nothing =>
    refine hfails .timeout [] ?_ rfl rfl
    simp only [Socket.peek, hqueue]
    exact ⟨_, rfl⟩
  | silence hrest =>
    refine hfails .timeout _ ?_ rfl hrest
    simp only [Socket.peek, hqueue]
    exact ⟨_, rfl⟩
  | failure hf hrest =>
    refine hfails _ _ ?_ hf hrest
    simp only [Socket.peek, hqueue]
    exact ⟨_, rfl⟩
  | @page page rest hpage hsize hrest =>
    have hpeek : Socket.peek (n.settings.wait timeout c.timeout) (c.socket, n) =
        .ok (some (Page.datagram page))
          ({ c.socket with queue := .data (Page.datagram page) :: rest },
            n.pass (passDelays c.socket.queue).1) := by
      simp only [Socket.peek, hqueue]
    refine ends_state_bind (ends_network_bind (ends_bind_of_ok (on_of_ok hget hpeek) ?_))
    have hwhole := (c.buffer.take_fit (Page.datagram page)).trans (List.take_of_length_le hsize)
    exact ⟨hrest, page, hwhole, hpage⟩

end DatagramChannel

namespace ListingChannel

attribute [local irreducible] Dialog.Ends

theorem ask_honest (q : ListingQuery) (c : ListingChannel) (n : Network)
    (hfits : q.bytes.length ≤ requestRoom) (hquiet : IsQuiet c.socket.queue)
    (h : IsHonestAnswer list cursor
      (n.world.react n.history c.socket.transport c.socket.peer q.bytes)) :
    Ends (ask q) (c, n) fun r v => IsQuiet v.1.socket.queue ∧
      MayFail (fun page => IsPageOf list cursor page ∨ IsBarren cursor page) r := by
  have hget : ∀ c : ListingChannel, channelPart.get? c = some c.channel := fun _ => rfl
  have hsend : Ends (send q) (c, n) fun r v =>
      match r with
      | .ok _ => IsHonest list cursor (passDelays v.1.socket.queue).2
      | .error e => e.isTransport = true ∧ IsQuiet v.1.socket.queue := by
    have hrequest := DatagramChannel.sendRequest_honest c.channel n hfits hquiet h
    rw [← ListingQuery.write_eq] at hrequest
    exact Ends.on (hget c) hrequest
  refine hsend.bind ?_ fun e v hv => hv.symm
  intro _ v harrived
  have hreceive : Ends (.on channelPart (DatagramChannel.receive none)) v fun r u =>
      IsQuiet u.1.socket.queue ∧ MayFail (fun bytes => ∃ page, bytes = Page.datagram page ∧
        (IsPageOf list cursor page ∨ IsBarren cursor page)) r :=
    Ends.on (hget v.1) (DatagramChannel.receive_honest none v.1.channel v.2 harrived)
  refine hreceive.bind ?_ fun e u hu => hu
  rintro bytes u ⟨hquiet', page, rfl, hpage⟩
  rw [readPage_datagram]
  exact ends_pure ⟨hquiet', hpage⟩

end ListingChannel

/-! ## Attempts with honest master servers -/

namespace MasterServer

/-- From now on all addresses of a client are those of honest master servers with the same list,
requests have room, and nothing waits to be received. If the client has no socket, a new one to the
active address is opened, or the failure may pass. -/
structure HonestMasters (list : List SocketAddressV4) (region : Region) (filter : String)
    (w : MasterServer × Network) : Prop where
  nodup : list.Nodup
  sentinel_notMem : sentinel ∉ list
  answers : ∀ history, w.2.history <:+ history → ∀ peer ∈ w.1.endpoint.addresses, ∀ cursor,
    cursor = sentinel ∨ cursor ∈ list → IsHonestAnswer list cursor
      (w.2.world.react history .udp peer (ListingQuery.bytes ⟨region, cursor, filter⟩))
  fits : ∀ cursor, cursor = sentinel ∨ cursor ∈ list →
    (ListingQuery.bytes ⟨region, cursor, filter⟩).length ≤ requestRoom
  quiet : ∀ c, w.1.connection.owner.channel = some c → IsQuiet c.socket.queue
  opens : w.1.connection.owner.channel = none → ∀ history, w.2.history <:+ history → ∀ f,
    w.2.world.connect history .udp w.1.endpoint.address = some f →
      (ClientError.ofFailure f).isTransport = true

/-- Time has passed in the world around a client. -/
def Passes (w v : MasterServer × Network) : Prop :=
  v.2.world = w.2.world ∧ w.2.history <:+ v.2.history ∧
    v.1.endpoint.addresses = w.1.endpoint.addresses

variable {region : Region} {filter : String} {w v : MasterServer × Network}

theorem HonestMasters.of_passes (h : HonestMasters list region filter w) (hpasses : Passes w v)
    (hquiet : ∀ c, v.1.connection.owner.channel = some c → IsQuiet c.socket.queue)
    (hopens : v.1.connection.owner.channel = none →
      w.1.connection.owner.channel = none ∧ v.1.endpoint = w.1.endpoint) :
    HonestMasters list region filter v where
  nodup := h.nodup
  sentinel_notMem := h.sentinel_notMem
  answers := by
    obtain ⟨hworld, hhistory, haddresses⟩ := hpasses
    rw [hworld, haddresses]
    exact fun history hlater => h.answers history (hhistory.trans hlater)
  fits := h.fits
  quiet := hquiet
  opens := by
    intro hnone history hlater f
    obtain ⟨hchannel, hendpoint⟩ := hopens hnone
    obtain ⟨hworld, hhistory, -⟩ := hpasses
    rw [hworld, hendpoint]
    exact h.opens hchannel history (hhistory.trans hlater) f

theorem Passes.refl (w : MasterServer × Network) : Passes w w := ⟨rfl, List.suffix_refl _, rfl⟩

theorem Passes.trans {u : MasterServer × Network} (h : Passes u v) (h' : Passes v w) : Passes u w :=
  ⟨h'.1.trans h.1, h.2.1.trans h'.2.1, h'.2.2.trans h.2.2⟩

theorem openUp_honest (h : HonestMasters list region filter w) :
    Ends openUp w fun r v => HonestMasters list region filter v ∧ Passes w v ∧
      MayFail (fun _ => v.1.connection.owner.channel.isSome) r := by
  obtain ⟨s, n⟩ := w
  refine ends_state_bind ?_
  cases hchannel : s.connection.owner.channel with
  | some c =>
    simp only [Option.isSome_some, if_true]
    exact ends_pure ⟨h, .refl _, by rw [hchannel]; rfl⟩
  | none =>
    simp only [Option.isSome_none, Bool.false_eq_true, if_false]
    have hget : connectionPart.get? s = some s.connection := rfl
    refine Ends.on hget ((MasterSession.reconnect_ends s.connection n).imp ?_)
    rintro (e | _) v ⟨hendpoint, hworld, hv⟩
    · obtain ⟨hnone, f, hconnect, rfl, hhistory⟩ := hv
      have hpasses : Passes (s, n) (connectionPart.put v.1 s, v.2) :=
        ⟨hworld, hhistory ▸ List.suffix_cons _ _, congrArg Endpoint.addresses hendpoint⟩
      refine ⟨h.of_passes hpasses ?_ fun _ => ⟨hchannel, hendpoint⟩, hpasses, ?_⟩
      · intro c hc
        have hsame := hnone.symm.trans hc
        cases hsame
      · exact h.opens hchannel n.history (List.suffix_refl _) f hconnect
    · obtain ⟨⟨timeout, hfresh⟩, hhistory⟩ := hv
      have hpasses : Passes (s, n) (connectionPart.put v.1 s, v.2) :=
        ⟨hworld, hhistory ▸ List.suffix_cons _ _, congrArg Endpoint.addresses hendpoint⟩
      refine ⟨h.of_passes hpasses ?_ ?_, hpasses, ?_⟩
      · intro c hc
        have hsame := hfresh.symm.trans hc
        cases hsame
        rfl
      · intro hnone
        have hsame := hfresh.symm.trans hnone
        cases hsame
      · exact Option.isSome_iff_exists.2 ⟨_, hfresh⟩

attribute [local irreducible] Dialog.Ends in
theorem askPage_honest (hbound : w.1.IsBound) (h : HonestMasters list region filter w)
    (hopen : w.1.connection.owner.channel.isSome) (hcursor : cursor = sentinel ∨ cursor ∈ list) :
    Ends (askPage region filter cursor) w fun r v => HonestMasters list region filter v ∧
      Passes w v ∧ MayFail (fun page => IsPageOf list cursor page ∨ IsBarren cursor page) r := by
  obtain ⟨s, n⟩ := w
  obtain ⟨c, hc⟩ := Option.isSome_iff_exists.1 hopen
  obtain ⟨htransport, hpeer⟩ := hbound c hc
  have hget : channelPart.get? s = some c := hc
  have hanswer := h.answers n.history (List.suffix_refl _) s.endpoint.address
    (List.get_mem _ _) cursor hcursor
  rw [← htransport, ← hpeer] at hanswer
  have hask := ListingChannel.ask_honest ⟨region, cursor, filter⟩ c n (h.fits cursor hcursor)
    (h.quiet c hc) hanswer
  have hlater := ListingChannel.laterOf_ask ⟨region, cursor, filter⟩ (c, n)
  refine Ends.on hget ((Ends.and hlater hask).imp ?_)
  rintro r v ⟨hlater, hquiet, hr⟩
  have hpasses : Passes (s, n) (channelPart.put v.1 s, v.2) := by
    obtain ⟨new, hnew, -⟩ := hlater.history
    exact ⟨hlater.world, ⟨new, hnew.symm⟩, rfl⟩
  refine ⟨h.of_passes hpasses ?_ nofun, hpasses, hr⟩
  rintro c' ⟨⟩
  exact hquiet

/-- An attempt fails in passing, or it gets a page. -/
theorem fetchPage_honest (hbound : w.1.IsBound) (h : HonestMasters list region filter w)
    (hcursor : cursor = sentinel ∨ cursor ∈ list) :
    Ends (fetchPage region filter cursor) w fun r v => HonestMasters list region filter v ∧
      Passes w v ∧ MayFail (fun harvest : Harvest => harvest.IsRun list cursor ∨
        harvest = { found := [], isLast := false }) r := by
  rw [fetchPage_eq]
  refine ((openUp_ends hbound).and (openUp_honest h)).bind ?_ ?_
  · rintro _ u ⟨⟨-, hbound', -⟩, h', hpasses, hopen⟩
    refine Ends.map ((askPage_honest hbound' h' hopen hcursor).imp ?_)
    rintro (e | page) v ⟨h'', hpasses', hv⟩
    · exact ⟨h'', hpasses.trans hpasses', hv⟩
    · refine ⟨h'', hpasses.trans hpasses', ?_⟩
      exact hv.imp (·.harvest h.nodup h.sentinel_notMem) (·.harvest)
  · rintro e u ⟨-, h', hpasses, he⟩
    exact ⟨h', hpasses, he⟩

theorem HonestMasters.logLine {s : MasterServer} {n : Network}
    (h : HonestMasters list region filter (s, n)) (level : LogLevel) (text : String) :
    HonestMasters list region filter (s, n.logLine level text) :=
  h.of_passes ⟨rfl, List.suffix_refl _, rfl⟩ h.quiet fun hnone => ⟨hnone, rfl⟩

variable {force : Bool} {r : Nat} {p : Progress}

/-- After a failed attempt a client is ready for the next one, unless it gives up or the socket to
the next address is not opened. -/
theorem afterFailure_honest (s : MasterServer) (n : Network)
    (h : HonestMasters list region filter (s, n)) :
    Ends (afterFailure force r p) (s, n) fun res v => Passes (s, n) v ∧
      match res with
      | .ok _ => HonestMasters list region filter v
      | .error e => e.IsPlain → ∃ f history, n.history <:+ history ∧
          v.2.history = .connected .udp s.endpoint.next.address (some f) :: history := by
  refine ends_afterFailure (fun line _ => ?_) (fun _ _ => ?_) fun _ _ => ?_
  · exact ⟨⟨rfl, List.suffix_refl _, rfl⟩, h.logLine _ _⟩
  · exact ⟨.refl _, fun hplain => absurd rfl (hplain _ _)⟩
  · refine (rotate_ends s n).imp ?_
    rintro back v ⟨hnext, -, hworld, hback⟩
    have haddresses : v.1.endpoint.addresses = s.endpoint.addresses := by
      rw [hnext, Endpoint.addresses_next]
    rcases back with e | back
    · obtain ⟨f, rfl, -, hhistory⟩ := hback
      have hpasses : Passes (s, n) v := ⟨hworld, hhistory ▸ List.suffix_cons _ _, haddresses⟩
      exact ⟨hpasses, fun _ => ⟨f, n.history, List.suffix_refl _, hhistory⟩⟩
    · obtain ⟨-, ⟨timeout, hfresh⟩, hhistory⟩ := hback
      have hpasses : Passes (s, n) v := ⟨hworld, hhistory ▸ List.suffix_cons _ _, haddresses⟩
      cases back with
      | true => exact ⟨hpasses, fun hplain => absurd rfl (hplain _ _)⟩
      | false =>
        refine ⟨hpasses, h.of_passes hpasses ?_ ?_⟩
        · intro c hc
          rw [hfresh] at hc
          cases hc
          rfl
        · intro hnone
          rw [hfresh] at hnone
          cases hnone

theorem attemptAt_honest (hbound : w.1.IsBound) (h : HonestMasters list region filter w)
    (hcursor : cursor = sentinel ∨ cursor ∈ list)
    (hno : (attemptAt region filter cursor w).failed = false) :
    (attemptAt region filter cursor w).harvest.IsRun list cursor := by
  have hends := fetchPage_ends region filter cursor hbound
  have hhonest := fetchPage_honest hbound h hcursor
  cases hfetch : fetchPage region filter cursor w with
  | ok harvest v =>
    obtain ⟨-, -, page, hanswer, hpage, -⟩ := hends.of_eq_ok hfetch
    obtain ⟨-, -, hharvest⟩ := hhonest.of_eq_ok hfetch
    have hsame := (Attempt.harvest_of_page hanswer).trans hpage.symm
    rw [Attempt.failed_of_page hanswer, hsame] at hno
    rw [hsame]
    rcases hharvest with hrun | rfl
    · exact hrun
    · cases hno
  | error e v =>
    obtain ⟨-, -, -, hanswer, -⟩ := hends.of_eq_error hfetch
    obtain ⟨-, -, he⟩ := hhonest.of_eq_error hfetch
    have hfailed := (Attempt.failed_of_error hanswer).trans he
    cases hno.symm.trans hfailed

theorem step_honest (hbound : w.1.IsBound) (h : HonestMasters list region filter w)
    (hcursor : p.cursor = sentinel ∨ p.cursor ∈ list) :
    Ends (step region filter force r p) w fun res v => Passes w v ∧
      match res with
      | .ok _ => HonestMasters list region filter v
      | .error e => e.IsPlain → ∃ f history, w.2.history <:+ history ∧
          v.2.history = .connected .udp w.1.endpoint.next.address (some f) :: history := by
  have hfetch := (fetchPage_ends region filter p.cursor hbound).and
    (fetchPage_honest hbound h hcursor)
  -- The attempt leaves the client at its address, and so does a line in the log.
  have hafter : ∀ (v : MasterServer × Network) line, v.1.endpoint = w.1.endpoint →
      HonestMasters list region filter v → Passes w v →
      Ends (afterFailure force r p) (v.1, v.2.logLine .debug line) fun res u => Passes w u ∧
        match res with
        | .ok _ => HonestMasters list region filter u
        | .error e => e.IsPlain → ∃ f history, w.2.history <:+ history ∧
            u.2.history = .connected .udp w.1.endpoint.next.address (some f) :: history := by
    intro v line hendpoint h' hpasses
    refine (afterFailure_honest v.1 _ (h'.logLine .debug line)).imp ?_
    rintro (e | next) u ⟨hpasses', hu⟩
    · refine ⟨hpasses.trans hpasses', fun hplain => ?_⟩
      obtain ⟨f, history, hlater, hhistory⟩ := hu hplain
      rw [hendpoint] at hhistory
      exact ⟨f, history, hpasses.2.1.trans hlater, hhistory⟩
    · exact ⟨hpasses.trans hpasses', hu⟩
  refine ends_step hfetch ?_ ?_ ?_ ?_ ?_
  · rintro harvest v line ⟨-, h', hpasses, -⟩ -
    exact ⟨hpasses, h'.logLine _ _⟩
  · rintro harvest v ⟨-, h', hpasses, -⟩ - -
    exact ⟨hpasses, h'⟩
  · rintro harvest v line ⟨⟨hendpoint, -⟩, h', hpasses, -⟩ - -
    exact hafter v line hendpoint h' hpasses
  · rintro e v line ⟨⟨hendpoint, -⟩, h', hpasses, -⟩ -
    exact hafter v line hendpoint h' hpasses
  · rintro e v ⟨-, -, -, he⟩ hno
    cases hno.symm.trans he

/-! ## The whole list -/

/-- No socket to an address behind the active one, up to some other address, fails to open. -/
def OpensUpTo (k : Nat) (e : Endpoint) (events : List Event) : Prop :=
  ∀ j peer f, e.active < j → j ≤ k → e.addresses[j]? = some peer →
    .connected .udp peer (some f) ∉ events

variable {start : Endpoint} {as : List Attempt} {k limit : Nat}

/-- A discovery has collected the front of the list, and it is not beyond the address at which it
will not give up. -/
structure Underway (list : List SocketAddressV4) (region : Region) (filter : String) (force : Bool)
    (r k : Nat) (start : Endpoint) (as : List Attempt) (p : Progress)
    (w : MasterServer × Network) : Prop where
  bound : w.1.IsBound
  honest : HonestMasters list region filter w
  came : CameTo r force start as p w.1.endpoint
  front : p.servers <+: list
  ahead : w.1.endpoint.active = k ∨
    force = true ∧ w.1.endpoint.active < k ∧ k < w.1.endpoint.addresses.length

/-- A bound for the attempts left: each brings a server, or it is one of the last `r` in a row. -/
def attemptsLeft (list : List SocketAddressV4) (r : Nat) (p : Progress) (e : Endpoint) : Nat :=
  r * (list.length - p.servers.length + (e.addresses.length - 1 - e.active)) + (r - p.failed)

theorem attemptsLeft_lt {p q : Progress} {e e' : Endpoint} (hfresh : q.failed = 0)
    (hlt : p.failed < r)
    (hless : list.length - q.servers.length + (e'.addresses.length - 1 - e'.active) <
      list.length - p.servers.length + (e.addresses.length - 1 - e.active)) :
    attemptsLeft list r q e' < attemptsLeft list r p e := by
  have hmul := Nat.mul_le_mul_left r (Nat.succ_le_of_lt hless)
  rw [Nat.mul_succ] at hmul
  rw [attemptsLeft, attemptsLeft, hfresh]
  omega

namespace Underway

theorem following_cursor (h : Underway list region filter force r k start as p w)
    (hlist : list = p.servers ++ left) : following list p.cursor = left := by
  rw [h.came.last_eq, lastCollected, ← h.came.servers_eq]
  exact following_getLast h.honest.nodup h.honest.sentinel_notMem hlist

theorem cursor_mem (h : Underway list region filter force r k start as p w) :
    p.cursor = sentinel ∨ p.cursor ∈ list := by
  have hcursor : p.cursor = p.servers.getLast?.getD sentinel := by
    rw [h.came.last_eq, lastCollected, h.came.servers_eq]
  rw [hcursor]
  cases hlast : p.servers.getLast? with
  | none => exact .inl rfl
  | some a => exact .inr (h.front.subset (List.mem_of_getLast? hlast))

theorem moves (h : Underway list region filter force r k start as p w) {a : Attempt}
    (ha : a.endpoint = w.1.endpoint) (hsteady : failedInARow k (as ++ [a]) < r)
    (hfailed : a.failed = true) (hle : r ≤ p.failed + 1) :
    force = true ∧ a.endpoint.next.active = a.endpoint.active + 1 ∧ a.endpoint.active < k ∧
      k < a.endpoint.addresses.length := by
  rw [ha]
  rcases h.ahead with hactive | ⟨hforce, hlt, hk⟩
  · -- This is the address at which a discovery does not fail so often.
    have hcount := h.came.failed_eq
    rw [failedInARow_snoc, hfailed, ha, ← hactive, beq_self_eq_true, ← hcount] at hsteady
    simp only [Bool.and_self, if_true] at hsteady
    omega
  · refine ⟨hforce, ?_, hlt, hk⟩
    rw [Endpoint.active_next]
    exact Nat.mod_eq_of_lt (Nat.lt_of_le_of_lt hlt hk)

theorem append_found (h : Underway list region filter force r k start as p w) {a : Attempt}
    (ha : a.harvest.IsRun list p.cursor) :
    p.servers ++ a.harvest.found <+: list ∧
      (a.harvest.isLast = true → p.servers ++ a.harvest.found = list) := by
  obtain ⟨left, hlist⟩ := h.front
  have hfollowing := h.following_cursor hlist.symm
  constructor
  · rw [← hlist, List.prefix_append_right_inj, ← hfollowing]
    exact ha.found
  · intro hlast
    rw [ha.last hlast, hfollowing, hlist]

/-- After an attempt a discovery has the whole list, or it is underway with fewer attempts left,
unless a socket fails to open. -/
theorem step (h : Underway list region filter force r k start as p w)
    (hsteady : failedInARow k (as ++ [attemptAt region filter p.cursor w]) < r) :
    Ends (step region filter force r p) w fun res v => Passes w v ∧
      match res with
      | .ok (.finish servers) => servers = list
      | .ok (.resume q) =>
        Underway list region filter force r k start (as ++ [attemptAt region filter p.cursor w]) q
            v ∧
          w.1.endpoint.active ≤ v.1.endpoint.active ∧
          attemptsLeft list r q v.1.endpoint < attemptsLeft list r p w.1.endpoint
      | .error _ => ∃ new, v.2.history = new ++ w.2.history ∧ ¬OpensUpTo k w.1.endpoint new := by
  have hattempt := attemptAt_honest h.bound h.honest h.cursor_mem
  refine ((step_ends region filter force r p h.bound).and
    (step_honest h.bound h.honest h.cursor_mem)).imp ?_
  rintro res v ⟨⟨hleads, hbound, -⟩, hpasses, hhonest⟩
  refine ⟨hpasses, ?_⟩
  have hsame : (attemptAt region filter p.cursor w).endpoint = w.1.endpoint := rfl
  have hcursor : (attemptAt region filter p.cursor w).cursor = p.cursor := rfl
  generalize attemptAt region filter p.cursor w = a at *
  have hcame := h.came
  rw [← hsame] at hcame
  have hahead := h.ahead
  obtain ⟨e, hend⟩ : ∃ e, v.1.endpoint = e := ⟨_, rfl⟩
  rw [hend] at hleads
  have hcame' : ∀ q, res = .ok (.resume q) → CameTo r force start (as ++ [a]) q v.1.endpoint := by
    rintro q rfl
    rw [hend]
    exact hcame.step hcursor hleads
  cases hleads with
  | last hlast =>
    have hrun := hattempt (Attempt.failed_of_isLast hlast)
    exact (h.append_found hrun).2 hlast
  | more hmore hnew =>
    have hrun := hattempt (Attempt.failed_of_found hnew)
    have hfront := (h.append_found hrun).1
    rw [hsame] at hend
    refine ⟨⟨hbound, hhonest, hcame' _ rfl, hfront, ?_⟩, ?_, ?_⟩
    · rw [hend]
      exact hahead
    · rw [hend]
    · rw [hend]
      apply attemptsLeft_lt rfl hcame.failed_lt
      have hlength := hfront.length_le
      have hpos := List.length_pos_iff.2 hnew
      simp only [Progress.collect, List.length_append] at hlength ⊢
      omega
  | again hfailed hlt =>
    rw [hsame] at hend
    refine ⟨⟨hbound, hhonest, hcame' _ rfl, h.front, ?_⟩, ?_, ?_⟩
    · rw [hend]
      exact hahead
    · rw [hend]
    · rw [hend]
      simp only [attemptsLeft, Progress.fail]
      omega
  | elsewhere hfailed hle hforce hnext =>
    obtain ⟨-, hactive, hlt, hk⟩ := h.moves hsame hsteady hfailed hle
    rw [hsame] at hend hactive hlt hk
    refine ⟨⟨hbound, hhonest, hcame' _ rfl, h.front, ?_⟩, ?_, ?_⟩
    · rw [hend, hactive, Endpoint.addresses_next]
      exact (Nat.eq_or_lt_of_le hlt).imp_right fun hbefore => ⟨hforce, hbefore, hk⟩
    · rw [hend, hactive]
      omega
    · rw [hend]
      apply attemptsLeft_lt rfl hcame.failed_lt
      simp only [Progress.fail, Progress.moveOn, Endpoint.addresses_next, hactive]
      omega
  | exhausted hfailed hle hgone hstay =>
    -- There is an address to go to, and it is not the first one.
    obtain ⟨hforce, hactive, -, -⟩ := h.moves hsame hsteady hfailed hle
    have hfirst := hgone hforce
    omega
  | unopened f hfailed hle hforce =>
    obtain ⟨-, hactive, hlt, hk⟩ := h.moves hsame hsteady hfailed hle
    obtain ⟨f, history, ⟨new, rfl⟩, hhistory⟩ := hhonest (ClientError.isPlain_ofFailure f)
    refine ⟨_ :: new, hhistory, fun hopens => ?_⟩
    rw [hsame] at hactive hlt hk
    refine hopens w.1.endpoint.next.active w.1.endpoint.next.address f ?_ ?_ ?_ List.mem_cons_self
    · omega
    · omega
    · exact List.getElem?_eq_getElem w.1.endpoint.next.active_lt
  | broken hplain hno hanswer =>
    -- An honest page that is not the last one has servers.
    have hrun := hattempt ((Attempt.failed_of_error hanswer).trans hno)
    have hmore := hrun.more
    rw [Attempt.harvest_of_error hanswer] at hmore
    exact absurd rfl (hmore rfl)

theorem run (limit : Nat) {as : List Attempt} {p : Progress} {w : MasterServer × Network}
    (h : Underway list region filter force r k start as p w)
    (hsteady : ∀ made, made <+: as ++ attemptsFrom region filter force r limit p w →
      failedInARow k made < r)
    (hlimit : attemptsLeft list r p w.1.endpoint ≤ limit) :
    Ends (resume region filter force r limit p) w fun result v =>
      ∃ new, v.2.history = new ++ w.2.history ∧
        (OpensUpTo k w.1.endpoint new → result = .ok list) := by
  -- Every attempt lowers the bound, so the limit is not reached.
  induction limit generalizing as p w with
  | zero =>
    have hlt := h.came.failed_lt
    rw [attemptsLeft] at hlimit
    omega
  | succ limit ih =>
    have hfirst : failedInARow k (as ++ [attemptAt region filter p.cursor w]) < r := by
      refine hsteady _ ((List.prefix_append_right_inj as).2 ?_)
      rw [attemptsFrom]
      exact List.prefix_append [_] _
    have hends := h.step hfirst
    cases hstep : MasterServer.step region filter force r p w with
    | error e v =>
      obtain ⟨-, new, hnew, hno⟩ := hends.of_eq_error hstep
      exact ends_of_error (bind_of_error hstep _) ⟨new, hnew, fun hopens => absurd hopens hno⟩
    | ok next v =>
      obtain ⟨⟨-, ⟨new, hnew⟩, haddresses⟩, hnext⟩ := hends.of_eq_ok hstep
      refine ends_bind_of_ok hstep ?_
      cases next with
      | finish servers => exact ends_pure ⟨new, hnew.symm, fun _ => congrArg _ hnext⟩
      | resume q =>
        obtain ⟨hunderway, hactive, hless⟩ := hnext
        have hattempts : as ++ attemptsFrom region filter force r (limit + 1) p w =
            as ++ [attemptAt region filter p.cursor w] ++
              attemptsFrom region filter force r limit q v := by
          rw [attemptsFrom, hstep, List.append_assoc, List.singleton_append]
        rw [hattempts] at hsteady
        refine (ih hunderway hsteady (by omega)).imp ?_
        rintro result u ⟨later, hlater, hall⟩
        refine ⟨later ++ new, ?_, fun hopens => hall ?_⟩
        · rw [hlater, ← hnew, List.append_assoc]
        · intro j peer f hj hjk hpeer hmem
          rw [haddresses] at hpeer
          exact hopens j peer f (by omega) hjk hpeer (List.mem_append_left new hmem)

end Underway

/-- Among honest master servers a discovery ends with their whole list if, at the active address or
at one that rotations get to, fewer attempts in a row fail than a client makes. -/
theorem getServers_of_honest {w : MasterServer × Network} (hw : Reached w)
    (h : HonestMasters list region filter w)
    (hk : w.1.endpoint.active = k ∨
      force = true ∧ w.1.endpoint.active < k ∧ k < w.1.endpoint.addresses.length)
    (hsteady : ∀ made, made <+: attemptsOf limit region filter force w →
      failedInARow k made < w.1.attempts w.2.settings)
    (hlimit : w.1.attempts w.2.settings *
      (list.length + (w.1.endpoint.addresses.length - w.1.endpoint.active)) ≤ limit) :
    ∃ result v new, Dialog.outcome (getServers limit region filter force) w = .ok result v ∧
      v.2.history = new ++ w.2.history ∧ (OpensUpTo k w.1.endpoint new → result = .ok list) := by
  have hr : 0 < w.1.attempts w.2.settings := hsteady [] List.nil_prefix
  have hunderway : Underway list region filter force (w.1.attempts w.2.settings) k w.1.endpoint []
      {} w := ⟨hw.isBound, h, .refl hr, List.nil_prefix, hk⟩
  have hleft : attemptsLeft list (w.1.attempts w.2.settings) {} w.1.endpoint ≤ limit := by
    have hpos := w.1.endpoint.active_lt
    have hsplit : list.length + (w.1.endpoint.addresses.length - w.1.endpoint.active) =
        list.length + (w.1.endpoint.addresses.length - 1 - w.1.endpoint.active) + 1 := by omega
    rw [hsplit, Nat.mul_succ] at hlimit
    exact hlimit
  have hends : Ends (getServers limit region filter force) w _ :=
    ends_state_bind (ends_network_bind (hunderway.run limit hsteady hleft))
  obtain ⟨result, v, hrun, new, hnew, hall⟩ := hends.exists_outcome
  exact ⟨result, v, new, hrun, hnew, hall⟩

section Fading

def fadingServers : List SocketAddressV4 := [fadingServer 1, fadingServer 2, fadingServer 3]

theorem fadingPages_isPageOf {page : List SocketAddressV4} (h : (cursor, page) ∈ fadingPages) :
    IsPageOf fadingServers cursor page := by
  simp only [fadingPages, List.mem_cons, Prod.mk.injEq, List.not_mem_nil, or_false] at h
  rcases h with ⟨rfl, rfl⟩ | ⟨rfl, rfl⟩ | ⟨rfl, rfl⟩ | ⟨rfl, rfl⟩
  · exact .mk [] [fadingServer 1] [] (.inl rfl) (by decide) (.inl ⟨rfl, nofun⟩)
  · exact .mk [fadingServer 1] [fadingServer 2] [] (.inr (by decide)) (by decide)
      (.inl ⟨rfl, nofun⟩)
  · exact .mk [] [fadingServer 3] [] (.inl rfl) (by decide) (.inl ⟨rfl, nofun⟩)
  · exact .mk [] [] [sentinel] (.inl rfl) (by decide) (.inr (by decide))

theorem fadingPages_find : ∀ entry ∈ fadingPages, fadingPages.find? (fun (cursor, _) =>
    ListingQuery.bytes ⟨.world, cursor, ""⟩ = ListingQuery.bytes ⟨.world, entry.1, ""⟩) =
      some entry := by decide +kernel

theorem fadingPages_fit : ∀ entry ∈ fadingPages,
    (ListingQuery.bytes ⟨.world, entry.1, ""⟩).length ≤ requestRoom ∧
      (Page.datagram entry.2).length ≤ maxDatagramSize := by decide +kernel

theorem exists_mem_fadingPages (h : cursor = sentinel ∨ cursor ∈ fadingServers) :
    ∃ page, (cursor, page) ∈ fadingPages := by
  have hall : ∀ cursor ∈ sentinel :: fadingServers, ∃ entry ∈ fadingPages, entry.1 = cursor := by
    decide
  obtain ⟨⟨_, page⟩, hpage, rfl⟩ := hall cursor (List.mem_cons.2 h)
  exact ⟨page, hpage⟩

/-- Either master server answers with the page behind the cursor or not at all. -/
theorem fadingWorld_react (history : List Event) (peer : SocketAddress)
    (h : (cursor, page) ∈ fadingPages) :
    fadingWorld.react history .udp peer (ListingQuery.bytes ⟨.world, cursor, ""⟩) =
      .ok (if peer = fadingAddress 1 ∧ cursor ≠ sentinel then []
        else [.data (Page.datagram page)]) := by
  simp only [fadingWorld]
  rw [fadingPages_find (cursor, page) h]

theorem fadingWorld_honest (history : List Event) (peer : SocketAddress)
    (h : (cursor, page) ∈ fadingPages) : IsHonestAnswer fadingServers cursor
      (fadingWorld.react history .udp peer (ListingQuery.bytes ⟨.world, cursor, ""⟩)) := by
  rw [fadingWorld_react history peer h]
  split
  · exact .nothing
  · exact .page (.inl (fadingPages_isPageOf h)) (fadingPages_fit _ h).2 rfl

attribute [local irreducible] Arrival.IsHonestAnswer in
theorem fadingStart_honest : HonestMasters fadingServers .world "" fadingStart where
  nodup := by decide
  sentinel_notMem := by decide
  answers history _ peer _ cursor hcursor := by
    have hworld : fadingStart.2.world = fadingWorld := rfl
    obtain ⟨page, hpage⟩ := exists_mem_fadingPages hcursor
    rw [hworld]
    exact fadingWorld_honest history peer hpage
  fits cursor hcursor := by
    obtain ⟨page, hpage⟩ := exists_mem_fadingPages hcursor
    exact (fadingPages_fit _ hpage).1
  quiet c hc := by
    cases hc
    rfl
  opens hnone := by cases hnone

/-- The second master server gives the servers that the first one has kept back. -/
theorem getServers_of_honest_fading : ∃ v,
    Dialog.outcome (getServers 10 .world "" true) fadingStart = .ok (.ok fadingServers) v := by
  have hk : fadingStart.1.endpoint.active = 1 ∨ true = true ∧
      fadingStart.1.endpoint.active < 1 ∧ 1 < fadingStart.1.endpoint.addresses.length := by decide
  have hinits : ∀ made ∈ (attemptsOf 10 .world "" true fadingStart).inits,
      failedInARow 1 made < fadingStart.1.attempts fadingStart.2.settings := by decide +kernel
  have hsteady : ∀ made, made <+: attemptsOf 10 .world "" true fadingStart →
      failedInARow 1 made < fadingStart.1.attempts fadingStart.2.settings :=
    fun made hmade => hinits made ((List.mem_inits _ _).2 hmade)
  have hlimit : fadingStart.1.attempts fadingStart.2.settings *
      (fadingServers.length + (fadingStart.1.endpoint.addresses.length -
        fadingStart.1.endpoint.active)) ≤ 10 := by decide
  obtain ⟨result, v, new, hrun, hnew, hall⟩ :=
    getServers_of_honest fadingStart_reached fadingStart_honest hk hsteady hlimit
  refine ⟨v, ?_⟩
  rw [← hall ?_, hrun]
  have hopens : (match Dialog.outcome (getServers 10 .world "" true) fadingStart with
      | .ok _ v => v.2.history.all fun
        | .connected _ _ failed => failed.isNone
        | _ => true
      | .error _ _ => false) = true := by decide +kernel
  rw [hrun] at hopens
  rintro j peer f - - - hmem
  have hmem' : .connected .udp peer (some f) ∈ v.2.history := by
    rw [hnew]
    exact List.mem_append_left _ hmem
  have hnone := List.all_eq_true.1 hopens _ hmem'
  cases hnone

end Fading

end MasterServer

end GameQuery
