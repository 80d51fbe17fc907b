import GameQuery.Proofs.DiscoveryBudget

namespace GameQuery

/-!
# Discoveries in vain

A forced discovery that is refused every request makes as many attempts as a page is asked for at
each address from the active one on, and all of them fail. The counter of failed attempts wraps, so
what such a discovery says of them need not be how many there were.
-/

open Dialog

/-- All sockets to some addresses can be opened, and everything sent over them is refused. -/
structure World.Refuses (world : World) (addresses : List SocketAddress) : Prop where
  opens : world.Opens addresses
  refuses : ∀ history peer bytes, world.react history .udp peer bytes = .error .refused

theorem DatagramChannel.sendRequest_refused {bytes : List UInt8} (c : DatagramChannel) (n : Network)
    (hroom : bytes.length ≤ requestRoom)
    (hreact : n.world.react n.history c.socket.transport c.socket.peer bytes = .error .refused) :
    Ends (sendRequest (Writer.bytes bytes)) (c, n) fun res _ => res = .error .refused := by
  have hlength : bytes.length ≤ (List.replicate requestRoom (0 : UInt8)).length := by
    rwa [List.length_replicate]
  obtain ⟨filled, hencode, hbytes⟩ := Writer.encode_bytes_of_le hlength
  have hsend := Socket.send_eq bytes c.socket n
  rw [hreact] at hsend
  rw [sendRequest, hencode]
  refine ends_bind_of_ok rfl ?_
  rw [hbytes]
  exact Ends.on (p := socketPart) rfl (ends_of_error hsend rfl)

attribute [local irreducible] Dialog.Ends in
theorem ListingChannel.ask_refused (q : ListingQuery) (c : ListingChannel) (n : Network)
    (hroom : q.bytes.length ≤ requestRoom)
    (hreact : n.world.react n.history c.socket.transport c.socket.peer q.bytes =
      .error .refused) : Ends (ask q) (c, n) fun res _ => res = .error .refused := by
  have hrequest := DatagramChannel.sendRequest_refused c.channel n hroom hreact
  rw [← ListingQuery.write_eq] at hrequest
  have hsend : Ends (send q) (c, n) fun res _ => res = .error .refused :=
    Ends.on (p := channelPart) rfl hrequest
  refine hsend.bind ?_ ?_
  · intro _ v hv
    cases hv
  · intro e v hv
    cases hv
    rfl

namespace MasterServer

variable {region : Region} {filter : String} {cursor : SocketAddressV4} {r : Nat} {p : Progress}
  {w : MasterServer × Network}

attribute [local irreducible] Dialog.Ends in
theorem fetchPage_refused (hw : w.1.IsBound) (h : w.2.world.Refuses w.1.endpoint.addresses)
    (hroom : (ListingQuery.bytes ⟨region, cursor, filter⟩).length ≤ requestRoom) :
    Ends (fetchPage region filter cursor) w fun res _ => res = .error .refused := by
  rw [fetchPage_eq]
  refine (((openUp_ends hw).and (proceeds_openUp w)).and (openUp_of_opens h.opens)).bind ?_ ?_
  · intro _ v hv
    obtain ⟨⟨⟨-, hbound, hopen, -⟩, hproceeds⟩, -⟩ := hv
    obtain ⟨c, hc⟩ := Option.isSome_iff_exists.1 hopen
    let q : ListingQuery := ⟨region, cursor, filter⟩
    have hreact := h.refuses v.2.history c.socket.peer q.bytes
    rw [← hproceeds.world, ← (hbound c hc).1] at hreact
    refine Ends.map (Ends.on (p := channelPart) hc ?_)
    refine (ListingChannel.ask_refused q c v.2 hroom hreact).imp ?_
    intro res u hres
    rw [hres]
    rfl
  · intro e v hv
    exact absurd rfl (hv.2 e)

theorem failed_of_refused (hw : w.1.IsBound) (h : w.2.world.Refuses w.1.endpoint.addresses)
    (hroom : (ListingQuery.bytes ⟨region, cursor, filter⟩).length ≤ requestRoom) :
    (attemptAt region filter cursor w).failed = true := by
  have hends := (fetchPage_ends region filter cursor hw).and (fetchPage_refused hw h hroom)
  obtain ⟨res, v, -, hfetch, rfl⟩ := hends.exists_outcome
  obtain ⟨-, -, -, hanswer, -⟩ := hfetch
  exact Attempt.failed_of_error hanswer

/-- After an attempt that is refused a client asks again, goes to the next address, or gives up. -/
theorem step_refused (hw : w.1.IsBound) (h : w.2.world.Refuses w.1.endpoint.addresses)
    (hroom : (ListingQuery.bytes ⟨region, p.cursor, filter⟩).length ≤ requestRoom) :
    Ends (step region filter true r p) w fun res v =>
      p.failed + 1 < r ∧ v.1.endpoint = w.1.endpoint ∧ res = .ok (.resume p.fail) ∨
      r ≤ p.failed + 1 ∧ v.1.endpoint = w.1.endpoint.next ∧
        res = if w.1.endpoint.next.active = 0 then .error (.exhausted (p.allFailed + 1) p.servers)
          else .ok (.resume p.fail.moveOn) := by
  have hends := fetchPage_ends region filter p.cursor hw
  have hfetch := (hends.and (proceeds_fetchPage p.cursor w)).and (fetchPage_refused hw h hroom)
  apply ends_step hfetch
  · rintro harvest v line ⟨-, hres⟩
    cases hres
  · rintro harvest v ⟨-, hres⟩
    cases hres
  · rintro harvest v line ⟨-, hres⟩
    cases hres
  · rintro e v line ⟨⟨⟨hendpoint, -⟩, hproceeds⟩, -⟩ -
    apply ends_afterFailure
    · intro line' hlt
      exact .inl ⟨hlt, hendpoint, rfl⟩
    · intro _ hforce
      cases hforce
    · intro hle _
      rw [← hendpoint]
      refine (rotate_ends v.1 _).imp ?_
      intro back u hu
      obtain ⟨hnext, -, -, hback⟩ := hu
      cases back with
      | ok back =>
        obtain ⟨rfl, -⟩ := hback
        by_cases hfirst : v.1.endpoint.next.active = 0
        · rw [Endpoint.atFirst, decide_eq_true hfirst]
          exact .inr ⟨hle, hnext, (if_pos hfirst).symm⟩
        · rw [Endpoint.atFirst, decide_eq_false hfirst]
          exact .inr ⟨hle, hnext, (if_neg hfirst).symm⟩
      | error e' =>
        obtain ⟨f, -, hconnect, -⟩ := hback
        have hmem : v.1.endpoint.next.address ∈ w.1.endpoint.addresses := by
          rw [← hproceeds.addresses, ← Endpoint.addresses_next]
          exact v.1.endpoint.next.address_mem
        have hopen := h.opens v.2.history v.1.endpoint.next.address hmem
        rw [← hproceeds.world] at hopen
        cases hconnect.symm.trans hopen
  · rintro e v ⟨-, hres⟩ hno
    cases hres
    cases hno

/-! ## The way of such a discovery -/

/-- A discovery has made some attempts, all of which have failed, and the next one is refused, too.
At each address before the active one it has made as many as a page is asked for. -/
structure IsFutile (region : Region) (filter : String) (r : Nat) (start : Endpoint)
    (as : List Attempt) (p : Progress) (w : MasterServer × Network) : Prop where
  bound : w.1.IsBound
  refuses : w.2.world.Refuses w.1.endpoint.addresses
  room : (ListingQuery.bytes ⟨region, p.cursor, filter⟩).length ≤ requestRoom
  came : CameTo r true start as p w.1.endpoint
  failed : ∀ a ∈ as, a.failed = true
  addresses : w.1.endpoint.addresses = start.addresses
  le : start.active ≤ w.1.endpoint.active
  length : as.length = r * (w.1.endpoint.active - start.active) + p.failed

theorem collected_eq_nil {as : List Attempt} (h : ∀ a ∈ as, a.failed = true) :
    collected as = [] := by
  apply List.flatMap_eq_nil_iff.2
  intro a ha
  rw [Attempt.harvest_of_failed (h a ha)]

namespace IsFutile

variable {start : Endpoint} {as : List Attempt}

theorem failed_snoc (h : IsFutile region filter r start as p w) :
    ∀ a ∈ as ++ [attemptAt region filter p.cursor w], a.failed = true :=
  List.forall_mem_append.2
    ⟨h.failed, List.forall_mem_singleton.2 (failed_of_refused h.bound h.refuses h.room)⟩

/-- There are attempts left until the last address is given up. -/
theorem length_lt (h : IsFutile region filter r start as p w) :
    as.length < r * (start.addresses.length - start.active) := by
  have hactive := w.1.endpoint.active_lt
  have hle := h.le
  have hlt := h.came.failed_lt
  have hlength := h.length
  rw [h.addresses] at hactive
  have hpay : r * (w.1.endpoint.active - start.active) + r ≤
      r * (start.addresses.length - start.active) := mul_add_le_mul (by omega)
  omega

/-- What such a discovery has come to when it has given the last address up. -/
theorem exhausted_eq (h : IsFutile region filter r start as p w) (hle : r ≤ p.failed + 1)
    (hlast : w.1.endpoint.next.active = 0) :
    as.length + 1 = r * (start.addresses.length - start.active) ∧
      ClientError.exhausted (p.allFailed + 1) p.servers =
        .exhausted (UInt32.ofNat (as.length + 1)) [] := by
  have hactive := Endpoint.active_of_next_eq_zero hlast
  have hahead := h.le
  have hlt := h.came.failed_lt
  have hlength := h.length
  rw [h.addresses] at hactive
  constructor
  · have hsplit : start.addresses.length - start.active =
        (w.1.endpoint.active - start.active) + 1 := by omega
    rw [hsplit, Nat.mul_succ]
    omega
  · rw [h.came.failures_eq, h.came.servers_eq, collected_eq_nil h.failed,
      List.countP_eq_length.2 h.failed, UInt32.ofNat_add]
    rfl

theorem step (h : IsFutile region filter r start as p w) :
    Ends (step region filter true r p) w fun res v =>
      match res with
      | .ok (.finish _) => False
      | .ok (.resume q) =>
        IsFutile region filter r start (as ++ [attemptAt region filter p.cursor w]) q v
      | .error e => as.length + 1 = r * (start.addresses.length - start.active) ∧
          e = .exhausted (UInt32.ofNat (as.length + 1)) [] := by
  have hends := ((step_ends region filter true r p h.bound).and (proceeds_step w)).and
    (step_refused h.bound h.refuses h.room)
  refine hends.imp fun res v hv => ?_
  obtain ⟨⟨⟨hleads, hbound, -⟩, hproceeds⟩, hv⟩ := hv
  have hcame : ∀ q, res = .ok (.resume q) →
      CameTo r true start (as ++ [attemptAt region filter p.cursor w]) q v.1.endpoint := by
    intro q hq
    rw [hq] at hleads
    exact h.came.step rfl hleads
  have hrefuses : v.2.world.Refuses v.1.endpoint.addresses := by
    rw [hproceeds.world, hproceeds.addresses]
    exact h.refuses
  have haddresses := hproceeds.addresses.trans h.addresses
  have hle := h.le
  have hlt := h.came.failed_lt
  have hlength := h.length
  rcases hv with ⟨hmore, hendpoint, rfl⟩ | ⟨hend, hendpoint, hres⟩
  · refine ⟨hbound, hrefuses, h.room, hcame _ rfl, h.failed_snoc, haddresses, ?_, ?_⟩
    · rw [hendpoint]
      exact hle
    · rw [hendpoint, List.length_append, hlength]
      rfl
  · by_cases hlast : w.1.endpoint.next.active = 0
    · obtain rfl := hres.trans (if_pos hlast)
      exact h.exhausted_eq hend hlast
    · obtain rfl := hres.trans (if_neg hlast)
      have hactive := Endpoint.active_next_of_ne_zero hlast
      refine ⟨hbound, hrefuses, h.room, hcame _ rfl, h.failed_snoc, haddresses, ?_, ?_⟩
      · rw [hendpoint, hactive]
        exact Nat.le_succ_of_le hle
      · have hsplit : w.1.endpoint.active + 1 - start.active =
            (w.1.endpoint.active - start.active) + 1 := by omega
        rw [hendpoint, hactive, hsplit, List.length_append, Nat.mul_succ]
        change as.length + 1 = _ + r + 0
        omega

theorem run (limit : Nat) (h : IsFutile region filter r start as p w)
    (hlimit : r * (start.addresses.length - start.active) ≤ as.length + limit) :
    Ends (resume region filter true r limit p) w fun res _ =>
      let all := as ++ attemptsFrom region filter true r limit p w
      (∀ a ∈ all, a.failed = true) ∧ all.length = r * (start.addresses.length - start.active) ∧
        res = .error (.exhausted (UInt32.ofNat all.length) []) := by
  induction limit generalizing as p w with
  | zero =>
    have hlt := h.length_lt
    omega
  | succ limit ih =>
    rw [attemptsFrom]
    cases hstep : MasterServer.step region filter true r p w with
    | error e v =>
      obtain ⟨hlength, rfl⟩ := h.step.of_eq_error hstep
      refine ends_of_error (bind_of_error hstep _) ⟨h.failed_snoc, ?_, ?_⟩
      · rw [List.length_append]
        exact hlength
      · rw [List.length_append]
        rfl
    | ok next v =>
      have hnext := h.step.of_eq_ok hstep
      refine ends_bind_of_ok hstep ?_
      cases next with
      | finish servers => exact hnext.elim
      | resume q =>
        have hrest := ih hnext (by rw [List.length_append, List.length_singleton]; omega)
        rwa [List.append_assoc, List.singleton_append] at hrest

end IsFutile

/-- The attempts of a forced discovery that is refused everything, and what it says of them. -/
theorem getServers_refused {limit : Nat} (hw : w.1.IsBound)
    (hr : 0 < w.1.attempts w.2.settings) (h : w.2.world.Refuses w.1.endpoint.addresses)
    (hroom : (ListingQuery.bytes ⟨region, sentinel, filter⟩).length ≤ requestRoom)
    (hlimit : w.1.attempts w.2.settings *
      (w.1.endpoint.addresses.length - w.1.endpoint.active) ≤ limit) :
    Ends (getServers limit region filter true) w fun res _ =>
      let as := attemptsOf limit region filter true w
      (∀ a ∈ as, a.failed = true) ∧ as.length = w.1.attempts w.2.settings *
          (w.1.endpoint.addresses.length - w.1.endpoint.active) ∧
        res = .error (.exhausted (UInt32.ofNat as.length) []) := by
  have hfutile : IsFutile region filter (w.1.attempts w.2.settings) w.1.endpoint [] {} w := by
    refine ⟨hw, h, hroom, .refl hr, List.forall_mem_nil _, rfl, Nat.le_refl _, ?_⟩
    rw [Nat.sub_self]
    rfl
  refine ends_state_bind (ends_network_bind (hfutile.run limit ?_))
  rwa [List.length_nil, Nat.zero_add]

section Deaf

/-- A world in which every datagram is refused. -/
def deafWorld : World where
  connect _ _ _ := none
  react _ _ _ _ := .error .refused
  resolve _ := none
  sessionId _ := 0

/-- A client of two master servers that asks each of them `2 ^ 31` times for a page. -/
def deafStart : MasterServer × Network :=
  clientOf (UInt32.size / 2) (masterAddress 1) [masterAddress 2] deafWorld

theorem deafStart_reached : Reached deafStart :=
  clientOf_reached (UInt32.size / 2) [masterAddress 2] rfl

-- The limit is a variable, since it is too large a number for a discovery to be evaluated with it.
theorem deafStart_exhausts {limit : Nat} (hlimit : UInt32.size ≤ limit) : ∃ v,
    Dialog.outcome (getServers limit .world "" true) deafStart =
        .ok (.error (.exhausted (UInt32.ofNat UInt32.size) [])) v ∧
      (attemptsOf limit .world "" true deafStart).countP Attempt.failed = UInt32.size := by
  have hattempts : deafStart.1.attempts deafStart.2.settings = UInt32.size / 2 := by decide
  have hcount : deafStart.1.attempts deafStart.2.settings *
      (deafStart.1.endpoint.addresses.length - deafStart.1.endpoint.active) = UInt32.size := by
    rw [hattempts]
    decide
  have hr : 0 < deafStart.1.attempts deafStart.2.settings := by
    rw [hattempts]
    decide
  have hroom : (ListingQuery.bytes ⟨.world, sentinel, ""⟩).length ≤ requestRoom := by
    decide +kernel
  have hrefuses : deafStart.2.world.Refuses deafStart.1.endpoint.addresses := {
    opens := fun _ _ _ => rfl
    refuses := fun _ _ _ => rfl }
  have hends := getServers_refused deafStart_reached.isBound hr hrefuses hroom
    (hcount.le.trans hlimit)
  obtain ⟨result, v, hrun, hfailed, hlength, rfl⟩ := hends.exists_outcome
  rw [hcount] at hlength
  rw [hlength] at hrun
  refine ⟨v, hrun, ?_⟩
  rw [List.countP_eq_length.2 hfailed, hlength]

/-- A client of a master server whose third page has only the server of the first one. -/
def staleStart : MasterServer × Network :=
  clientOf 1 (masterAddress 1) [] (.ofPages (fun _ => turningPages.take 3) [])

/-- What a discovery says of its failed attempts need not be their number: of `2 ^ 32` it says that
there are none, and a page with nothing new is not among them if it has anything but the cursor. -/
theorem exhausted_miscounts :
    (∃ v, Reached deafStart ∧ 1 ≤ deafStart.1.attempts deafStart.2.settings ∧
      Dialog.outcome (getServers UInt32.size .world "" true) deafStart =
        .ok (.error (.exhausted 0 [])) v ∧
      (attemptsOf UInt32.size .world "" true deafStart).countP Attempt.failed = UInt32.size) ∧
    ∃ v, Reached staleStart ∧ 1 ≤ staleStart.1.attempts staleStart.2.settings ∧
      Dialog.outcome (getServers 9 .world "" false) staleStart =
        .ok (.error (.exhausted 1 [turningServer 1, turningServer 2, turningServer 1])) v ∧
      let as := attemptsOf 9 .world "" false staleStart
      as.countP Attempt.failed + repeatsFrom [] as = 2 := by
  constructor
  · have hzero : UInt32.ofNat UInt32.size = 0 := by decide
    obtain ⟨v, hrun, hcount⟩ := deafStart_exhausts (Nat.le_refl UInt32.size)
    rw [hzero] at hrun
    exact ⟨v, deafStart_reached, by decide, hrun, hcount⟩
  · have hends : Ends (getServers 9 .world "" false) staleStart fun result _ =>
        result = .error (.exhausted 1 [turningServer 1, turningServer 2, turningServer 1]) := by
      decide +kernel
    obtain ⟨result, v, hrun, rfl⟩ := hends.exists_outcome
    exact ⟨v, clientOf_reached 1 [] rfl, by decide, hrun, by decide +kernel⟩

end Deaf

end MasterServer

end GameQuery
