import GameQuery.Proofs.DiscoveryRun
import Mathlib.Data.List.Infix

namespace GameQuery

/-!
# Requests of a discovery

How often a master server is asked can be read off the history. A forced discovery is over when the
first address comes again, wherever it has started: one that gives up has asked every address from
its start on as often as a page is asked for, but none before it.
-/

open Dialog

/-! ## Requests in a history -/

def Event.asked? : Event → Option SocketAddress
  | .sent .udp peer _ => some peer
  | _ => none

/-- The addresses that datagrams have been sent to, the earliest first. -/
def asked (history : List Event) : List SocketAddress := history.reverse.filterMap Event.asked?

@[simp] theorem asked_append (new old : List Event) :
    asked (new ++ old) = asked old ++ asked new := by
  simp [asked]

theorem count_asked_eq_zero {history new old : List Event} {peer : SocketAddress}
    (hnew : history = new ++ old) (hcount : (asked history).count peer = (asked old).count peer) :
    (asked new).count peer = 0 := by
  rw [hnew, asked_append, List.count_append] at hcount
  exact Nat.add_eq_left.1 hcount

def Exchange.asked? : Exchange → Option SocketAddress
  | .request peer _ => some peer
  | .unopened _ | .answer _ _ => none

theorem asked_eq_filterMap_exchanges (history : List Event) :
    asked history = (exchanges history).filterMap Exchange.asked? := by
  rw [asked, exchanges, List.filterMap_filterMap]
  congr 1
  funext e
  cases e with
  | connected transport peer failure => cases transport <;> cases failure <;> rfl
  | sent transport peer bytes => cases transport <;> rfl
  | received transport peer bytes => cases transport <;> rfl
  | timedOut transport peer wait => rfl
  | closed peer => rfl

/-- There is a socket for the attempt. -/
def Attempt.IsOpened (a : Attempt) : Prop := ∀ e, a.answer ≠ .unopened e

variable {region : Region} {filter : String} {as : List Attempt} {a : Attempt}

theorem Attempt.asked_exchanges (h : a.IsOpened) :
    (a.exchanges region filter).filterMap Exchange.asked? = [a.endpoint.address] := by
  rw [exchanges]
  cases hanswer : a.answer with
  | unopened e => exact absurd hanswer (h e)
  | unanswered e => rfl
  | page entries => rfl

theorem asked_of_attempts (h : ∀ a ∈ as, a.IsOpened) :
    (as.flatMap (Attempt.exchanges region filter)).filterMap Exchange.asked? =
      as.map fun a => a.endpoint.address := by
  induction as with
  | nil => rfl
  | cons a as ih =>
    obtain ⟨ha, has⟩ := List.forall_mem_cons.1 h
    rw [List.flatMap_cons, List.filterMap_append, Attempt.asked_exchanges ha, ih has]
    rfl

/-- All sockets to some addresses can be opened. -/
def World.Opens (world : World) (addresses : List SocketAddress) : Prop :=
  ∀ history, ∀ peer ∈ addresses, world.connect history .udp peer = none

/-- A world in which the next request to a peer is answered by its next page, if there is one. The
sockets to some peers cannot be opened. -/
def World.ofPages (pages : SocketAddress → List (Option (List SocketAddressV4)))
    (refused : List SocketAddress) : World where
  connect _ _ peer := if peer ∈ refused then some .refused else none
  react history _ peer _ :=
    match (pages peer)[(asked history).count peer]? with
    | some (some page) => .ok [.data (Page.datagram page)]
    | _ => .ok []
  resolve _ := none
  sessionId _ := 0

theorem Endpoint.active_eq_zero {e : Endpoint} (hnodup : e.addresses.Nodup)
    (h : e.addresses ⊆ e.addresses.drop e.active) : e.active = 0 := by
  obtain ⟨first, rest, hsplit⟩ :=
    List.exists_cons_of_length_pos (Nat.zero_lt_of_lt e.active_lt)
  rw [hsplit] at hnodup h
  cases hactive : e.active with
  | zero => rfl
  | succ i =>
    rw [hactive, List.drop_succ_cons] at h
    have hmem := List.mem_of_mem_drop (h List.mem_cons_self)
    exact absurd hmem (List.nodup_cons.1 hnodup).1

namespace MasterServer

variable {cursor : SocketAddressV4} {r : Nat} {p : Progress} {w v : MasterServer × Network}

theorem openUp_of_opens (h : w.2.world.Opens w.1.endpoint.addresses) :
    Ends openUp w fun res _ => ∀ e, res ≠ .error e := by
  apply ends_state_bind
  split
  · exact ends_pure nofun
  · refine Ends.on (p := connectionPart) rfl ((MasterSession.reconnect_ends _ w.2).imp ?_)
    intro res u hu e hres
    subst hres
    obtain ⟨-, -, -, f, hconnect, -⟩ := hu
    have hopen := h w.2.history _ w.1.endpoint.address_mem
    exact nomatch hconnect.symm.trans hopen

theorem attemptAt_isOpened (h : w.2.world.Opens w.1.endpoint.addresses) :
    (attemptAt region filter cursor w).IsOpened := by
  intro e he
  cases hrun : openUp w with
  | error e' u => exact (openUp_of_opens h).of_eq_error hrun e' rfl
  | ok _ u =>
    simp only [attemptAt, hrun] at he
    split at he <;> cases he

def masterAddress (number : UInt8) : SocketAddress := .v4 ⟨⟨192, 0, 2, number⟩, masterPort⟩

/-- The endpoint of some master servers, the first of which is active. -/
def mastersAt (first : SocketAddress) (rest : List SocketAddress) : Endpoint :=
  ⟨"masters", first :: rest, 0, Nat.zero_lt_succ _⟩

/-- A client of some master servers, around which nothing has happened yet. -/
def clientOf (retries : Nat) (first : SocketAddress) (rest : List SocketAddress) (world : World) :
    MasterServer × Network :=
  ({ connection := ⟨mastersAt first rest, { channel := some (.fresh first none) }⟩
     retries := some (max 1 retries) },
    { world })

theorem clientOf_reached (retries : Nat) {first : SocketAddress} (rest : List SocketAddress)
    {world : World} (h : world.connect [] .udp first = none) :
    Reached (clientOf retries first rest world) := by
  have hopen := MasterSession.openSockets_eq first {} { world }
  rw [h] at hopen
  let start : Connection MasterSession := ⟨mastersAt first rest, {}⟩
  have hreconnect : Connection.reconnect (start, { world }) = .ok () _ :=
    on_of_ok (p := Connection.ownerPart) rfl hopen
  have hconnect : connect (mastersAt first rest) ((), { world }) =
      .ok { (clientOf retries first rest world).1 with retries := none }
        ((), ({ world } : Network).record (.connected .udp first none)) := by
    refine bind_of_ok (a := (clientOf retries first rest world).1.connection) ?_ _
    change build start Connection.reconnect ((), { world }) = _
    simp only [build, hreconnect]
    rfl
  exact .elsewhere (.setRetries (.connect hconnect) (some retries)) _

theorem Reached.afterwards (h : Reached w) (limit : Nat) (region : Region) (filter : String)
    (force : Bool) : Reached (afterwards (getServers limit region filter force) w) := by
  obtain ⟨result, hresult⟩ := outcome_eq_afterwards (getServers limit region filter force) w
  exact .discover h hresult

/-! ## Addresses that are asked -/

/-- How many attempts are made at an address. -/
def attemptsAt (active : Nat) (as : List Attempt) : Nat :=
  as.countP fun a => a.endpoint.active == active

theorem attemptsAt_snoc (active : Nat) (as : List Attempt) (a : Attempt) :
    attemptsAt active (as ++ [a]) =
      attemptsAt active as + if a.endpoint.active == active then 1 else 0 := by
  rw [attemptsAt, List.countP_append, List.countP_singleton, attemptsAt]

theorem failedInARow_le_attemptsAt (active : Nat) (as : List Attempt) :
    failedInARow active as ≤ attemptsAt active as := by
  have hrow : ∀ a ∈ as.reverse.takeWhile fun a => a.failed && a.endpoint.active == active,
      (a.endpoint.active == active) = true := by
    intro a ha
    exact (Bool.and_eq_true_iff.1 (List.all_eq_true.1 List.all_takeWhile a ha)).2
  calc failedInARow active as
      = (as.reverse.takeWhile fun a => a.failed && a.endpoint.active == active).countP
          fun a => a.endpoint.active == active := (List.countP_eq_length.2 hrow).symm
    _ ≤ as.reverse.countP fun a => a.endpoint.active == active :=
        (List.takeWhile_sublist _).countP_le
    _ = attemptsAt active as := List.countP_reverse

/-- The addresses from the one that is active at the start up to a bound have been given up. -/
structure Covers (r : Nat) (start : Endpoint) (as : List Attempt) (bound : Nat) : Prop where
  opened : ∀ a ∈ as, a.IsOpened
  addresses : ∀ a ∈ as, a.endpoint.addresses = start.addresses
  active : ∀ a ∈ as, start.active ≤ a.endpoint.active
  passed : ∀ i, start.active ≤ i → i < bound → r ≤ attemptsAt i as
  le : start.active ≤ bound

namespace Covers

variable {start : Endpoint} {bound : Nat}

theorem snoc (h : Covers r start as a.endpoint.active) (hopened : a.IsOpened)
    (haddresses : a.endpoint.addresses = start.addresses) :
    Covers r start (as ++ [a]) a.endpoint.active where
  opened := List.forall_mem_append.2 ⟨h.opened, List.forall_mem_singleton.2 hopened⟩
  addresses := List.forall_mem_append.2 ⟨h.addresses, List.forall_mem_singleton.2 haddresses⟩
  active := List.forall_mem_append.2 ⟨h.active, List.forall_mem_singleton.2 h.le⟩
  passed i hle hlt := by
    rw [attemptsAt_snoc]
    exact Nat.le_add_right_of_le (h.passed i hle hlt)
  le := h.le

theorem succ (h : Covers r start as bound) (hmany : r ≤ attemptsAt bound as) :
    Covers r start as (bound + 1) where
  opened := h.opened
  addresses := h.addresses
  active := h.active
  passed i hle hlt := by
    rcases Nat.lt_succ_iff_lt_or_eq.1 hlt with hlt | rfl
    · exact h.passed i hle hlt
    · exact hmany
  le := Nat.le_succ_of_le h.le

variable {peer : SocketAddress}

theorem le_count (h : Covers r start as start.addresses.length)
    (hpeer : peer ∈ start.addresses.drop start.active) :
    r ≤ (as.map fun a => a.endpoint.address).count peer := by
  obtain ⟨i, hi⟩ := List.mem_iff_getElem?.1 hpeer
  rw [List.getElem?_drop] at hi
  obtain ⟨hlt, -⟩ := List.getElem?_eq_some_iff.1 hi
  refine Nat.le_trans (h.passed _ (Nat.le_add_right start.active i) hlt) ?_
  rw [List.count, List.countP_map]
  apply List.countP_mono_left
  intro a ha hactive
  have haddress := a.endpoint.getElem?_active
  rw [h.addresses a ha, eq_of_beq hactive, hi] at haddress
  exact beq_iff_eq.2 (Option.some.inj haddress).symm

theorem count_eq_zero {bound : Nat} (h : Covers r start as bound)
    (hpeer : peer ∉ start.addresses.drop start.active) :
    (as.map fun a => a.endpoint.address).count peer = 0 := by
  apply List.count_eq_zero.2
  intro hmem
  obtain ⟨a, ha, rfl⟩ := List.mem_map.1 hmem
  apply hpeer
  apply List.mem_iff_getElem?.2
  refine ⟨a.endpoint.active - start.active, ?_⟩
  rw [List.getElem?_drop, Nat.add_sub_cancel' (h.active a ha), ← h.addresses a ha]
  exact a.endpoint.getElem?_active

end Covers

theorem getServers_covers (hw : w.1.IsBound) (hr : 0 < w.1.attempts w.2.settings)
    (hopens : w.2.world.Opens w.1.endpoint.addresses) (limit : Nat) :
    Ends (getServers limit region filter true) w fun result _ =>
      (∃ n servers, result = .error (.exhausted n servers)) →
        Covers (w.1.attempts w.2.settings) w.1.endpoint (attemptsOf limit region filter true w)
          w.1.endpoint.addresses.length := by
  refine ends_getServers
    (I := fun as _ v => Covers (w.1.attempts w.2.settings) w.1.endpoint as v.1.endpoint.active)
    (P := fun as result _ => (∃ n servers, result = .error (.exhausted n servers)) →
      Covers (w.1.attempts w.2.settings) w.1.endpoint as w.1.endpoint.addresses.length)
    hw hr ?_ ?_ limit ?_
  · rintro as p v - - ⟨n, servers, h⟩
    cases h
  · intro as p v harrived hcovers a
    have haddresses : a.endpoint.addresses = w.1.endpoint.addresses := harrived.proceeds.addresses
    have hopened : a.IsOpened := by
      apply attemptAt_isOpened
      rw [harrived.proceeds.world, harrived.proceeds.addresses]
      exact hopens
    have hcovers' := hcovers.snoc hopened haddresses
    -- The last attempt that fails in a row is one of at least as many attempts at its address.
    have hmany : w.1.attempts w.2.settings ≤ p.failed + 1 →
        w.1.attempts w.2.settings ≤ attemptsAt a.endpoint.active (as ++ [a]) := by
      intro hle
      have hrow := failedInARow_le_attemptsAt a.endpoint.active as
      rw [attemptsAt_snoc, beq_self_eq_true, if_pos rfl]
      have hfailed : p.failed = failedInARow a.endpoint.active as := harrived.came.failed_eq
      omega
    refine ends_of_forall fun res u hleads => ?_
    obtain ⟨e, hend⟩ : ∃ e, u.1.endpoint = e := ⟨_, rfl⟩
    rw [hend] at hleads
    cases hleads with
    | last hlast => exact fun ⟨n, servers, h⟩ => nomatch h
    | more hmore hnew =>
      change Covers _ _ _ u.1.endpoint.active
      rw [hend]
      exact hcovers'
    | again hfailed hlt =>
      change Covers _ _ _ u.1.endpoint.active
      rw [hend]
      exact hcovers'
    | elsewhere hfailed hle hforce hnext =>
      change Covers _ _ _ u.1.endpoint.active
      rw [hend, Endpoint.active_next_of_ne_zero hnext]
      exact hcovers'.succ (hmany hle)
    | exhausted hfailed hle hwrap hstay =>
      intro _
      have hlast := hcovers'.succ (hmany hle)
      rwa [Endpoint.active_of_next_eq_zero (hwrap rfl), haddresses] at hlast
    | unopened f =>
      rintro ⟨n, servers, h⟩
      exact absurd (Except.error.inj h) (ClientError.isPlain_ofFailure f n servers)
    | broken hplain =>
      rintro ⟨n, servers, h⟩
      exact absurd (Except.error.inj h) (hplain n servers)
  · exact ⟨by simp, by simp, by simp, fun i hle hlt => absurd hlt (Nat.not_lt.2 hle), Nat.le_refl _⟩

/-- A forced discovery gives up only after all addresses from its first one on have been asked as
often as a page is asked for, and then it has asked no other address. So if it has asked all of them
is decided by where it has started. -/
theorem asked_of_exhausted {limit : Nat} {n : UInt32} {servers : List SocketAddressV4}
    (hw : Reached w) (hsettings : w.2.settings.Attained)
    (hopens : w.2.world.Opens w.1.endpoint.addresses)
    (h : Dialog.outcome (getServers limit region filter true) w =
      .ok (.error (.exhausted n servers)) v) :
    ∃ new, v.2.history = new ++ w.2.history ∧
      (∀ peer ∈ w.1.endpoint.addresses.drop w.1.endpoint.active,
        w.1.attempts w.2.settings ≤ (asked new).count peer) ∧
      (∀ peer ∉ w.1.endpoint.addresses.drop w.1.endpoint.active, (asked new).count peer = 0) ∧
      (w.1.endpoint.addresses.Nodup →
        ((∀ peer ∈ w.1.endpoint.addresses, w.1.attempts w.2.settings ≤ (asked new).count peer) ↔
          w.1.endpoint.active = 0)) := by
  have hr := hw.attempts_pos hsettings
  obtain ⟨new, hnew⟩ := ((proceeds_getServers limit) w |>.of_outcome h).history
  have hcovers := (getServers_covers hw.isBound hr hopens limit).of_outcome h ⟨n, servers, rfl⟩
  have hends : Ends (getServers limit region filter true) w _ :=
    ends_state_bind (ends_network_bind (resume_ends limit hw.isBound (.refl hr)))
  obtain ⟨-, -, hhistory⟩ := hends.of_outcome h servers (.inr ⟨n, rfl⟩)
  have hasked : asked v.2.history = asked w.2.history ++
      (attemptsOf limit region filter true w).map fun a => a.endpoint.address := by
    rw [asked_eq_filterMap_exchanges, hhistory, List.filterMap_append,
      ← asked_eq_filterMap_exchanges]
    exact congrArg _ (asked_of_attempts hcovers.opened)
  rw [← hnew, asked_append] at hasked
  refine ⟨new, hnew.symm, ?_⟩
  rw [List.append_cancel_left hasked]
  refine ⟨fun peer => hcovers.le_count, fun peer => hcovers.count_eq_zero, ?_⟩
  intro hnodup
  constructor
  · intro hall
    refine Endpoint.active_eq_zero hnodup fun peer hpeer => ?_
    refine Decidable.byContradiction fun hother => ?_
    have hmany := hall peer hpeer
    rw [hcovers.count_eq_zero hother] at hmany
    omega
  · intro hactive peer hpeer
    apply hcovers.le_count
    rwa [hactive]

section Shifting

def shiftingPage : List SocketAddressV4 := [⟨⟨10, 0, 0, 1⟩, gamePort⟩, sentinel]

/-- The first master server answers every request but the first, the second one the first only. -/
def shiftingWorld : World :=
  .ofPages (fun peer => if peer = masterAddress 1 then [none, some shiftingPage]
    else [some shiftingPage]) []

def shiftingStart : MasterServer × Network :=
  clientOf 1 (masterAddress 1) [masterAddress 2] shiftingWorld

/-- The first discovery has got its list from the second master server. -/
def shiftingNext : MasterServer × Network := afterwards (getServers 9 .world "" true) shiftingStart

theorem shiftingNext_reached : Reached shiftingNext := (clientOf_reached 1 _ rfl).afterwards _ _ _ _

theorem shiftingNext_opens : shiftingNext.2.world.Opens shiftingNext.1.endpoint.addresses := by
  have hproceeds : Proceeds shiftingStart shiftingNext := (proceeds_getServers 9).afterwards _
  intro history peer _
  rw [hproceeds.world]
  rfl

-- Runs are evaluated by the kernel only.
attribute [local irreducible] Dialog.Ends

/-- A discovery gives up that has not asked the first master server, which would answer. -/
theorem exhausted_unasked : ∃ v,
    Reached shiftingNext ∧ shiftingNext.2.world.Opens shiftingNext.1.endpoint.addresses ∧
      Dialog.outcome (getServers 9 .world "" true) shiftingNext =
        .ok (.error (.exhausted 1 [])) v ∧
      masterAddress 1 ∈ shiftingNext.1.endpoint.addresses ∧
      1 ≤ shiftingNext.1.attempts shiftingNext.2.settings ∧
      ∀ new, v.2.history = new ++ shiftingNext.2.history →
        (asked new).count (masterAddress 1) = 0 := by
  have hends : Ends (getServers 9 .world "" true) shiftingNext fun result v =>
      result = .error (.exhausted 1 []) ∧ (asked v.2.history).count (masterAddress 1) =
        (asked shiftingNext.2.history).count (masterAddress 1) := by decide +kernel
  obtain ⟨result, v, hrun, rfl, hcount⟩ := hends.exists_outcome
  refine ⟨v, shiftingNext_reached, shiftingNext_opens, hrun, by decide +kernel,
    by decide +kernel, ?_⟩
  exact fun new hnew => count_asked_eq_zero hnew hcount

theorem asked_of_exhausted_shifting : ∃ v,
    shiftingNext.2.settings.Attained ∧
      Dialog.outcome (getServers 9 .world "" true) shiftingNext =
        .ok (.error (.exhausted 1 [])) v ∧
      ∃ new, v.2.history = new ++ shiftingNext.2.history ∧
        1 ≤ (asked new).count (masterAddress 2) ∧ (asked new).count (masterAddress 1) = 0 := by
  have hends : Ends (getServers 9 .world "" true) shiftingNext fun result _ =>
      result = .error (.exhausted 1 []) := by decide +kernel
  obtain ⟨result, v, hrun, rfl⟩ := hends.exists_outcome
  have hinitial : shiftingNext.2.settings = {} := by decide +kernel
  have hsettings : shiftingNext.2.settings.Attained := hinitial ▸ .initial
  have hattempts : shiftingNext.1.attempts shiftingNext.2.settings = 1 := by decide +kernel
  obtain ⟨new, hnew, hmany, hnone, -⟩ :=
    asked_of_exhausted shiftingNext_reached hsettings shiftingNext_opens hrun
  rw [hattempts] at hmany
  refine ⟨v, hsettings, hrun, new, hnew, hmany _ ?_, hnone _ ?_⟩
  · decide +kernel
  · decide +kernel

end Shifting

end MasterServer

end GameQuery
