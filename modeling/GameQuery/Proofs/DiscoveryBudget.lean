import GameQuery.Proofs.DiscoveryRequests
import Mathlib.Data.Finset.Card

namespace GameQuery

/-!
# How much a discovery asks

A discovery goes on as long as its pages bring something. Every address it gives up and every page
that brings something pays for as many requests as a page is asked for. A page brings something
although all that is on it has been collected before: only the address that is its cursor does not
count. So what a discovery sends is not bounded by what it collects, unless no page repeats.
-/

open Dialog

/-! ## How often a discovery asks -/

/-- At most `k` datagrams have been sent from before to after. -/
def AsksAtMost {σ : Type} (k : Nat) (w v : σ × Network) : Prop :=
  ∃ new, v.2.history = new ++ w.2.history ∧ (asked new).length ≤ k

section AsksAtMost

variable {σ τ α β : Type} {j k m : Nat}

instance : Std.Refl (AsksAtMost k (σ := σ)) := ⟨fun _ => ⟨[], rfl, Nat.zero_le k⟩⟩

theorem AsksAtMost.trans {u v w : σ × Network} (h : AsksAtMost j u v) (h' : AsksAtMost k v w) :
    AsksAtMost (j + k) u w := by
  obtain ⟨new, hnew, hj⟩ := h
  obtain ⟨new', hnew', hk⟩ := h'
  refine ⟨new' ++ new, by rw [hnew', hnew, List.append_assoc], ?_⟩
  rw [asked_append, List.length_append]
  exact Nat.add_le_add hj hk

instance : Trans (AsksAtMost k (σ := σ)) (AsksAtMost 0 (σ := σ)) (AsksAtMost k (σ := σ)) where
  trans := AsksAtMost.trans

theorem asksAtMost_of_cons {w v : σ × Network} {e : Event} (h : v.2.history = e :: w.2.history)
    (hk : e.asked?.toList.length ≤ k) : AsksAtMost k w v := by
  refine ⟨[e], h, ?_⟩
  cases he : e.asked? with
  | none => simp [asked, he]
  | some peer => simpa [asked, he] using hk

theorem Dialog.Moves.bind_asksAtMost {d : Dialog σ α} {f : α → Dialog σ β}
    (hd : Moves (AsksAtMost j) d) (hf : ∀ a, Moves (AsksAtMost k) (f a)) (h : j + k = m) :
    Moves (AsksAtMost m) (d >>= f) := by
  subst h
  intro w
  refine (hd w).bind (fun a v hv => (hf a v).imp fun _ _ hu => hv.trans hu) fun _ v hv => ?_
  have hrest : AsksAtMost k v v := Std.Refl.refl v
  exact hv.trans hrest

theorem Dialog.Moves.on_asksAtMost {p : Part σ τ} {d : Dialog τ α} (hd : Moves (AsksAtMost k) d) :
    Moves (AsksAtMost k) (.on p d) := hd.on fun _ _ _ _ _ hv => hv

end AsksAtMost

theorem DatagramChannel.sendRequest_asks (x : Writer Unit) :
    Moves (AsksAtMost 1) (sendRequest x) := by
  refine Moves.bind_asksAtMost (moves_ofCodec _) (fun filled => ?_) (Nat.zero_add 1)
  refine Moves.on_asksAtMost fun w => (Socket.send_ends filled.bytes w).imp ?_
  rintro r v ⟨-, -, -, hhistory, -⟩
  apply asksAtMost_of_cons hhistory
  cases w.1.transport <;> simp [Event.asked?]

theorem DatagramChannel.receive_asks (timeout : Option Nat) :
    Moves (AsksAtMost 0) (receive timeout) := by
  intro w
  refine (receive_ends timeout w).imp ?_
  rintro (e | bytes) v hv
  · obtain ⟨-, hhistory | ⟨wait, hhistory⟩⟩ := hv
    · exact ⟨[], hhistory, Nat.le_refl 0⟩
    · exact asksAtMost_of_cons hhistory (Nat.le_refl 0)
  · obtain ⟨datagram, -, hhistory⟩ := hv
    exact asksAtMost_of_cons hhistory (Nat.le_refl 0)

attribute [local irreducible] Dialog.Ends in
theorem ListingChannel.ask_asks (q : ListingQuery) : Moves (AsksAtMost 1) (ask q) := by
  have hsend : Moves (AsksAtMost 1) (send q) :=
    Moves.on_asksAtMost (DatagramChannel.sendRequest_asks q.write)
  have hreply : Moves (AsksAtMost 0) reply :=
    Moves.bind (Moves.on_asksAtMost (DatagramChannel.receive_asks none)) fun _ => moves_ofCodec _
  exact Moves.bind_asksAtMost hsend (fun _ => hreply) rfl

namespace MasterServer

variable {region : Region} {filter : String} {cursor : SocketAddressV4} {r : Nat}
  {p : Progress} {w v : MasterServer × Network}
  {force : Bool}

theorem reconnect_asks : Moves (AsksAtMost 0) (.on connectionPart Connection.reconnect) := by
  refine Moves.on_asksAtMost fun w => (MasterSession.reconnect_ends w.1 w.2).imp ?_
  rintro (e | _) v ⟨-, -, hv⟩
  · obtain ⟨-, f, -, -, hhistory⟩ := hv
    exact asksAtMost_of_cons hhistory (Nat.le_refl 0)
  · exact asksAtMost_of_cons hv.2 (Nat.le_refl 0)

theorem rotate_asks : Moves (AsksAtMost 0) (.on connectionPart Connection.rotate) := by
  intro w
  refine (rotate_ends w.1 w.2).imp ?_
  rintro (e | _) v ⟨-, -, -, hv⟩
  · obtain ⟨f, -, -, hhistory⟩ := hv
    exact asksAtMost_of_cons hhistory (Nat.le_refl 0)
  · exact asksAtMost_of_cons hv.2.2 (Nat.le_refl 0)

theorem noteEndpoint_asks (level : LogLevel) (text : String) :
    Moves (AsksAtMost 0) (noteEndpoint level text) :=
  moves_state.bind fun _ => moves_modifyNetwork fun _ _ => ⟨[], rfl, Nat.le_refl 0⟩

theorem fetchPage_asks : Moves (AsksAtMost 1) (fetchPage region filter cursor) := by
  rw [fetchPage_eq]
  refine Moves.bind_asksAtMost ?_ (fun _ => Moves.map _ ?_) (Nat.zero_add 1)
  · refine moves_state.bind fun s => ?_
    split
    · exact moves_pure _
    · exact reconnect_asks
  · exact Moves.on_asksAtMost (ListingChannel.ask_asks _)

theorem step_asks : Moves (AsksAtMost 1) (step region filter force r p) := by
  have hfetch : ∀ cursor, Moves (AsksAtMost 1) (fetchPage region filter cursor) :=
    fun _ => fetchPage_asks
  exact moves_step hfetch noteEndpoint_asks rotate_asks

end MasterServer

/-! ## What an attempt gains -/

/-- The page does not end the list, and all that it brings has been collected before. -/
def Attempt.repeats (seen : List SocketAddressV4) (a : Attempt) : Bool :=
  !a.harvest.isLast && !a.harvest.found.isEmpty && a.harvest.found.all (· ∈ seen)

/-- How many pages bring only what has been seen, or what the pages before them bring. -/
def repeatsFrom (seen : List SocketAddressV4) : List Attempt → Nat
  | [] => 0
  | a :: as => (a.repeats seen).toNat + repeatsFrom (seen ++ a.harvest.found) as

theorem repeatsFrom_snoc (seen : List SocketAddressV4) (as : List Attempt) (a : Attempt) :
    repeatsFrom seen (as ++ [a]) =
      repeatsFrom seen as + (a.repeats (seen ++ collected as)).toNat := by
  induction as generalizing seen with
  | nil => simp [repeatsFrom, collected]
  | cons b as ih =>
    rw [List.cons_append, repeatsFrom, ih, repeatsFrom, Nat.add_assoc, List.append_assoc]
    rfl

/-- How many different addresses are collected. -/
def distinct (as : List Attempt) : Nat := (collected as).toFinset.card

theorem distinct_le_snoc (as : List Attempt) (a : Attempt) :
    distinct as ≤ distinct (as ++ [a]) := by
  apply Finset.card_le_card
  rw [collected_snoc, List.toFinset_append]
  exact Finset.subset_union_left

theorem distinct_lt_snoc {server : SocketAddressV4} (hnew : server ∈ a.harvest.found)
    (hunseen : server ∉ collected as) : distinct as < distinct (as ++ [a]) := by
  apply Finset.card_lt_card
  rw [collected_snoc, List.toFinset_append]
  refine Finset.ssubset_iff_subset_ne.2 ⟨Finset.subset_union_left, fun heq => hunseen ?_⟩
  have hmem := Finset.mem_union_right (collected as).toFinset (List.mem_toFinset.2 hnew)
  rw [← heq] at hmem
  exact List.mem_toFinset.1 hmem

/-- What keeps a discovery going: new addresses, and pages that look new. -/
def gains (as : List Attempt) : Nat := distinct as + repeatsFrom [] as

theorem gains_le_snoc (as : List Attempt) (a : Attempt) : gains as ≤ gains (as ++ [a]) := by
  rw [gains, gains, repeatsFrom_snoc]
  have hdistinct := distinct_le_snoc as a
  omega

theorem gains_lt_snoc (hmore : a.harvest.isLast = false) (hnew : a.harvest.found ≠ []) :
    gains as < gains (as ++ [a]) := by
  rw [gains, gains, repeatsFrom_snoc, List.nil_append]
  -- Either the page repeats what has been collected, or it has a server that is new.
  by_cases hseen : ∀ server ∈ a.harvest.found, server ∈ collected as
  · have hrepeats : a.repeats (collected as) = true := by
      simpa [Attempt.repeats, hmore, hnew] using hseen
    have hdistinct := distinct_le_snoc as a
    rw [hrepeats, Bool.toNat_true]
    omega
  · simp only [not_forall] at hseen
    obtain ⟨server, hmem, hunseen⟩ := hseen
    have hdistinct := distinct_lt_snoc hmem hunseen
    omega

namespace MasterServer

variable {r : Nat} {p : Progress} {w v : MasterServer × Network} {force : Bool} {start e : Endpoint}

/-- All attempts but the last ones in a row are paid for: an address that is given up, or something
that is gained, pays for as many of them as a page is asked for. -/
structure WithinBudget (r : Nat) (start : Endpoint) (as : List Attempt) (failed active : Nat) :
    Prop where
  le : start.active ≤ active
  length : as.length ≤ r * (active - start.active + gains as) + failed

theorem mul_add_le_mul {r x y : Nat} (h : x < y) : r * x + r ≤ r * y := by
  rw [← Nat.mul_succ]
  exact Nat.mul_le_mul_left r h

/-- However a discovery goes on, one more attempt is paid for by the addresses left. -/
theorem WithinBudget.length_le (h : WithinBudget r start as p.failed e.active)
    (he : e.addresses = start.addresses) (hlt : p.failed < r) :
    as.length + 1 ≤ r * (start.addresses.length - start.active + gains as) := by
  have hactive := e.active_lt
  rw [he] at hactive
  have hle := h.le
  have hpay : r * (e.active - start.active + gains as) + r ≤
      r * (start.addresses.length - start.active + gains as) := mul_add_le_mul (by omega)
  have hlength := h.length
  omega

theorem WithinBudget.snoc {q : Progress} {e : Endpoint}
    (h : WithinBudget r start as p.failed a.endpoint.active) (hlt : p.failed < r)
    (hleads : a.LeadsTo force r p (.ok (.resume q)) e) :
    WithinBudget r start (as ++ [a]) q.failed e.active := by
  have hle := h.le
  have hlength := h.length
  have hgains := gains_le_snoc as a
  cases hleads with
  | more hmore hnew =>
    have hgain : gains as < gains (as ++ [a]) := gains_lt_snoc hmore hnew
    have hpay : r * (a.endpoint.active - start.active + gains as) + r ≤
        r * (a.endpoint.active - start.active + gains (as ++ [a])) := mul_add_le_mul (by omega)
    refine ⟨hle, ?_⟩
    rw [List.length_append, List.length_singleton]
    omega
  | again hfailed hmore =>
    have hkeep : r * (a.endpoint.active - start.active + gains as) ≤
        r * (a.endpoint.active - start.active + gains (as ++ [a])) :=
      Nat.mul_le_mul_left r (by omega)
    have hfail : p.fail.failed = p.failed + 1 := rfl
    refine ⟨hle, ?_⟩
    rw [List.length_append, List.length_singleton, hfail]
    omega
  | elsewhere hfailed hlast hforce hnext =>
    have hactive := Endpoint.active_next_of_ne_zero hnext
    have hpay : r * (a.endpoint.active - start.active + gains as) + r ≤
        r * (a.endpoint.next.active - start.active + gains (as ++ [a])) :=
      mul_add_le_mul (by omega)
    refine ⟨by omega, ?_⟩
    rw [List.length_append, List.length_singleton]
    omega

theorem getServers_withinBudget (hw : w.1.IsBound) (hr : 0 < w.1.attempts w.2.settings)
    (limit : Nat) :
    Ends (getServers limit region filter force) w fun _ v =>
      let as := attemptsOf limit region filter force w
      AsksAtMost as.length w v ∧ as.length ≤ w.1.attempts w.2.settings *
        (w.1.endpoint.addresses.length - w.1.endpoint.active + gains as) := by
  refine ends_getServers
    (I := fun as p v => AsksAtMost as.length w v ∧ WithinBudget (w.1.attempts w.2.settings)
      w.1.endpoint as p.failed v.1.endpoint.active)
    (P := fun as _ v => AsksAtMost as.length w v ∧ as.length ≤ w.1.attempts w.2.settings *
      (w.1.endpoint.addresses.length - w.1.endpoint.active + gains as))
    hw hr ?_ ?_ limit ⟨Std.Refl.refl w, Nat.le_refl _, Nat.zero_le _⟩
  · rintro as p v harrived ⟨hasks, hbudget⟩
    have hlength := hbudget.length_le harrived.proceeds.addresses harrived.came.failed_lt
    exact ⟨hasks, Nat.le_of_succ_le hlength⟩
  · rintro as p v harrived ⟨hasks, hbudget⟩ a
    have hlt := harrived.came.failed_lt
    refine (step_asks v).imp fun res u hu hleads => ?_
    have hasks' : AsksAtMost (as ++ [a]).length w u := by
      rw [List.length_append]
      exact hasks.trans hu
    have hend : (as ++ [a]).length ≤ w.1.attempts w.2.settings *
        (w.1.endpoint.addresses.length - w.1.endpoint.active + gains (as ++ [a])) := by
      have hlength := hbudget.length_le harrived.proceeds.addresses hlt
      rw [List.length_append]
      refine hlength.trans (Nat.mul_le_mul_left _ (Nat.add_le_add_left (gains_le_snoc as a) _))
    cases res with
    | error e => exact ⟨hasks', hend⟩
    | ok next =>
      cases next with
      | finish servers => exact ⟨hasks', hend⟩
      | resume q => exact ⟨hasks', hbudget.snoc hlt hleads⟩

/-- A discovery sends at most as many requests as the addresses from its first one on, the different
addresses it collects and the pages that only repeat such addresses allow. -/
theorem length_asked_le {limit : Nat} {result : Except ClientError (List SocketAddressV4)}
    (hw : Reached w) (hsettings : w.2.settings.Attained)
    (h : Dialog.outcome (getServers limit region filter force) w = .ok result v) :
    let as := attemptsOf limit region filter force w
    let r := w.1.attempts w.2.settings
    let n := w.1.endpoint.addresses.length
    ∃ new, v.2.history = new ++ w.2.history ∧
      (asked new).length ≤ r * (n - w.1.endpoint.active + distinct as + repeatsFrom [] as) ∧
      (repeatsFrom [] as = 0 → (asked new).length ≤ r * (n + distinct as)) := by
  have hr := hw.attempts_pos hsettings
  obtain ⟨⟨new, hnew, hasked⟩, hlength⟩ :=
    (getServers_withinBudget hw.isBound hr limit).of_outcome h
  have hbound := hasked.trans hlength
  rw [gains, ← Nat.add_assoc] at hbound
  refine ⟨new, hnew, hbound, fun hnone => hbound.trans (Nat.mul_le_mul_left _ ?_)⟩
  omega

section Turning

def turningServer (number : UInt8) : SocketAddressV4 := ⟨⟨10, 0, 0, number⟩, gamePort⟩

/-- A master server that sends two servers in turn before it ends the list. -/
def turningPages : List (Option (List SocketAddressV4)) :=
  [some [turningServer 1], some [turningServer 2], some [turningServer 1], some [turningServer 2],
    some [sentinel]]

def turningStart : MasterServer × Network :=
  clientOf 1 (masterAddress 1) [] (.ofPages (fun _ => turningPages) [])

/-- The servers on the pages that have been received. -/
def received (history : List Event) : List SocketAddressV4 :=
  (exchanges history).flatMap fun
    | .answer _ (.ok page) => page.filter (· ≠ sentinel)
    | _ => []

/-- Two servers make a discovery with one attempt for a page send five requests. -/
theorem turning_asks_again : ∃ v,
    Reached turningStart ∧ turningStart.2.world.Opens turningStart.1.endpoint.addresses ∧
      Dialog.outcome (getServers 9 .world "" false) turningStart =
        .ok (.ok [turningServer 1, turningServer 2, turningServer 1, turningServer 2]) v ∧
      turningStart.1.attempts turningStart.2.settings * (turningStart.1.endpoint.addresses.length +
        (received v.2.history).toFinset.card) = 3 ∧ (asked v.2.history).length = 5 := by
  have hends : Ends (getServers 9 .world "" false) turningStart fun result v =>
      result = .ok [turningServer 1, turningServer 2, turningServer 1, turningServer 2] ∧
        turningStart.1.attempts turningStart.2.settings *
          (turningStart.1.endpoint.addresses.length + (received v.2.history).toFinset.card) = 3 ∧
        (asked v.2.history).length = 5 := by decide +kernel
  obtain ⟨result, v, hrun, rfl, hbound, hasked⟩ := hends.exists_outcome
  exact ⟨v, clientOf_reached 1 [] rfl, fun _ _ _ => rfl, hrun, hbound, hasked⟩

theorem length_asked_le_turning : ∃ v new,
    Reached turningStart ∧ turningStart.2.settings.Attained ∧
      Dialog.outcome (getServers 9 .world "" false) turningStart =
        .ok (.ok [turningServer 1, turningServer 2, turningServer 1, turningServer 2]) v ∧
      v.2.history = new ++ turningStart.2.history ∧ (asked new).length ≤ 5 := by
  have hends : Ends (getServers 9 .world "" false) turningStart fun result _ =>
      result = .ok [turningServer 1, turningServer 2, turningServer 1, turningServer 2] := by
    decide +kernel
  obtain ⟨result, v, hrun, rfl⟩ := hends.exists_outcome
  have hreached : Reached turningStart := clientOf_reached 1 [] rfl
  obtain ⟨new, hnew, hbound, -⟩ := length_asked_le hreached .initial hrun
  have hgains : turningStart.1.attempts turningStart.2.settings *
      (turningStart.1.endpoint.addresses.length - turningStart.1.endpoint.active +
        distinct (attemptsOf 9 .world "" false turningStart) +
        repeatsFrom [] (attemptsOf 9 .world "" false turningStart)) = 5 := by decide +kernel
  exact ⟨v, new, hreached, .initial, hrun, hnew, hbound.trans hgains.le⟩

end Turning

end MasterServer

end GameQuery
