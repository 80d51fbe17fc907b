import GameQuery.Proofs.AddressText
import GameQuery.Proofs.DialogLaws
import GameQuery.Proofs.HostOrder
import GameQuery.QueryTool
import Mathlib.Data.Finset.Sort

namespace GameQuery

/-!
# The list of servers

Texts are sorted by a comparison that reads them as addresses, and equal neighbours are dropped.
Since the text of an address is read back, the comparison is the one of the addresses as numbers,
and equal texts are equal addresses. So what is listed is the set of the addresses in their order,
whatever a discovery found first or twice.
-/

/-! ## The order of addresses -/

def Ipv4.number (ip : Ipv4) : Nat :=
  ip.a.toNat * 2 ^ 24 + ip.b.toNat * 2 ^ 16 + ip.c.toNat * 2 ^ 8 + ip.d.toNat

namespace SocketAddressV4

def printed (a : SocketAddressV4) : String := String.ofList a.text

/-- The number of the IP address counts first, then the port. -/
def IsBefore (a b : SocketAddressV4) : Prop :=
  a.ip.number < b.ip.number ∨ a.ip.number = b.ip.number ∧ a.port.toNat < b.port.toNat

def number (a : SocketAddressV4) : Nat := a.ip.number * 2 ^ 16 + a.port.toNat

theorem number_lt_number {a b : SocketAddressV4} : a.number < b.number ↔ a.IsBefore b := by
  have ha := a.port.toNat_lt
  have hb := b.port.toNat_lt
  rw [number, number, IsBefore]
  omega

theorem number_injective : Function.Injective number := by
  intro ⟨⟨a, b, c, d⟩, p⟩ ⟨⟨a', b', c', d'⟩, p'⟩ h
  simp only [number, Ipv4.number] at h
  have := a.toNat_lt
  have := b.toNat_lt
  have := c.toNat_lt
  have := d.toNat_lt
  have := p.toNat_lt
  have := a'.toNat_lt
  have := b'.toNat_lt
  have := c'.toNat_lt
  have := d'.toNat_lt
  have := p'.toNat_lt
  simp only [SocketAddressV4.mk.injEq, Ipv4.mk.injEq, ← UInt8.toNat_inj, ← UInt16.toNat_inj]
  omega

instance : LinearOrder SocketAddressV4 := LinearOrder.lift' number number_injective

theorem lt_iff {a b : SocketAddressV4} : a < b ↔ a.IsBefore b := number_lt_number

theorem compare_key (a b : SocketAddressV4) :
    compare (SocketAddress.v4 a).key (SocketAddress.v4 b).key = .lt ↔ a < b := by
  obtain ⟨⟨a₁, a₂, a₃, a₄⟩, p⟩ := a
  obtain ⟨⟨b₁, b₂, b₃, b₄⟩, q⟩ := b
  have := a₂.toNat_lt
  have := a₃.toNat_lt
  have := a₄.toNat_lt
  have := b₂.toNat_lt
  have := b₃.toNat_lt
  have := b₄.toNat_lt
  rw [lt_iff, IsBefore]
  simp only [SocketAddress.key, Ipv4.number, List.compare_cons_cons, List.compare_nil_nil,
    Ordering.then_eq_lt, compare_lt_iff_lt, compare_eq_iff_eq, Nat.lt_irrefl, reduceCtorEq,
    true_and, false_or, and_false, or_false]
  omega

theorem parse?_printed (a : SocketAddressV4) :
    SocketAddress.parse? a.printed.toList = some (.v4 a) := by
  have h := TextReader.socketV4_append a Text.endsNumber_nil
  rw [List.append_nil] at h
  rw [printed, String.toList_ofList, SocketAddress.parse?, TextReader.whole, TextReader.socket, h]

theorem printed_injective : Function.Injective printed := by
  intro a b h
  have hparse := parse?_printed a
  rw [h, parse?_printed b] at hparse
  cases hparse
  rfl

theorem address_printed (a : SocketAddressV4) :
    (HostText.ofText a.printed).address = some (.v4 a) := by
  simp only [HostText.ofText, parse?_printed]

theorem order_printed (a b : SocketAddressV4) :
    HostText.order a.printed b.printed ≠ .gt ↔ a ≤ b := by
  rw [Ne, HostText.order_eq_gt, HostText.order_of_addresses (address_printed b) (address_printed a),
    compare_key, not_lt]

end SocketAddressV4

/-! ## The sorted list -/

section Repeats

variable {α β : Type} [DecidableEq α] [DecidableEq β]

theorem dropRepeats_map {f : α → β} (hf : Function.Injective f) (items : List α) :
    dropRepeats (items.map f) = (dropRepeats items).map f := by
  fun_induction dropRepeats items with
  | case1 a rest ih =>
    rw [← ih, List.map_cons, List.map_cons, dropRepeats, if_pos rfl]
  | case2 a b rest hab ih =>
    rw [List.map_cons, List.map_cons, List.map_cons, ← ih, dropRepeats, if_neg (hf.ne hab),
      List.map_cons]
  | case3 items h =>
    match items with
    | [] => rfl
    | [_] => rfl
    | a :: b :: rest => exact (h a b rest rfl).elim

/-- Without equal neighbours, a list in order goes up with every step. -/
theorem pairwise_dropRepeats [PartialOrder α] {items : List α} (h : items.Pairwise (· ≤ ·)) :
    (dropRepeats items).Pairwise (· < ·) := by
  fun_induction dropRepeats items with
  | case1 a rest ih => exact ih (List.pairwise_cons.1 h).2
  | case2 a b rest hab ih =>
    obtain ⟨ha, hrest⟩ := List.pairwise_cons.1 h
    have hlt : a < b := lt_of_le_of_ne (ha b List.mem_cons_self) hab
    refine List.pairwise_cons.2 ⟨fun c hc => ?_, ih hrest⟩
    rcases List.mem_cons.1 (mem_dropRepeats.1 hc) with rfl | hc
    · exact hlt
    · exact hlt.trans_le ((List.pairwise_cons.1 hrest).1 c hc)
  | case3 items hitems =>
    cases items with
    | nil => exact List.Pairwise.nil
    | cons a items =>
      cases items with
      | nil => exact List.pairwise_singleton _ a
      | cons b rest => exact (hitems a b rest rfl).elim

end Repeats

open SocketAddressV4

/-- The texts of some addresses, in the order of the addresses. -/
def listing (servers : Finset SocketAddressV4) : List String :=
  (servers.sort (· ≤ ·)).map printed

/-- Texts that are read as exactly these addresses, each of which is before those behind it. -/
def Lists (texts : List String) (servers : Finset SocketAddressV4) : Prop :=
  ∃ addresses : List SocketAddressV4, addresses.toFinset = servers ∧
    addresses.Pairwise IsBefore ∧
    texts.map (fun text => SocketAddress.parse? text.toList) =
      addresses.map fun a => some (SocketAddress.v4 a)

theorem listing_lists (servers : Finset SocketAddressV4) : Lists (listing servers) servers := by
  refine ⟨servers.sort (· ≤ ·), servers.sort_toFinset _, ?_, ?_⟩
  · exact servers.sortedLT_sort.pairwise.imp lt_iff.1
  · rw [listing, List.map_map]
    refine List.map_congr_left fun a _ => ?_
    rw [Function.comp_apply]
    exact parse?_printed a

theorem sortByHost_printed (servers : List SocketAddressV4) :
    sortByHost id (servers.map printed) = (sortByHost printed servers).map printed := by
  rw [HostText.sortByHost_eq, HostText.sortByHost_eq, sortBy_map]
  rfl

theorem pairwise_sortByHost_printed (servers : List SocketAddressV4) :
    (sortByHost printed servers).Pairwise (· ≤ ·) := by
  have haddress : ∀ text ∈ Set.range printed, HostText.IsAddress text := by
    rintro text ⟨a, rfl⟩
    rw [HostText.IsAddress, address_printed]
    rfl
  have htransitive : HostText.TransitiveOn (Set.range printed) := fun a ha b hb c hc =>
    HostText.order_trans_of_addresses (haddress a ha) (haddress b hb) (haddress c hc)
  exact (HostText.pairwise_sortByHost htransitive fun a _ => Set.mem_range_self a).imp
    (order_printed _ _).1

theorem dropRepeats_sortByHost (servers : List SocketAddressV4) :
    dropRepeats (sortByHost id (servers.map printed)) = listing servers.toFinset := by
  have hsorted := (pairwise_dropRepeats (pairwise_sortByHost_printed servers)).sortedLT
  have hsame : dropRepeats (sortByHost printed servers) = servers.toFinset.sort (· ≤ ·) := by
    apply hsorted.eq_of_mem_iff servers.toFinset.sortedLT_sort
    intro a
    rw [mem_dropRepeats, (perm_sortByHost printed servers).mem_iff, Finset.mem_sort,
      List.mem_toFinset]
  rw [sortByHost_printed, dropRepeats_map printed_injective, hsame, listing]

example : dropRepeats (sortByHost id ["10.0.0.10:80", "10.0.0.9:80", "10.0.0.10:80"]) =
    ["10.0.0.9:80", "10.0.0.10:80"] := by decide +kernel

/-! ## What a job lists -/

open Dialog

namespace Job

def search (j : Job) : Dialog MasterServer (List SocketAddressV4) :=
  MasterServer.getServers j.limit j.config.region (String.ofList j.arguments.filter.text)
    j.arguments.force

/-- The discovery of a job: its outcome, if there are sockets to the master servers. -/
def discover (j : Job) : Dialog Unit (Except ClientError (List SocketAddressV4)) := do
  let n ← Dialog.network
  let endpoint ←
    Dialog.ofExcept (Endpoint.resolveAll n.world.resolve j.config.masters masterPort)
  let master ← MasterServer.connect endpoint
  Dialog.within (master.setRetries j.arguments.retries) (Dialog.outcome j.search)

/-- What a job lists for the outcome of its discovery. -/
def listed : Except ClientError (List SocketAddressV4) → Except ClientError (List String)
  | .ok servers => .ok (listing servers.toFinset)
  | .error (.exhausted _ servers) => .ok (listing servers.toFinset)
  | .error e => .error e

/-- What a job makes of the outcome of its discovery, at the master server that was asked last. -/
def settle : Except ClientError (List SocketAddressV4) → Dialog MasterServer (List SocketAddressV4)
  | .ok servers => return servers
  | .error (.exhausted attempts servers) => do
    MasterServer.noteEndpoint .warn ("discovery stopped after " ++ toString attempts ++
      " failed attempts, " ++ toString servers.length ++ " servers received")
    return servers
  | .error e => throw e

theorem settle_ends (found : Except ClientError (List SocketAddressV4))
    (w : MasterServer × Network) : Ends (settle found) w fun r _ =>
      r.map (fun servers => dropRepeats (sortByHost id (servers.map printed))) = listed found := by
  unfold settle
  split
  · next servers => exact congrArg Except.ok (dropRepeats_sortByHost servers)
  · next attempts servers => exact congrArg Except.ok (dropRepeats_sortByHost servers)
  · next e he => exact (listed.eq_3 e he).symm

theorem fetchServers_listed (j : Job) (w : Unit × Network) :
    Ends j.discover w fun found _ => Ends j.fetchServers w fun r _ => r = found.bind listed := by
  unfold discover
  apply ends_network_bind
  cases hendpoint : Endpoint.resolveAll w.2.world.resolve j.config.masters masterPort with
  | error e =>
    apply ends_throw
    apply ends_network_bind
    rw [hendpoint]
    exact ends_throw rfl
  | ok endpoint =>
    have hfetch : j.fetchServers w = (do
        let master ← MasterServer.connect endpoint
        let servers ← within (master.setRetries j.arguments.retries)
          (Dialog.outcome j.search >>= settle)
        return dropRepeats (sortByHost id (servers.map printed))) w := by
      rw [fetchServers, network_bind, hendpoint]
      rfl
    rw [Dialog.ofExcept, pure_bind]
    cases hmaster : (MasterServer.connect endpoint : Dialog Unit MasterServer) w with
    | error e v =>
      exact ends_of_error (bind_of_error hmaster _)
        (ends_of_error (hfetch.trans (bind_of_error hmaster _)) rfl)
    | ok master v =>
      rw [bind_of_ok hmaster] at hfetch
      have hsearch : Ends j.search (master.setRetries j.arguments.retries, v.2) fun _ _ => True :=
        ends_of_forall fun _ _ => trivial
      obtain ⟨found, u, hfound, -⟩ := hsearch.exists_outcome
      have hlisted : Ends (within (master.setRetries j.arguments.retries)
          (Dialog.outcome j.search >>= settle) >>= fun servers =>
          return dropRepeats (sortByHost id (servers.map printed))) v
          fun r _ => r = listed found := by
        refine Ends.bind (Q := fun r _ => r.map (fun servers =>
          dropRepeats (sortByHost id (servers.map printed))) = listed found) ?_ ?_ ?_
        · apply Ends.within
          exact ends_bind_of_ok hfound (settle_ends found u)
        · exact fun servers _ h => ends_pure h
        · exact fun e _ h => h
      apply ends_bind_of_ok hmaster
      apply Ends.within
      apply ends_of_ok hfound
      rw [Ends, hfetch]
      exact hlisted

/-- Whatever a discovery comes to, with all servers or with those there were until it gave up: what
is listed are the texts of the set of these servers, each of them once and in their order. Any other
error of a discovery is the error of the job. -/
theorem fetchServers_lists (j : Job) (w : Unit × Network) :
    Ends j.discover w fun found _ => Ends j.fetchServers w fun r _ =>
      match found with
      | .ok (.ok servers) | .ok (.error (.exhausted _ servers)) =>
        r = .ok (listing servers.toFinset) ∧ Lists (listing servers.toFinset) servers.toFinset
      | .ok (.error e) | .error e => r = .error e := by
  refine (fetchServers_listed j w).imp fun found _ h => h.imp fun r _ hr => ?_
  split
  · next servers => exact ⟨hr, listing_lists _⟩
  · next servers => exact ⟨hr, listing_lists _⟩
  · next e he => exact hr.trans (listed.eq_3 e he)
  · exact hr

end Job

end GameQuery
