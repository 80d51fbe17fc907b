import GameQuery.Proofs.HostNotation
import Mathlib.Data.List.Induction
import Mathlib.Data.List.Nodup
import Mathlib.Logic.Function.Iterate

namespace GameQuery

/-!
# The addresses of several hosts

An endpoint is made from a list of hosts. One text that denotes no host makes all of it fail; a host
that has no address only adds nothing. The addresses of all hosts come one behind the other, each
at its first place, and rotations go through them in a circle.
-/

/-! ## First places -/

section Firsts

variable {α : Type} [DecidableEq α]

/-- The values of a list, each of them once, in the order of their first places. -/
structure AreFirstsOf (all firsts : List α) : Prop where
  mem_iff : ∀ a, a ∈ firsts ↔ a ∈ all
  nodup : firsts.Nodup
  ordered : firsts.Pairwise fun a b => all.idxOf a < all.idxOf b

theorem eraseDups_concat (all : List α) (a : α) :
    (all ++ [a]).eraseDups = if a ∈ all then all.eraseDups else all.eraseDups ++ [a] := by
  rw [List.eraseDups_append]
  split
  · next h => simp [List.removeAll, h]
  · next h => simp [List.removeAll, h, List.eraseDups_cons]

theorem areFirstsOf_eraseDups (all : List α) : AreFirstsOf all all.eraseDups := by
  induction all using List.reverseRecOn with
  | nil => exact ⟨fun a => by simp, by simp, by simp⟩
  | append_singleton all a ih =>
    obtain ⟨hmem, hnodup, hordered⟩ := ih
    have hsame : ∀ b ∈ all, (all ++ [a]).idxOf b = all.idxOf b :=
      fun b hb => List.idxOf_append_of_mem hb
    have hall : all.eraseDups.Pairwise fun b c => (all ++ [a]).idxOf b < (all ++ [a]).idxOf c := by
      refine hordered.imp_of_mem fun hb hc hlt => ?_
      rwa [hsame _ ((hmem _).1 hb), hsame _ ((hmem _).1 hc)]
    rw [eraseDups_concat]
    split
    · next ha =>
      refine ⟨fun b => ?_, hnodup, hall⟩
      rw [hmem, List.mem_append, List.mem_singleton]
      exact ⟨.inl, fun h => h.elim id fun heq => heq ▸ ha⟩
    · next ha =>
      have hlast : (all ++ [a]).idxOf a = all.length := by
        rw [List.idxOf_append_of_notMem ha, List.idxOf_cons_self, Nat.add_zero]
      refine ⟨fun b => ?_, ?_, ?_⟩
      · rw [List.mem_append, List.mem_append, hmem]
      · rw [List.nodup_append]
        refine ⟨hnodup, List.nodup_singleton a, ?_⟩
        rintro b hb c hc rfl
        exact ha ((hmem _).1 (List.mem_singleton.1 hc ▸ hb))
      · rw [List.pairwise_append]
        refine ⟨hall, List.pairwise_singleton _ a, fun b hb c hc => ?_⟩
        have hb' := (hmem b).1 hb
        rw [List.mem_singleton.1 hc, hlast, hsame b hb']
        exact List.idxOf_lt_length_of_mem hb'

end Firsts

namespace Endpoint

/-! ## Rotations -/

section Rotations

variable (e : Endpoint) (k : Nat)

theorem addresses_iterate_next : (next^[k] e).addresses = e.addresses := by
  induction k with
  | zero => rfl
  | succ k ih => rw [Function.iterate_succ_apply', addresses_next, ih]

theorem active_iterate_next :
    (next^[k] e).active = (e.active + k) % e.addresses.length := by
  induction k with
  | zero => exact (Nat.mod_eq_of_lt e.active_lt).symm
  | succ k ih =>
    rw [Function.iterate_succ_apply', active_next, addresses_iterate_next, ih, Nat.mod_add_mod,
      Nat.add_assoc]

/-- The rotations of an endpoint go through its addresses in a circle. -/
structure Circles : Prop where
  active_lt : ∀ k, (next^[k] e).active < e.addresses.length
  address : ∀ k, e.addresses[k % e.addresses.length]? = some (next^[k] e).address
  atFirst_iff : ∀ k, (next^[k] e).atFirst = true ↔ e.addresses.length ∣ k

theorem circles_of_atFirst (h : e.active = 0) : Circles e := by
  have hactive : ∀ k, (next^[k] e).active = k % e.addresses.length := fun k => by
    rw [active_iterate_next, h, Nat.zero_add]
  constructor
  · intro k
    have hlt := (next^[k] e).active_lt
    rwa [addresses_iterate_next] at hlt
  · intro k
    have hget := (next^[k] e).getElem?_active
    rwa [addresses_iterate_next, hactive] at hget
  · intro k
    rw [atFirst, hactive, decide_eq_true_iff, Nat.dvd_iff_mod_eq_zero]

end Rotations

/-! ## Lists of hosts -/

variable {names : String → Option (List HostAddress)} {default : UInt16}
  {hosts before after : List String} {split : List (List Char × UInt16)}

/-- The texts of a list denote these hosts and ports. -/
def DenoteAll (default : UInt16) (hosts : List String) (split : List (List Char × UInt16)) : Prop :=
  List.Forall₂ (fun text part => Denotes default text.toList part.1 part.2) hosts split

/-- The addresses of hosts one behind the other. A host that cannot be looked up has none. -/
def allAddresses (names : String → Option (List HostAddress)) (split : List (List Char × UInt16)) :
    List SocketAddress :=
  split.flatMap fun part => (lookUp names part.1).map (·.withPort part.2)

theorem splitHosts_of_denoteAll (h : DenoteAll default hosts split) :
    splitHosts default hosts = .ok split := by
  induction h with
  | nil => rfl
  | cons htext _ ih =>
    rw [splitHosts, splitHost_eq_some_iff.2 htext, ih]
    rfl

theorem exists_denoteAll (h : ∀ text ∈ hosts, IsHostText text.toList) (default : UInt16) :
    ∃ split, DenoteAll default hosts split := by
  induction hosts with
  | nil => exact ⟨[], .nil⟩
  | cons text rest ih =>
    obtain ⟨htext, hrest⟩ := List.forall_mem_cons.1 h
    obtain ⟨host, port, hdenotes⟩ := (isHostText_iff default).1 htext
    obtain ⟨split, hsplit⟩ := ih hrest
    exact ⟨(host, port) :: split, .cons hdenotes hsplit⟩

theorem splitHosts_of_malformed {text : String} (hbefore : ∀ t ∈ before, IsHostText t.toList)
    (htext : ¬ IsHostText text.toList) :
    splitHosts default (before ++ text :: after) = .error (.noAddress text) := by
  induction before with
  | nil =>
    rw [List.nil_append, splitHosts, (splitHost_eq_none_iff default).2 htext]
  | cons first rest ih =>
    obtain ⟨hfirst, hrest⟩ := List.forall_mem_cons.1 hbefore
    obtain ⟨host, port, hdenotes⟩ := (isHostText_iff default).1 hfirst
    rw [List.cons_append, splitHosts, splitHost_eq_some_iff.2 hdenotes, ih hrest]
    rfl

theorem resolveAll_of_malformed {text : String} (hbefore : ∀ t ∈ before, IsHostText t.toList)
    (htext : ¬ IsHostText text.toList) :
    resolveAll names (before ++ text :: after) default = .error (.noAddress text) := by
  rw [resolveAll, splitHosts_of_malformed hbefore htext]

theorem resolveAll_of_denoteAll (h : DenoteAll default hosts split) :
    resolveAll names hosts default =
      ofAddresses (String.intercalate "," hosts) (allAddresses names split).eraseDups := by
  rw [resolveAll, splitHosts_of_denoteAll h]
  rfl

theorem ofAddresses_eraseDups_nil (host : String) :
    ofAddresses host ([] : List SocketAddress).eraseDups = .error (.noAddress host) := rfl

theorem ofAddresses_eraseDups {all : List SocketAddress} (h : all ≠ []) (host : String) :
    ∃ e, ofAddresses host all.eraseDups = .ok e ∧ e.host = host ∧
      AreFirstsOf all e.addresses ∧ e.active = 0 := by
  obtain ⟨a, ha⟩ := List.exists_mem_of_ne_nil all h
  have hfirsts := areFirstsOf_eraseDups all
  have hpos : 0 < all.eraseDups.length := List.length_pos_of_mem ((hfirsts.mem_iff a).2 ha)
  exact ⟨⟨host, all.eraseDups, 0, hpos⟩, dif_pos hpos, rfl, hfirsts, rfl⟩

/-- What becomes of a list of hosts. The first text that denotes no host is to blame for a failure,
and without such a text the whole list is, if no host in it has an address. Otherwise an endpoint
has the addresses of all hosts at their first places, and goes through them in a circle. -/
theorem resolveAll_account (names : String → Option (List HostAddress)) (default : UInt16)
    (hosts : List String) :
    (∀ before text after, hosts = before ++ text :: after →
      (∀ t ∈ before, IsHostText t.toList) → ¬ IsHostText text.toList →
      resolveAll names hosts default = .error (.noAddress text)) ∧
    ((∀ text ∈ hosts, IsHostText text.toList) → ∃ split, DenoteAll default hosts split ∧
      if allAddresses names split = [] then
        resolveAll names hosts default = .error (.noAddress (String.intercalate "," hosts))
      else ∃ e, resolveAll names hosts default = .ok e ∧ e.host = String.intercalate "," hosts ∧
        AreFirstsOf (allAddresses names split) e.addresses ∧ e.Circles) := by
  constructor
  · rintro before text after rfl hbefore htext
    exact resolveAll_of_malformed hbefore htext
  · intro hall
    obtain ⟨split, hsplit⟩ := exists_denoteAll hall default
    refine ⟨split, hsplit, ?_⟩
    have hresolve : resolveAll names hosts default = _ := resolveAll_of_denoteAll hsplit
    split
    · next hempty => rw [hresolve, hempty, ofAddresses_eraseDups_nil]
    · next hsome =>
      obtain ⟨e, he, hhost, hfirsts, hactive⟩ :=
        ofAddresses_eraseDups hsome (String.intercalate "," hosts)
      exact ⟨e, hresolve.trans he, hhost, hfirsts, e.circles_of_atFirst hactive⟩

section Mirrored

def mirrorNames : String → Option (List HostAddress)
  | "mirror" => some [.v4 ⟨192, 0, 2, 1⟩, .v4 ⟨192, 0, 2, 2⟩]
  | _ => none

def mirrorHosts : List String := ["mirror", "192.0.2.1", "unknown:80", "[192.0.2.3]:80", "mirror"]

theorem resolveAll_account_mirrored :
    (¬ IsHostText "mirror:port".toList ∧ resolveAll mirrorNames
      (mirrorHosts ++ "mirror:port" :: ["[::1", "mirror"]) gamePort =
        .error (.noAddress "mirror:port")) ∧
    (∀ text ∈ mirrorHosts, IsHostText text.toList) ∧
    ∃ split, DenoteAll gamePort mirrorHosts split ∧
      if allAddresses mirrorNames split = [] then
        resolveAll mirrorNames mirrorHosts gamePort =
          .error (.noAddress (String.intercalate "," mirrorHosts))
      else ∃ e, resolveAll mirrorNames mirrorHosts gamePort = .ok e ∧
        e.host = String.intercalate "," mirrorHosts ∧
        AreFirstsOf (allAddresses mirrorNames split) e.addresses ∧ e.Circles := by
  have hhosts : ∀ text ∈ mirrorHosts, IsHostText text.toList := by decide +kernel
  have hport : ¬ IsHostText "mirror:port".toList := by decide +kernel
  have hfails := (resolveAll_account mirrorNames gamePort
    (mirrorHosts ++ "mirror:port" :: ["[::1", "mirror"])).1 _ _ _ rfl hhosts hport
  exact ⟨⟨hport, hfails⟩, hhosts, (resolveAll_account mirrorNames gamePort mirrorHosts).2 hhosts⟩

end Mirrored

end Endpoint

end GameQuery
