import GameQuery.Net.AddressOrder
import Mathlib.Data.List.Forall2
import Mathlib.Data.Set.Basic
import Mathlib.Data.String.Basic

namespace GameQuery

/-!
# When the order of hosts is one

Two addresses are compared as addresses, and any other two hosts by their texts. The comparison
turns around with its arguments. It is transitive on some hosts exactly when no host that is no
address stands, by its text, between two addresses that are in the other order as addresses.
On such hosts the sorted list does not depend on the order in which they come.
-/

/-! ## Sorting by insertion -/

section Insertion

variable {α β : Type}

theorem insertDescending_map (f : α → β) (less : β → β → Bool) (a : α) (items : List α) :
    insertDescending less (f a) (items.map f) =
      (insertDescending (fun x y => less (f x) (f y)) a items).map f := by
  induction items with
  | nil => rfl
  | cons b rest ih =>
    rw [List.map_cons, insertDescending, insertDescending, ih]
    split <;> rfl

theorem sortBy_map (f : α → β) (less : β → β → Bool) (items : List α) :
    sortBy less (items.map f) = (sortBy (fun x y => less (f x) (f y)) items).map f := by
  have hfold : ∀ sorted : List α,
      (items.map f).foldl (fun sorted a => insertDescending less a sorted) (sorted.map f) =
        (items.foldl (fun sorted a => insertDescending (fun x y => less (f x) (f y)) a sorted)
          sorted).map f := by
    induction items with
    | nil => exact fun _ => rfl
    | cons a rest ih =>
      intro sorted
      rw [List.map_cons, List.foldl_cons, List.foldl_cons, insertDescending_map]
      exact ih _
  rw [sortBy, sortBy, List.map_reverse, ← hfold []]
  rfl

variable {less : α → α → Bool} {le : α → α → Prop} {P : α → Prop}

theorem pairwise_insertDescending (hless : ∀ a b, less a b = true → le a b)
    (hnot : ∀ a b, less a b = false → le b a)
    (htrans : ∀ a b c, P a → P b → P c → le a b → le b c → le a c) {a : α} (ha : P a)
    {items : List α} (hitems : ∀ b ∈ items, P b) (h : items.Pairwise fun x y => le y x) :
    (insertDescending less a items).Pairwise fun x y => le y x := by
  induction items with
  | nil => exact List.pairwise_singleton _ a
  | cons b rest ih =>
    obtain ⟨hb, hrest⟩ := List.pairwise_cons.1 h
    have hP : ∀ c ∈ rest, P c := fun c hc => hitems c (List.mem_cons_of_mem b hc)
    rw [insertDescending]
    split
    · next hab =>
      refine List.pairwise_cons.2 ⟨fun c hc => ?_, ih hP hrest⟩
      rcases List.mem_cons.1 ((perm_insertDescending less a rest).mem_iff.1 hc) with rfl | hc
      · exact hless c b hab
      · exact hb c hc
    · next hab =>
      have hba : le b a := hnot a b (Bool.eq_false_iff.2 hab)
      refine List.pairwise_cons.2 ⟨fun c hc => ?_, h⟩
      rcases List.mem_cons.1 hc with rfl | hc
      · exact hba
      · exact htrans c b a (hP c hc) (hitems b List.mem_cons_self) ha (hb c hc) hba

theorem pairwise_sortBy (hless : ∀ a b, less a b = true → le a b)
    (hnot : ∀ a b, less a b = false → le b a)
    (htrans : ∀ a b c, P a → P b → P c → le a b → le b c → le a c)
    {items : List α} (hitems : ∀ b ∈ items, P b) : (sortBy less items).Pairwise le := by
  have hfold : ∀ sorted : List α, (∀ b ∈ sorted, P b) → sorted.Pairwise (fun x y => le y x) →
      (items.foldl (fun sorted a => insertDescending less a sorted) sorted).Pairwise
        fun x y => le y x := by
    induction items with
    | nil => exact fun _ _ h => h
    | cons a rest ih =>
      intro sorted hsorted h
      have ha : P a := hitems a List.mem_cons_self
      refine ih (fun b hb => hitems b (List.mem_cons_of_mem a hb)) _ (fun b hb => ?_)
        (pairwise_insertDescending hless hnot htrans ha hsorted h)
      rcases List.mem_cons.1 ((perm_insertDescending less a sorted).mem_iff.1 hb) with rfl | hb
      · exact ha
      · exact hsorted b hb
  exact List.pairwise_reverse.2 (hfold [] (fun b hb => absurd hb List.not_mem_nil) List.Pairwise.nil)

theorem countP_below_le [DecidableRel le] {l : List α} (hl : l.Pairwise le)
    (hrefl : ∀ a, le a a) {b : α} (htrans : ∀ a ∈ l, ∀ c ∈ l, le a c → le c b → le a b)
    {i : Nat} (hi : i < l.length) (hnot : ¬ le l[i] b) : l.countP (le · b) ≤ i := by
  have hdrop : (l.drop i).countP (le · b) = 0 := by
    refine List.countP_eq_zero.2 fun c hc hbelow => hnot ?_
    have hac : le l[i] c := by
      rw [List.drop_eq_getElem_cons hi] at hc
      rcases List.mem_cons.1 hc with rfl | hc'
      · exact hrefl _
      · have hpair := hl.sublist (List.drop_sublist i l)
        rw [List.drop_eq_getElem_cons hi] at hpair
        exact (List.pairwise_cons.1 hpair).1 c hc'
    exact htrans _ (List.getElem_mem hi) c (List.mem_of_mem_drop hc) hac
      (of_decide_eq_true hbelow)
  rw [← List.take_append_drop i l, List.countP_append, hdrop, Nat.add_zero]
  exact Nat.le_trans List.countP_le_length (List.length_take_le i l)

theorem lt_countP_below [DecidableRel le] {m : List α} (hm : m.Pairwise le)
    (hrefl : ∀ a, le a a) {i : Nat} (hi : i < m.length) : i < m.countP (le · m[i]) := by
  have htake : (m.take (i + 1)).countP (le · m[i]) = (m.take (i + 1)).length := by
    refine List.countP_eq_length.2 fun c hc => decide_eq_true ?_
    rw [List.take_succ_eq_append_getElem hi] at hc
    rcases List.mem_append.1 hc with hc | hc
    · have hpair := hm.sublist (List.take_sublist (i + 1) m)
      rw [List.take_succ_eq_append_getElem hi] at hpair
      exact (List.pairwise_append.1 hpair).2.2 c hc _ (List.mem_singleton.2 rfl)
    · rw [List.mem_singleton.1 hc]
      exact hrefl _
  have hle := (List.take_sublist (i + 1) m).countP_le (p := (le · m[i]))
  rw [htake, List.length_take, Nat.min_eq_left hi] at hle
  exact hle

/-- In two lists of the same values that are both in order, every value is at most the one at its
place in the other list: fewer values are below it. -/
theorem le_of_pairwise_of_perm {l m : List α} (hperm : l.Perm m) (hl : l.Pairwise le)
    (hm : m.Pairwise le) (hrefl : ∀ a, le a a)
    (htrans : ∀ a ∈ l, ∀ b ∈ l, ∀ c ∈ l, le a b → le b c → le a c)
    {i : Nat} (hi : i < l.length) (hi' : i < m.length) : le l[i] m[i] := by
  classical
  by_contra hnot
  have hmem : m[i] ∈ l := hperm.mem_iff.2 (List.getElem_mem hi')
  have hleft := countP_below_le hl hrefl (fun a ha c hc => htrans a ha c hc _ hmem) hi hnot
  have hright := lt_countP_below hm hrefl hi'
  rw [hperm.countP_eq] at hleft
  exact Nat.lt_irrefl _ (Nat.lt_of_lt_of_le hright hleft)

end Insertion

/-! ## Hosts -/

namespace HostText

def order (a b : String) : Ordering := compare (ofText a) (ofText b)

/-- Whether a host is given as an address with a port. -/
def IsAddress (host : String) : Prop := (ofText host).address.isSome

/-- On these hosts "not greater" can be chained. -/
def TransitiveOn (hosts : Set String) : Prop :=
  ∀ a ∈ hosts, ∀ b ∈ hosts, ∀ c ∈ hosts, order a b ≠ .gt → order b c ≠ .gt → order a c ≠ .gt

/-- Every host that is no address stands outside of any two addresses, or between two that are in
the same order as their texts. -/
def KeepsApart (hosts : Set String) : Prop :=
  ∀ x ∈ hosts, ∀ y ∈ hosts, ∀ z ∈ hosts, IsAddress x → IsAddress y → ¬ IsAddress z →
    x < z → z < y → order x y = .lt

variable {a b c : String}

theorem order_eq (a b : String) : order a b =
    match (ofText a).address, (ofText b).address with
    | some x, some y => compare x.key y.key
    | _, _ => compare a b := rfl

theorem order_of_addresses {x y : SocketAddress} (ha : (ofText a).address = some x)
    (hb : (ofText b).address = some y) : order a b = compare x.key y.key := by
  rw [order_eq, ha, hb]

theorem order_of_texts (h : ¬ (IsAddress a ∧ IsAddress b)) : order a b = compare a b := by
  rw [order_eq]
  split
  · next x y ha hb =>
    rw [IsAddress, IsAddress, ha, hb] at h
    exact absurd ⟨rfl, rfl⟩ h
  · rfl

theorem order_swap (a b : String) : order a b = (order b a).swap := by
  by_cases h : IsAddress a ∧ IsAddress b
  · obtain ⟨x, hx⟩ := Option.isSome_iff_exists.1 h.1
    obtain ⟨y, hy⟩ := Option.isSome_iff_exists.1 h.2
    rw [order_of_addresses hx hy, order_of_addresses hy hx]
    exact Std.OrientedCmp.eq_swap
  · rw [order_of_texts h, order_of_texts fun h' => h ⟨h'.2, h'.1⟩]
    exact Std.OrientedCmp.eq_swap

theorem order_self (a : String) : order a a = .eq := Ordering.eq_eq_of_eq_swap (order_swap a a)

theorem order_eq_gt : order a b = .gt ↔ order b a = .lt := by
  rw [order_swap, Ordering.swap_eq_gt]

theorem order_ne_gt_of_texts (h : ¬ (IsAddress a ∧ IsAddress b)) : order a b ≠ .gt ↔ a ≤ b := by
  rw [order_of_texts h, Ne, compare_gt_iff_gt, not_lt]

theorem order_trans_of_addresses (ha : IsAddress a) (hb : IsAddress b) (hc : IsAddress c)
    (hab : order a b ≠ .gt) (hbc : order b c ≠ .gt) : order a c ≠ .gt := by
  obtain ⟨x, hx⟩ := Option.isSome_iff_exists.1 ha
  obtain ⟨y, hy⟩ := Option.isSome_iff_exists.1 hb
  obtain ⟨z, hz⟩ := Option.isSome_iff_exists.1 hc
  rw [order_of_addresses hx hy] at hab
  rw [order_of_addresses hy hz] at hbc
  rw [order_of_addresses hx hz]
  exact Ordering.isLE_iff_ne_gt.1 (Std.TransCmp.isLE_trans (Ordering.isLE_iff_ne_gt.2 hab)
    (Ordering.isLE_iff_ne_gt.2 hbc))

/-- An address and a host that is none are different texts. -/
theorem lt_of_le_of_isAddress (hle : a ≤ b) (h : ¬ (IsAddress a ↔ IsAddress b)) : a < b :=
  lt_of_le_of_ne hle fun heq => h (by rw [heq])

variable {hosts : Set String}

theorem TransitiveOn.keepsApart (h : TransitiveOn hosts) : KeepsApart hosts := by
  intro x hx y hy z hz hxa hya hza hxz hzy
  have hxz' : order x z ≠ .gt := (order_ne_gt_of_texts fun h' => hza h'.2).2 hxz.le
  have hzy' : order z y ≠ .gt := (order_ne_gt_of_texts fun h' => hza h'.1).2 hzy.le
  cases hxy : order x y with
  | lt => rfl
  | gt => exact absurd hxy (h x hx z hz y hy hxz' hzy')
  | eq =>
    -- Equal addresses with different texts: what is between the texts would be on both sides.
    have hyx : order y x ≠ .gt := by
      rw [order_swap, hxy]
      decide
    have hyz := (order_ne_gt_of_texts fun h' => hza h'.2).1 (h y hy x hx z hz hyx hxz')
    exact absurd hzy hyz.not_gt

theorem KeepsApart.transitiveOn (h : KeepsApart hosts) : TransitiveOn hosts := by
  intro a ha b hb c hc hab hbc
  -- Numbers and texts only mix if exactly two of the three hosts are addresses.
  by_cases hfirst : IsAddress a ∧ IsAddress b
  · obtain ⟨haa, hba⟩ := hfirst
    by_cases hca : IsAddress c
    · exact order_trans_of_addresses haa hba hca hab hbc
    · rw [order_ne_gt_of_texts fun h' => hca h'.2] at hbc ⊢
      by_contra hlt
      have hbc' : b < c := lt_of_le_of_isAddress hbc fun h' => hca (h'.1 hba)
      exact hab (order_eq_gt.2 (h b hb a ha c hc hba haa hca hbc' (not_le.1 hlt)))
  rw [order_ne_gt_of_texts hfirst] at hab
  by_cases hlast : IsAddress b ∧ IsAddress c
  · obtain ⟨hba, hca⟩ := hlast
    have haa : ¬ IsAddress a := fun haa => hfirst ⟨haa, hba⟩
    rw [order_ne_gt_of_texts fun h' => haa h'.1]
    by_contra hlt
    have hab' : a < b := lt_of_le_of_isAddress hab fun h' => haa (h'.2 hba)
    exact hbc (order_eq_gt.2 (h c hc b hb a ha hca hba haa (not_le.1 hlt) hab'))
  rw [order_ne_gt_of_texts hlast] at hbc
  by_cases hends : IsAddress a ∧ IsAddress c
  · obtain ⟨haa, hca⟩ := hends
    have hba : ¬ IsAddress b := fun hba => hfirst ⟨haa, hba⟩
    have hab' : a < b := lt_of_le_of_isAddress hab fun h' => hba (h'.1 haa)
    have hbc' : b < c := lt_of_le_of_isAddress hbc fun h' => hba (h'.2 hca)
    rw [h a ha c hc b hb haa hca hba hab' hbc']
    decide
  · rw [order_ne_gt_of_texts hends]
    exact hab.trans hbc

/-! ## Sorted hosts -/

section Sorted

variable {α : Type} {host : α → String}

theorem sortByHost_eq (host : α → String) (items : List α) :
    sortByHost host items = sortBy (fun a b => order (host a) (host b) = .lt) items := by
  rw [sortByHost, sortBy_map (fun a => (ofText (host a), a)), List.map_map]
  exact List.map_id _

theorem pairwise_sortByHost (h : TransitiveOn hosts) {items : List α}
    (hitems : ∀ a ∈ items, host a ∈ hosts) :
    (sortByHost host items).Pairwise fun a b => order (host a) (host b) ≠ .gt := by
  rw [sortByHost_eq]
  refine pairwise_sortBy (P := fun a => host a ∈ hosts) (fun a b hab => ?_) (fun a b hab => ?_)
    (fun a b c ha hb hc => h _ ha _ hb _ hc) hitems
  · rw [of_decide_eq_true hab]
    decide
  · exact mt order_eq_gt.1 (of_decide_eq_false hab)

/-- Whatever order hosts come in, the same ones are at the same places of the sorted list, up to
hosts that are equal in the order. -/
theorem sortByHost_perm (h : TransitiveOn hosts) {items items' : List α}
    (hitems : ∀ a ∈ items, host a ∈ hosts) (hperm : items.Perm items') :
    List.Forall₂ (fun a b => order (host a) (host b) = .eq) (sortByHost host items)
      (sortByHost host items') := by
  have hitems' : ∀ a ∈ items', host a ∈ hosts := fun a ha => hitems a (hperm.mem_iff.2 ha)
  have hsorted := (perm_sortByHost host items).trans
    (hperm.trans (perm_sortByHost host items').symm)
  have hmem : ∀ a ∈ sortByHost host items, host a ∈ hosts := fun a ha =>
    hitems a ((perm_sortByHost host items).mem_iff.1 ha)
  have hmem' : ∀ a ∈ sortByHost host items', host a ∈ hosts := fun a ha =>
    hitems' a ((perm_sortByHost host items').mem_iff.1 ha)
  have hrefl : ∀ a, order (host a) (host a) ≠ .gt := fun a => by
    rw [order_self]
    decide
  refine List.forall₂_iff_get.2 ⟨hsorted.length_eq, fun i hi hi' => ?_⟩
  have hle := le_of_pairwise_of_perm hsorted (pairwise_sortByHost h hitems)
    (pairwise_sortByHost h hitems') hrefl
    (fun a ha b hb c hc => h _ (hmem a ha) _ (hmem b hb) _ (hmem c hc)) hi hi'
  have hge := le_of_pairwise_of_perm hsorted.symm (pairwise_sortByHost h hitems')
    (pairwise_sortByHost h hitems) hrefl
    (fun a ha b hb c hc => h _ (hmem' a ha) _ (hmem' b hb) _ (hmem' c hc)) hi' hi
  rw [List.get_eq_getElem, List.get_eq_getElem]
  cases heq : order (host (sortByHost host items)[i]) (host (sortByHost host items')[i]) with
  | lt => exact absurd (order_eq_gt.2 heq) hge
  | eq => rfl
  | gt => exact absurd heq hle

end Sorted

/-- The order turns around with its arguments. It is transitive exactly on those hosts among which
no host that is no address stands between two addresses that are not in the order of their texts;
and then the sorted list is the same for every order in which the hosts come. -/
theorem transitiveOn_iff_keepsApart (hosts : Set String) :
    (∀ a b, order a b = (order b a).swap) ∧ (TransitiveOn hosts ↔ KeepsApart hosts) ∧
      (TransitiveOn hosts → ∀ (α : Type) (host : α → String) (items items' : List α),
        (∀ a ∈ items, host a ∈ hosts) → items.Perm items' →
          (sortByHost host items).Pairwise (fun a b => order (host a) (host b) ≠ .gt) ∧
          List.Forall₂ (fun a b => order (host a) (host b) = .eq) (sortByHost host items)
            (sortByHost host items')) := by
  refine ⟨order_swap, ⟨TransitiveOn.keepsApart, KeepsApart.transitiveOn⟩, ?_⟩
  intro h α host items items' hitems hperm
  exact ⟨pairwise_sortByHost h hitems, sortByHost_perm h hitems hperm⟩

/-- Two addresses that are not in the order of their texts, and a name behind both texts. -/
theorem transitiveOn_iff_keepsApart_named :
    TransitiveOn {a | a ∈ ["10.0.0.9:80", "10.0.0.10:80", "play.test"]} ∧
      (∀ items : List String, ["10.0.0.9:80", "10.0.0.10:80", "play.test"].Perm items →
        List.Forall₂ (fun a b => order a b = .eq)
          ["10.0.0.9:80", "10.0.0.10:80", "play.test"] (sortByHost id items)) := by
  obtain ⟨-, htransitive, hsorted⟩ :=
    transitiveOn_iff_keepsApart {a | a ∈ ["10.0.0.9:80", "10.0.0.10:80", "play.test"]}
  have hkeeps : KeepsApart {a | a ∈ ["10.0.0.9:80", "10.0.0.10:80", "play.test"]} := by
    unfold KeepsApart IsAddress
    simp only [Set.mem_ofPred_eq]
    decide +kernel
  have hhosts := htransitive.2 hkeeps
  refine ⟨hhosts, fun items hperm => ?_⟩
  have hself : sortByHost id ["10.0.0.9:80", "10.0.0.10:80", "play.test"] =
      ["10.0.0.9:80", "10.0.0.10:80", "play.test"] := by decide +kernel
  have hsame := (hsorted hhosts String id _ items (fun a ha => ha) hperm).2
  rw [hself] at hsame
  exact hsame

/-- An address without a port between two addresses that are not in the order of their texts: the
three hosts go round in a circle, and are printed in the order in which they come. -/
theorem order_goes_in_a_circle :
    order "10.0.0.9:80" "10.0.0.10:80" = .lt ∧ order "10.0.0.10:80" "10.0.0.5" = .lt ∧
      order "10.0.0.9:80" "10.0.0.5" = .gt ∧
      ¬ (∀ a b c, order a b ≠ .gt → order b c ≠ .gt → order a c ≠ .gt) ∧
      sortByHost id ["10.0.0.9:80", "10.0.0.10:80", "10.0.0.5"] =
        ["10.0.0.9:80", "10.0.0.10:80", "10.0.0.5"] ∧
      sortByHost id ["10.0.0.5", "10.0.0.9:80", "10.0.0.10:80"] =
        ["10.0.0.5", "10.0.0.9:80", "10.0.0.10:80"] := by
  have hleft : order "10.0.0.9:80" "10.0.0.10:80" = .lt := by decide +kernel
  have hright : order "10.0.0.10:80" "10.0.0.5" = .lt := by decide +kernel
  have hback : order "10.0.0.9:80" "10.0.0.5" = .gt := by decide +kernel
  refine ⟨hleft, hright, hback, fun h => ?_, by decide +kernel, by decide +kernel⟩
  refine h "10.0.0.9:80" "10.0.0.10:80" "10.0.0.5" ?_ ?_ hback
  · rw [hleft]
    decide
  · rw [hright]
    decide

end HostText

end GameQuery
