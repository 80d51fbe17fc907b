import GameQuery.Net.AddressText

namespace GameQuery

/-!
# The order of hosts

Hosts are put in order by their texts. Two of them that are addresses with a port are compared as
addresses, so that `10.0.0.9:80` comes before `10.0.0.10:80`.
-/

/-- A text, and the address that it is. -/
structure HostText where
  text : String
  address : Option SocketAddress
  deriving DecidableEq, Repr

namespace HostText

def ofText (text : String) : HostText := ⟨text, SocketAddress.parse? text.toList⟩

instance : Ord HostText where
  compare a b := match a.address, b.address with
    | some x, some y => compare x y
    | _, _ => compare a.text b.text

end HostText

/-- Puts a value into a descending list, before the values that are not greater. -/
def insertDescending {α : Type} (less : α → α → Bool) (a : α) : List α → List α
  | [] => [a]
  | b :: rest => if less a b then b :: insertDescending less a rest else a :: b :: rest

theorem perm_insertDescending {α : Type} (less : α → α → Bool) (a : α) (items : List α) :
    (insertDescending less a items).Perm (a :: items) := by
  induction items with
  | nil => exact List.Perm.refl _
  | cons b rest ih =>
    simp only [insertDescending]
    split
    · exact (ih.cons b).trans (List.Perm.swap a b rest)
    · exact List.Perm.refl _

/-- Puts the values of a list in order, without changing the order of equal ones. -/
def sortBy {α : Type} (less : α → α → Bool) (items : List α) : List α :=
  (items.foldl (fun sorted a => insertDescending less a sorted) []).reverse

theorem perm_sortBy {α : Type} (less : α → α → Bool) (items : List α) :
    (sortBy less items).Perm items := by
  have h : ∀ sorted : List α,
      (items.foldl (fun sorted a => insertDescending less a sorted) sorted).Perm
        (items ++ sorted) := by
    induction items with
    | nil => exact List.Perm.refl
    | cons a items ih =>
      intro sorted
      refine (ih _).trans ?_
      exact ((perm_insertDescending less a sorted).append_left items).trans List.perm_middle
  exact (List.reverse_perm _).trans (by simpa using h [])

/-- Puts values in the order of the hosts they belong to. -/
def sortByHost {α : Type} (host : α → String) (items : List α) : List α :=
  (sortBy (fun a b : HostText × α => compare a.1 b.1 = .lt)
    (items.map fun a => (HostText.ofText (host a), a))).map (·.2)

theorem perm_sortByHost {α : Type} (host : α → String) (items : List α) :
    (sortByHost host items).Perm items := by
  have h := (perm_sortBy (fun a b : HostText × α => compare a.1 b.1 = .lt)
    (items.map fun a => (HostText.ofText (host a), a))).map (·.2)
  simpa [sortByHost, Function.comp_def] using h

/-- Of neighbours that are equal, keeps one. -/
def dropRepeats {α : Type} [DecidableEq α] : List α → List α
  | a :: b :: rest => if a = b then dropRepeats (b :: rest) else a :: dropRepeats (b :: rest)
  | items => items

theorem mem_dropRepeats {α : Type} [DecidableEq α] {x : α} {items : List α} :
    x ∈ dropRepeats items ↔ x ∈ items := by
  fun_induction dropRepeats items with
  | case1 a rest ih => simp [ih]
  | case2 a b rest hab ih => simp [ih]
  | case3 items h => rfl

end GameQuery
