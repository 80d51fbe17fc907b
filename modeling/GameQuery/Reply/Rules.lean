namespace GameQuery

/-!
# Server rules

The console variables of a server: values by name, each name once, in the order of the names.
-/

/-- Values by name, in the order of the names. -/
structure Rules where
  entries : List (String × String)
  sorted : entries.Pairwise (fun a b => a.1 < b.1)
  deriving DecidableEq

namespace Rules

/-- Of neighbours with the same name, keeps the last. -/
def keepLast : List (String × String) → List (String × String)
  | a :: b :: rest => if a.1 = b.1 then keepLast (b :: rest) else a :: keepLast (b :: rest)
  | entries => entries

theorem mem_of_mem_keepLast {entries : List (String × String)} {x : String × String}
    (h : x ∈ keepLast entries) : x ∈ entries := by
  fun_induction keepLast entries with
  | case1 a b rest hab ih => exact List.mem_cons_of_mem _ (ih h)
  | case2 a b rest hab ih =>
    rcases List.mem_cons.1 h with rfl | h
    · exact List.mem_cons_self
    · exact List.mem_cons_of_mem _ (ih h)
  | case3 => exact h

theorem pairwise_keepLast {entries : List (String × String)}
    (h : entries.Pairwise (fun a b => a.1 ≤ b.1)) :
    (keepLast entries).Pairwise (fun a b => a.1 < b.1) := by
  fun_induction keepLast entries with
  | case1 a b rest hab ih => exact ih h.of_cons
  | case2 a b rest hab ih =>
    refine List.pairwise_cons.2 ⟨fun x hx => ?_, ih h.of_cons⟩
    have hlt : a.1 < b.1 := Std.lt_of_le_of_ne (List.rel_of_pairwise_cons h List.mem_cons_self) hab
    rcases List.mem_cons.1 (mem_of_mem_keepLast hx) with rfl | hx
    · exact hlt
    · exact Std.lt_of_lt_of_le hlt (List.rel_of_pairwise_cons h.of_cons hx)
  | case3 entries hne =>
    match entries, hne with
    | [], _ => exact List.Pairwise.nil
    | [x], _ => exact List.pairwise_singleton _ _
    | a :: b :: rest, hne => exact absurd rfl (hne a b rest)

/-- Whether the first of two entries may stand before the second. -/
def inOrder (a b : String × String) : Bool := a.1 ≤ b.1

/-- The rules that a list of assignments leaves behind: a later value replaces an earlier one. -/
def ofList (assignments : List (String × String)) : Rules where
  entries := keepLast (assignments.mergeSort inOrder)
  sorted := by
    refine pairwise_keepLast ((List.pairwise_mergeSort ?_ ?_ assignments).imp ?_)
    · intro a b c hab hbc
      simp only [inOrder, decide_eq_true_eq] at *
      exact String.le_trans hab hbc
    · intro a b
      simpa [inOrder] using String.le_total a.1 b.1
    · intro a b h
      simpa [inOrder] using h

def empty : Rules := ⟨[], List.Pairwise.nil⟩

def size (r : Rules) : Nat := r.entries.length

end Rules

end GameQuery
