import GameQuery.Reply.Rules
import Mathlib.Data.List.Sort

namespace GameQuery.Rules

/-!
# The values of rules

Rules are put together from assignments in any order. Of several assignments to one name the last
one counts, and the values by name leave nothing open about the rules.
-/

/-! ## Entries -/

theorem keepLast_of_pairwise {entries : List (String × String)}
    (h : entries.Pairwise (fun a b => a.1 < b.1)) : keepLast entries = entries := by
  fun_induction keepLast entries with
  | case1 a b rest hab ih =>
    have hlt := List.rel_of_pairwise_cons h List.mem_cons_self
    rw [hab] at hlt
    exact absurd hlt (String.lt_irrefl _)
  | case2 a b rest hab ih => rw [ih h.of_cons]
  | case3 => rfl

theorem length_keepLast_le (entries : List (String × String)) :
    (keepLast entries).length ≤ entries.length := by
  fun_induction keepLast entries with
  | case1 a b rest hab ih => exact Nat.le_succ_of_le ih
  | case2 a b rest hab ih => exact Nat.succ_le_succ ih
  | case3 => exact Nat.le_refl _

theorem ofList_entries (r : Rules) : ofList r.entries = r := by
  obtain ⟨entries, sorted⟩ := r
  have hsort : entries.mergeSort inOrder = entries := by
    refine List.mergeSort_of_pairwise (sorted.imp fun hab => ?_)
    exact decide_eq_true (Std.le_of_lt hab)
  simp only [ofList, hsort, keepLast_of_pairwise sorted]

theorem entries_ofList {es : List (String × String)} (h : es.Pairwise (fun a b => a.1 < b.1)) :
    (ofList es).entries = es := congrArg entries (ofList_entries ⟨es, h⟩)

theorem size_ofList_le (assignments : List (String × String)) :
    (ofList assignments).size ≤ assignments.length := by
  have h := length_keepLast_le (assignments.mergeSort inOrder)
  rwa [List.length_mergeSort] at h

theorem mem_of_mem_ofList {assignments : List (String × String)} {entry : String × String}
    (h : entry ∈ (ofList assignments).entries) : entry ∈ assignments :=
  List.mem_mergeSort.1 (mem_of_mem_keepLast h)

/-! ## Values by name -/

theorem inOrder_trans (a b c : String × String) (hab : inOrder a b) (hbc : inOrder b c) :
    inOrder a c := by
  simp only [inOrder, decide_eq_true_eq] at *
  exact String.le_trans hab hbc

theorem inOrder_total (a b : String × String) : inOrder a b || inOrder b a := by
  simpa [inOrder] using String.le_total a.1 b.1

/-- Sorting keeps the order of the assignments to one name. -/
theorem filter_mergeSort (assignments : List (String × String)) (name : String) :
    (assignments.mergeSort inOrder).filter (fun a => a.1 = name) =
      assignments.filter (fun a => a.1 = name) := by
  have hsame : (assignments.filter fun a => a.1 = name).Pairwise fun a b => inOrder a b := by
    apply List.pairwise_of_forall_mem_list
    intro a ha b hb
    have ha : a.1 = name := by simpa using List.of_mem_filter ha
    have hb : b.1 = name := by simpa using List.of_mem_filter hb
    simp [inOrder, ha, hb]
  have hsub := List.sublist_mergeSort inOrder_trans inOrder_total hsame List.filter_sublist
  have hfilter := hsub.filter (fun a => a.1 = name)
  rw [List.filter_filter] at hfilter
  simp only [Bool.and_self] at hfilter
  have hperm := (List.mergeSort_perm assignments inOrder).filter (fun a => a.1 = name)
  exact (hfilter.eq_of_length hperm.length_eq.symm).symm

theorem lookup_cons_of_eq {name : String} {a : String × String} (h : a.1 = name)
    (entries : List (String × String)) : (a :: entries).lookup name = some a.2 := by
  rw [List.lookup_cons, h, beq_self_eq_true]

theorem lookup_cons_of_ne {name : String} {a : String × String} (h : a.1 ≠ name)
    (entries : List (String × String)) : (a :: entries).lookup name = entries.lookup name := by
  rw [List.lookup_cons, beq_eq_false_iff_ne.2 (Ne.symm h)]

theorem lookup_filter (entries : List (String × String)) (name : String) :
    (entries.filter fun a => a.1 = name).lookup name = entries.lookup name := by
  induction entries with
  | nil => rfl
  | cons a entries ih =>
    by_cases ha : a.1 = name
    · have hpos := List.filter_cons_of_pos (p := fun a => a.1 = name) (l := entries)
        (decide_eq_true ha)
      rw [hpos, lookup_cons_of_eq ha, lookup_cons_of_eq ha]
    · have hneg := List.filter_cons_of_neg (p := fun a => a.1 = name) (l := entries)
        (by simpa using ha)
      rw [hneg, ih, lookup_cons_of_ne ha]

/-- Among neighbours in the order of their names, the last of each name is the one that stays. -/
theorem lookup_keepLast {entries : List (String × String)}
    (h : entries.Pairwise (fun a b => a.1 ≤ b.1)) (name : String) :
    (keepLast entries).lookup name = entries.reverse.lookup name := by
  fun_induction keepLast entries with
  | case1 a b rest hab ih =>
    rw [ih h.of_cons, List.reverse_cons (a := a), List.lookup_append]
    cases hlater : (b :: rest).reverse.lookup name with
    | some value => rfl
    | none =>
      have hb : name ≠ b.1 := by simpa using List.lookup_eq_none_iff.1 hlater b (by simp)
      rw [lookup_cons_of_ne (hab.trans_ne hb.symm)]
      rfl
  | case2 a b rest hab ih =>
    rw [List.reverse_cons (a := a), List.lookup_append]
    by_cases ha : a.1 = name
    · have hkept := pairwise_keepLast h
      rw [keepLast, if_neg hab] at hkept
      have hlater : (b :: rest).reverse.lookup name = none := by
        rw [← ih h.of_cons, List.lookup_eq_none_iff]
        intro x hx
        have hlt := List.rel_of_pairwise_cons hkept hx
        rw [ha] at hlt
        simpa using String.ne_of_lt hlt
      rw [lookup_cons_of_eq ha, lookup_cons_of_eq ha, hlater]
      rfl
    · rw [lookup_cons_of_ne ha, lookup_cons_of_ne ha, ih h.of_cons, List.lookup_nil, Option.or_none]
  | case3 entries hne =>
    match entries, hne with
    | [], _ => rfl
    | [x], _ => rfl
    | a :: b :: rest, hne => exact absurd rfl (hne a b rest)

theorem lookup_ofList (assignments : List (String × String)) (name : String) :
    (ofList assignments).entries.lookup name = assignments.reverse.lookup name := by
  have hsorted : (assignments.mergeSort inOrder).Pairwise fun a b => a.1 ≤ b.1 :=
    (List.pairwise_mergeSort inOrder_trans inOrder_total assignments).imp of_decide_eq_true
  rw [ofList, lookup_keepLast hsorted, ← lookup_filter, List.filter_reverse, filter_mergeSort,
    ← List.filter_reverse, lookup_filter]

theorem lookup_eq_some_iff {entries : List (String × String)}
    (h : entries.Pairwise (fun a b => a.1 < b.1)) {a : String × String} :
    entries.lookup a.1 = some a.2 ↔ a ∈ entries := by
  induction entries with
  | nil => simp
  | cons b entries ih =>
    by_cases hab : b.1 = a.1
    · rw [lookup_cons_of_eq hab, Option.some.injEq, List.mem_cons]
      constructor
      · intro hvalue
        exact .inl (Prod.ext hab.symm hvalue.symm)
      · rintro (rfl | ha)
        · rfl
        · have hlt := List.rel_of_pairwise_cons h ha
          rw [hab] at hlt
          exact absurd hlt (String.lt_irrefl _)
    · rw [lookup_cons_of_ne hab, ih h.of_cons, List.mem_cons]
      have hne : a ≠ b := by
        rintro rfl
        exact hab rfl
      exact (or_iff_right hne).symm

/-- The order of the names leaves no choice of where the entries stand. -/
theorem eq_of_lookup_eq {q r : Rules} (h : ∀ name, q.entries.lookup name = r.entries.lookup name) :
    q = r := by
  have hmem : ∀ a, a ∈ q.entries ↔ a ∈ r.entries := by
    intro a
    rw [← lookup_eq_some_iff q.sorted, ← lookup_eq_some_iff r.sorted, h]
  have hnodup : ∀ r : Rules, r.entries.Nodup := by
    intro r
    apply r.sorted.imp
    rintro a _ hlt rfl
    exact String.lt_irrefl _ hlt
  have hperm := (List.perm_ext_iff_of_nodup (hnodup q) (hnodup r)).2 hmem
  have hentries : q.entries = r.entries :=
    hperm.eq_of_pairwise (fun a b _ _ hab hba => absurd hba (String.lt_asymm hab)) q.sorted r.sorted
  cases q
  cases r
  congr

theorem ofList_eq_iff {assignments : List (String × String)} {q : Rules} :
    ofList assignments = q ↔
      ∀ name, q.entries.lookup name = assignments.reverse.lookup name := by
  constructor
  · rintro rfl name
    exact lookup_ofList assignments name
  · intro h
    apply eq_of_lookup_eq
    intro name
    rw [lookup_ofList, h]

end GameQuery.Rules
