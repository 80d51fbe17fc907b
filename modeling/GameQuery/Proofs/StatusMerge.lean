import GameQuery.StatusTable
import Mathlib.Data.List.Count
import Mathlib.Data.List.Forall2
import Mathlib.Data.List.Nodup
import Mathlib.Data.List.Perm.Basic

namespace GameQuery

/-!
# Status rows and players with equal names

A row goes to the first player of its name, so of several players with one name only the first is
reached, and of several rows with that name only the last one stays. The number that is returned
counts the rows that meet a player. It counts the players that they reach exactly when no player's
name is on two rows.
-/

namespace StatusTable

/-- The rows with this name. -/
def rowsOf (name : String) (entries : List StatusEntry) : List StatusEntry :=
  entries.filter (·.name = name)

/-- The rows with other names. -/
def otherRows (name : String) (entries : List StatusEntry) : List StatusEntry :=
  entries.filter (·.name ≠ name)

/-- A player after rows of that name: the last one tells the status. -/
def withRows (p : Player) (rows : List StatusEntry) : Player :=
  { p with status := (rows.getLast?.map (·.status)).or p.status }

/-- The players before anything is known of their status. -/
def cleared (players : List Player) : List Player := players.map ({ · with status := none })

/-- The players whose status is replaced: those that have one afterwards if they had none before. -/
def replaced (entries : List StatusEntry) (players : List Player) : List Player :=
  (applyEntries entries (cleared players)).2.filter (·.status.isSome)

/-- Every player has the status of a row of that name, and no two of them that of the same row. -/
def HaveOwnRows (entries : List StatusEntry) (players : List Player) : Prop :=
  ∃ rows, rows.Perm entries ∧
    List.Forall₂ (fun (p : Player) (e : StatusEntry) => p.name = e.name ∧ p.status = some e.status)
      players rows

variable {p : Player} {players : List Player} {entries : List StatusEntry}

/-! ## One player after another -/

@[simp] theorem withRows_nil (p : Player) : withRows p [] = p := rfl

theorem withRows_cons (p : Player) (e : StatusEntry) (rows : List StatusEntry) :
    withRows { p with status := some e.status } rows = withRows p (e :: rows) := by
  cases h : rows.getLast? <;> simp [withRows, List.getLast?_cons, h]

theorem applyEntries_nil (entries : List StatusEntry) : applyEntries entries [] = (0, []) := by
  induction entries with
  | nil => rfl
  | cons e entries ih => rw [applyEntries, applyEntry, ih]

/-- The rows of the first player's name go to him, and the other players only get the others. -/
theorem applyEntries_cons (entries : List StatusEntry) (p : Player) (players : List Player) :
    applyEntries entries (p :: players) =
      ((rowsOf p.name entries).length + (applyEntries (otherRows p.name entries) players).1,
        withRows p (rowsOf p.name entries) :: (applyEntries (otherRows p.name entries) players).2) := by
  induction entries generalizing p players with
  | nil => simp [applyEntries, rowsOf, otherRows]
  | cons e entries ih =>
    by_cases hname : p.name = e.name
    · have hrows : rowsOf p.name (e :: entries) = e :: rowsOf p.name entries :=
        List.filter_cons_of_pos (decide_eq_true hname.symm)
      have hothers : otherRows p.name (e :: entries) = otherRows p.name entries :=
        List.filter_cons_of_neg (by simp [hname])
      rw [applyEntries, applyEntry, if_pos hname, hrows, hothers]
      simp only [ih, withRows_cons, List.length_cons, Nat.add_right_comm]
    · have hrows : rowsOf p.name (e :: entries) = rowsOf p.name entries :=
        List.filter_cons_of_neg (by simp [Ne.symm hname])
      have hothers : otherRows p.name (e :: entries) = e :: otherRows p.name entries :=
        List.filter_cons_of_pos (by simp [Ne.symm hname])
      rw [applyEntries, applyEntry, if_neg hname, hrows, hothers, applyEntries]
      cases applyEntry e players with
      | none => exact ih p players
      | some updated => simp only [Option.map_some, ih, Nat.add_assoc]

theorem name_of_mem_rowsOf {name : String} {e : StatusEntry} (h : e ∈ rowsOf name entries) :
    e.name = name := of_decide_eq_true (List.mem_filter.1 h).2

theorem name_ne_of_mem_otherRows {name : String} {e : StatusEntry}
    (h : e ∈ otherRows name entries) : e.name ≠ name := of_decide_eq_true (List.mem_filter.1 h).2

theorem rowsOf_otherRows_self (name : String) (entries : List StatusEntry) :
    rowsOf name (otherRows name entries) = [] :=
  List.filter_eq_nil_iff.2 fun e he => by
    simpa using name_ne_of_mem_otherRows he

theorem rowsOf_otherRows_of_ne {name other : String} (h : name ≠ other)
    (entries : List StatusEntry) : rowsOf name (otherRows other entries) = rowsOf name entries := by
  rw [rowsOf, otherRows, List.filter_filter]
  refine List.filter_congr fun e he => ?_
  by_cases hname : e.name = name
  · simp [hname, h]
  · simp [hname]

theorem perm_rowsOf_append_otherRows (name : String) (entries : List StatusEntry) :
    (rowsOf name entries ++ otherRows name entries).Perm entries := by
  have h := List.filter_append_perm (fun e : StatusEntry => decide (e.name = name)) entries
  simpa only [rowsOf, otherRows, ne_eq, decide_not] using h

theorem applyEntries_fst (entries : List StatusEntry) (players : List Player) :
    (applyEntries entries players).1 = entries.countP fun e => e.name ∈ players.map (·.name) := by
  induction players generalizing entries with
  | nil => simp [applyEntries_nil]
  | cons p players ih =>
    have hrows : (rowsOf p.name entries).countP (fun e => e.name ∈ (p :: players).map (·.name)) =
        (rowsOf p.name entries).length :=
      List.countP_eq_length.2 fun e he => by simp [name_of_mem_rowsOf he]
    have hothers : (otherRows p.name entries).countP
          (fun e => e.name ∈ (p :: players).map (·.name)) =
        (otherRows p.name entries).countP fun e => e.name ∈ players.map (·.name) :=
      List.countP_congr fun e he => by simp [name_ne_of_mem_otherRows he]
    rw [applyEntries_cons, ih, ← (perm_rowsOf_append_otherRows p.name entries).countP_eq,
      List.countP_append, hrows, hothers]

/-! ## The players whose status is replaced -/

theorem withRows_isSome (p : Player) (rows : List StatusEntry) :
    (withRows { p with status := none } rows).status.isSome ↔ rows ≠ [] := by
  simp [withRows]

theorem length_replaced_cons (entries : List StatusEntry) (p : Player) (players : List Player) :
    (replaced entries (p :: players)).length =
      min 1 (rowsOf p.name entries).length +
        (replaced (otherRows p.name entries) players).length := by
  have hcons : (replaced entries (p :: players)) =
      (withRows { p with status := none } (rowsOf p.name entries) ::
        (applyEntries (otherRows p.name entries) (cleared players)).2).filter (·.status.isSome) := by
    rw [replaced, cleared, List.map_cons, applyEntries_cons]
    rfl
  rw [hcons, List.filter_cons]
  cases h : rowsOf p.name entries with
  | nil => simp [replaced, withRows]
  | cons e rows =>
    rw [if_pos ((withRows_isSome p _).2 (List.cons_ne_nil e rows))]
    simp [replaced, Nat.add_comm]

theorem length_replaced_le (entries : List StatusEntry) (players : List Player) :
    (replaced entries players).length ≤ (applyEntries entries players).1 := by
  induction players generalizing entries with
  | nil => simp [replaced, cleared, applyEntries_nil]
  | cons p players ih =>
    rw [length_replaced_cons, applyEntries_cons]
    exact Nat.add_le_add (Nat.min_le_right _ _) (ih _)

/-- The number counts the replaced statuses unless the name of a player is on two rows. -/
theorem applyEntries_fst_eq_iff (entries : List StatusEntry) (players : List Player) :
    (applyEntries entries players).1 = (replaced entries players).length ↔
      ∀ p ∈ players, (rowsOf p.name entries).length ≤ 1 := by
  induction players generalizing entries with
  | nil => simp [replaced, cleared, applyEntries_nil]
  | cons p players ih =>
    have hle := length_replaced_le (otherRows p.name entries) players
    have hothers := ih (otherRows p.name entries)
    rw [length_replaced_cons, applyEntries_cons, List.forall_mem_cons]
    constructor
    · intro h
      have hrow : (rowsOf p.name entries).length ≤ 1 := by omega
      have hrows := hothers.1 (by omega)
      refine ⟨hrow, fun q hq => ?_⟩
      by_cases hname : q.name = p.name
      · rw [hname]
        exact hrow
      · rw [← rowsOf_otherRows_of_ne hname]
        exact hrows q hq
    · rintro ⟨hrow, hrows⟩
      have heq := hothers.2 fun q hq => by
        by_cases hname : q.name = p.name
        · rw [hname, rowsOf_otherRows_self]
          exact Nat.zero_le 1
        · rw [rowsOf_otherRows_of_ne hname]
          exact hrows q hq
      omega

theorem withRows_eq (p : Player) (rows : List StatusEntry) :
    withRows p rows =
      if (withRows { p with status := none } rows).status.isSome then
        withRows { p with status := none } rows
      else p := by
  cases h : rows.getLast? <;> simp [withRows, h]

/-- The players whose status is not replaced are as they were. -/
theorem applyEntries_snd (entries : List StatusEntry) (players : List Player) :
    (applyEntries entries players).2 =
      List.zipWith (fun p q => if q.status.isSome then q else p) players
        (applyEntries entries (cleared players)).2 := by
  induction players generalizing entries with
  | nil => simp [applyEntries_nil]
  | cons p players ih =>
    rw [cleared, List.map_cons, ← cleared, applyEntries_cons, applyEntries_cons]
    simp only [List.zipWith_cons_cons, ← ih, ← withRows_eq]

/-! ## As many rows as players, with the same names -/

theorem length_rowsOf (name : String) (entries : List StatusEntry) :
    (rowsOf name entries).length = (entries.map (·.name)).count name := by
  rw [rowsOf, ← List.countP_eq_length_filter, List.count, List.countP_map]
  rfl

theorem map_name_otherRows (name : String) (entries : List StatusEntry) :
    (otherRows name entries).map (·.name) = (entries.map (·.name)).filter (· ≠ name) := by
  rw [otherRows, List.filter_map]
  rfl

theorem haveOwnRows_of_nodup (hperm : (entries.map (·.name)).Perm (players.map (·.name)))
    (hnodup : (players.map (·.name)).Nodup) :
    HaveOwnRows entries (applyEntries entries players).2 := by
  induction players generalizing entries with
  | nil =>
    rw [applyEntries_nil]
    exact ⟨[], by simp_all, .nil⟩
  | cons p players ih =>
    obtain ⟨hp, hrest⟩ := List.nodup_cons.1 hnodup
    have hone : (rowsOf p.name entries).length = 1 := by
      rw [length_rowsOf, hperm.count_eq, List.map_cons, List.count_cons_self,
        List.count_eq_zero_of_not_mem hp]
    obtain ⟨e, he⟩ := List.length_eq_one_iff.1 hone
    have hname : e.name = p.name := name_of_mem_rowsOf (by rw [he]; exact List.mem_singleton_self e)
    have hothers : ((otherRows p.name entries).map (·.name)).Perm (players.map (·.name)) := by
      have hfilter := hperm.filter (· ≠ p.name)
      rw [← map_name_otherRows, List.map_cons, List.filter_cons_of_neg (by simp)] at hfilter
      have hkept : (players.map (·.name)).filter (· ≠ p.name) = players.map (·.name) := by
        refine List.filter_eq_self.2 fun name hmem => decide_eq_true fun heq => ?_
        rw [heq] at hmem
        exact hp hmem
      rwa [hkept] at hfilter
    obtain ⟨rows, hrows, hmatch⟩ := ih hothers hrest
    rw [applyEntries_cons, he]
    refine ⟨e :: rows, ?_, .cons ⟨hname.symm, rfl⟩ hmatch⟩
    have hsplit := perm_rowsOf_append_otherRows p.name entries
    rw [he, List.singleton_append] at hsplit
    exact (hrows.cons e).trans hsplit

/-- A player's name is on one row if it is on one player. -/
theorem nodup_iff_length_rowsOf (hperm : (entries.map (·.name)).Perm (players.map (·.name))) :
    (players.map (·.name)).Nodup ↔ ∀ p ∈ players, (rowsOf p.name entries).length ≤ 1 := by
  rw [List.nodup_iff_count_le_one]
  constructor
  · intro h p hp
    rw [length_rowsOf, hperm.count_eq]
    exact h p.name
  · intro h name
    by_cases hmem : name ∈ players.map (·.name)
    · obtain ⟨p, hp, rfl⟩ := List.mem_map.1 hmem
      rw [← hperm.count_eq, ← length_rowsOf]
      exact h p hp
    · rw [List.count_eq_zero_of_not_mem hmem]
      exact Nat.zero_le 1

/-- The number that is returned counts the rows that carry a player's name. It is the number of
players whose status is replaced exactly when no player's name is on two rows. If the rows carry the
players' names, it is the number of players, and all players get the status of a row of their own
exactly when no two of them have the same name. -/
theorem merge_reaches_all_iff (players : List Player) (output : String)
    (entries : List StatusEntry) (h : parse output = some entries) :
    ∃ n updated, merge players output = some (n, updated) ∧
      n = entries.countP (fun e => e.name ∈ players.map (·.name)) ∧
      (n = (replaced entries players).length ↔
        ∀ p ∈ players, (rowsOf p.name entries).length ≤ 1) ∧
      updated = List.zipWith (fun p q => if q.status.isSome then q else p) players
        (applyEntries entries (cleared players)).2 ∧
      ((entries.map (·.name)).Perm (players.map (·.name)) →
        n = players.length ∧
        ((replaced entries players).length = players.length ∧ HaveOwnRows entries updated ↔
          (players.map (·.name)).Nodup)) := by
  refine ⟨(applyEntries entries players).1, (applyEntries entries players).2, ?_,
    applyEntries_fst entries players, applyEntries_fst_eq_iff entries players,
    applyEntries_snd entries players, fun hperm => ?_⟩
  · rw [merge, h]
    rfl
  · have hnumber : (applyEntries entries players).1 = players.length := by
      have hall : ∀ e ∈ entries, decide (e.name ∈ players.map (·.name)) = true := fun e he =>
        decide_eq_true (hperm.mem_iff.1 (List.mem_map_of_mem he))
      have hlength := hperm.length_eq
      rw [List.length_map, List.length_map] at hlength
      rw [applyEntries_fst, List.countP_eq_length.2 hall, hlength]
    have hiff := applyEntries_fst_eq_iff entries players
    rw [← nodup_iff_length_rowsOf hperm, hnumber] at hiff
    refine ⟨hnumber, fun hall => hiff.1 hall.1.symm, fun hnodup => ?_⟩
    exact ⟨(hiff.2 hnodup).symm, haveOwnRows_of_nodup hperm hnodup⟩

/-- Two players with a row each, in another order. -/
theorem merge_reaches_all_iff_swapped :
    let players : List Player := [⟨0, "ann", 1, ⟨0⟩, none⟩, ⟨1, "bob", 2, ⟨0⟩, none⟩]
    let rows : List StatusEntry := [⟨"bob", { userId := some 7 }⟩, ⟨"ann", { userId := some 8 }⟩]
    let output := "# name userid\n# 1 \"bob\" 7\n# 2 \"ann\" 8\n"
    parse output = some rows ∧
      ∃ updated, merge players output = some (2, updated) ∧ HaveOwnRows rows updated := by
  intro players rows output
  have hparse : parse output = some rows := by decide +kernel
  obtain ⟨n, updated, hmerge, -, -, -, hrows⟩ := merge_reaches_all_iff players output rows hparse
  obtain ⟨rfl, hiff⟩ := hrows (List.Perm.swap _ _ _)
  exact ⟨hparse, updated, hmerge, (hiff.2 (by decide)).2⟩

/-- Two players with one name and a row each: both rows go to the first one, and the number says
that both were reached. -/
theorem equal_names_share_a_player :
    let players : List Player := [⟨0, "ann", 1, ⟨0⟩, none⟩, ⟨1, "ann", 2, ⟨0⟩, none⟩]
    let output := "# name userid\n# 1 \"ann\" 7\n# 2 \"ann\" 8\n"
    (parse output).map (·.map (·.name)) = some (players.map (·.name)) ∧
      merge players output = some (2,
        [⟨0, "ann", 1, ⟨0⟩, some { userId := some 8 }⟩, ⟨1, "ann", 2, ⟨0⟩, none⟩]) ∧
      (∀ entries, ¬ HaveOwnRows entries
        [⟨0, "ann", 1, ⟨0⟩, some { userId := some 8 }⟩, ⟨1, "ann", 2, ⟨0⟩, none⟩]) ∧
      (parse output).map (fun entries => (replaced entries players).length) = some 1 := by
  refine ⟨by decide +kernel, by decide +kernel, ?_, by decide +kernel⟩
  rintro entries ⟨rows, -, hrows⟩
  cases hrows with
  | cons _ hrest =>
    cases hrest with
    | cons hsecond _ => exact absurd hsecond.2 (by simp)

end StatusTable

end GameQuery
