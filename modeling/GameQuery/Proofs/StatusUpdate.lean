import GameQuery.Proofs.StatusMerge

namespace GameQuery

/-!
# What a merge changes

Merging a table changes nothing of a list of players but statuses, and only that of the first
player of a name: it becomes the status of the last row of this name. So a table that is merged
again finds everything as it left it.
-/

namespace StatusTable

/-- What rows make of a player, given the players before him. -/
inductive Becomes (entries : List StatusEntry) (earlier : List Player) (p : Player) : Player → Prop
  | kept (h : p.name ∈ earlier.map (·.name) ∨ ∀ e ∈ entries, e.name ≠ p.name) :
      Becomes entries earlier p p
  | told (before after : List StatusEntry) (e : StatusEntry)
      (hfirst : p.name ∉ earlier.map (·.name)) (hentries : entries = before ++ e :: after)
      (hname : e.name = p.name) (hlast : ∀ x ∈ after, x.name ≠ p.name) :
      Becomes entries earlier p { p with status := some e.status }

/-- The rows that none of these players takes. -/
def rowsBeside (earlier : List Player) (entries : List StatusEntry) : List StatusEntry :=
  entries.filter (·.name ∉ earlier.map (·.name))

variable {p q : Player} {earlier players : List Player} {entries : List StatusEntry}

@[simp] theorem withRows_name (p : Player) (rows : List StatusEntry) :
    (withRows p rows).name = p.name := rfl

theorem withRows_withRows (p : Player) (rows : List StatusEntry) :
    withRows (withRows p rows) rows = withRows p rows := by
  cases h : rows.getLast? <;> simp [withRows, h]

/-! ## One row for each player -/

theorem rowsBeside_nil (entries : List StatusEntry) : rowsBeside [] entries = entries :=
  List.filter_eq_self.2 fun _ _ => by simp

theorem otherRows_rowsBeside (p : Player) (earlier : List Player) (entries : List StatusEntry) :
    otherRows p.name (rowsBeside earlier entries) = rowsBeside (earlier ++ [p]) entries := by
  rw [otherRows, rowsBeside, List.filter_filter]
  apply List.filter_congr
  intro e _
  have hmem : e.name ∈ (earlier ++ [p]).map (·.name) ↔
      e.name ∈ earlier.map (·.name) ∨ e.name = p.name := by simp
  rw [← Bool.decide_and, decide_eq_decide, hmem, not_or, and_comm]

theorem rowsOf_rowsBeside_of_mem (h : p.name ∈ earlier.map (·.name)) :
    rowsOf p.name (rowsBeside earlier entries) = [] := by
  refine List.filter_eq_nil_iff.2 fun e he => ?_
  have hbeside : e.name ∉ earlier.map (·.name) := of_decide_eq_true (List.mem_filter.1 he).2
  have hne : e.name ≠ p.name := fun heq => hbeside (heq ▸ h)
  simp [hne]

theorem rowsOf_rowsBeside_of_notMem (h : p.name ∉ earlier.map (·.name)) :
    rowsOf p.name (rowsBeside earlier entries) = rowsOf p.name entries := by
  rw [rowsOf, rowsBeside, List.filter_filter]
  refine List.filter_congr fun e _ => ?_
  by_cases hname : e.name = p.name
  · simp only [hname, h, decide_true, decide_not, decide_false, Bool.not_false, Bool.and_self]
  · simp [hname]

/-- The last row of a name has no row of this name behind it. -/
theorem eq_append_of_getLast?_rowsOf {name : String} {e : StatusEntry}
    (h : (rowsOf name entries).getLast? = some e) :
    ∃ before after, entries = before ++ e :: after ∧ e.name = name ∧
      ∀ x ∈ after, x.name ≠ name := by
  obtain ⟨rows, hrows⟩ := List.getLast?_eq_some_iff.1 h
  obtain ⟨front, back, rfl, -, hback⟩ := List.filter_eq_append_iff.1 hrows
  obtain ⟨skipped, after, rfl, -, hname, hafter⟩ := List.filter_eq_cons_iff.1 hback
  refine ⟨front ++ skipped, after, ?_, of_decide_eq_true hname, fun x hx => ?_⟩
  · rw [List.append_assoc]
  · simpa using List.filter_eq_nil_iff.1 hafter x hx

theorem becomes_withRows (hfirst : p.name ∉ earlier.map (·.name)) :
    Becomes entries earlier p (withRows p (rowsOf p.name entries)) := by
  cases hlast : (rowsOf p.name entries).getLast? with
  | none =>
    have hrows : rowsOf p.name entries = [] := List.getLast?_eq_none_iff.1 hlast
    rw [hrows, withRows_nil]
    refine .kept (.inr fun e he => ?_)
    simpa using List.filter_eq_nil_iff.1 hrows e he
  | some e =>
    obtain ⟨before, after, hentries, hname, hafter⟩ := eq_append_of_getLast?_rowsOf hlast
    have htold : withRows p (rowsOf p.name entries) = { p with status := some e.status } := by
      simp [withRows, hlast]
    rw [htold]
    exact .told before after e hfirst hentries hname hafter

/-- The rows that the earlier players leave over tell each later player what all rows tell him. -/
theorem applyEntries_becomes (entries : List StatusEntry) (earlier players : List Player) (i : Nat)
    (hi : players[i]? = some p) :
    ∃ q, (applyEntries (rowsBeside earlier entries) players).2[i]? = some q ∧
      Becomes entries (earlier ++ players.take i) p q := by
  -- The rows that are left are those beside the players who have had their turn.
  induction players generalizing earlier i with
  | nil => cases hi
  | cons first players ih =>
    rw [applyEntries_cons, otherRows_rowsBeside]
    cases i with
    | zero =>
      cases hi
      refine ⟨_, rfl, ?_⟩
      rw [List.take_zero, List.append_nil]
      by_cases hmem : p.name ∈ earlier.map (·.name)
      · rw [rowsOf_rowsBeside_of_mem hmem, withRows_nil]
        exact .kept (.inl hmem)
      · rw [rowsOf_rowsBeside_of_notMem hmem]
        exact becomes_withRows hmem
    | succ i =>
      obtain ⟨q, hq, hbecomes⟩ := ih (earlier ++ [first]) i hi
      refine ⟨q, hq, ?_⟩
      rwa [List.append_assoc, List.singleton_append] at hbecomes

/-! ## The frame -/

theorem cleared_applyEntries (entries : List StatusEntry) (players : List Player) :
    cleared (applyEntries entries players).2 = cleared players := by
  induction players generalizing entries with
  | nil => rw [applyEntries_nil]
  | cons p players ih =>
    have hrest := ih (otherRows p.name entries)
    rw [cleared, cleared] at hrest
    rw [applyEntries_cons, cleared, cleared, List.map_cons, List.map_cons, hrest]
    rfl

/-- Rows that are applied again find the players as they left them. -/
theorem applyEntries_applyEntries (entries : List StatusEntry) (players : List Player) :
    applyEntries entries (applyEntries entries players).2 = applyEntries entries players := by
  induction players generalizing entries with
  | nil => rw [applyEntries_nil, applyEntries_nil]
  | cons p players ih =>
    rw [applyEntries_cons, applyEntries_cons, withRows_name, withRows_withRows, ih]

/-- A table that can be read is merged into every list of players. The players keep their number,
their order and everything but their status. The status of a player changes only if he is the first
of his name and this name is on a row, and becomes that of the last row with this name. Merging the
table again changes nothing and returns the same number. -/
theorem merge_changes_statuses_only (players : List Player) (output : String)
    (entries : List StatusEntry) (h : parse output = some entries) :
    ∃ n updated, merge players output = some (n, updated) ∧
      cleared updated = cleared players ∧
      (∀ i p, players[i]? = some p →
        ∃ q, updated[i]? = some q ∧ Becomes entries (players.take i) p q) ∧
      merge updated output = some (n, updated) := by
  have hmerge : ∀ ps, merge ps output = some (applyEntries entries ps) := by
    intro ps
    rw [merge, h]
    rfl
  refine ⟨(applyEntries entries players).1, (applyEntries entries players).2, hmerge players,
    cleared_applyEntries entries players, fun i p hi => ?_, ?_⟩
  · have hbecomes := applyEntries_becomes entries [] players i hi
    rwa [rowsBeside_nil, List.nil_append] at hbecomes
  · rw [hmerge, applyEntries_applyEntries]

/-- Two players and two rows of one name: the first player takes the status of the second row, and
both rows count again when the table is merged again. -/
theorem merge_changes_statuses_only_repeated :
    let players : List Player :=
      [⟨0, "ann", 1, ⟨0⟩, none⟩, ⟨1, "ann", 2, ⟨0⟩, none⟩, ⟨2, "bob", 3, ⟨0⟩, none⟩]
    let rows : List StatusEntry := [⟨"ann", { userId := some 7 }⟩, ⟨"ann", { userId := some 8 }⟩]
    let output := "# name userid\n# 1 \"ann\" 7\n# 2 \"ann\" 8\n"
    parse output = some rows ∧
      ∃ updated, merge players output = some (2, updated) ∧
        cleared updated = players ∧ merge updated output = some (2, updated) := by
  intro players rows output
  have hparse : parse output = some rows := by decide +kernel
  obtain ⟨n, updated, hmerge, hkept, -, hagain⟩ :=
    merge_changes_statuses_only players output rows hparse
  have hnumber : (merge players output).map Prod.fst = some 2 := by decide +kernel
  rw [hmerge] at hnumber
  cases hnumber
  exact ⟨hparse, updated, hmerge, hkept, hagain⟩

end StatusTable

end GameQuery
