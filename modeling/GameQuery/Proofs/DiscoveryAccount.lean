import GameQuery.Proofs.DiscoveryAttempt

namespace GameQuery

/-!
# The account of a discovery

A discovery is a sequence of attempts. Its cursor, its list and its counters are functions of the
attempts made so far: every attempt keeps it so, and hence every discovery does.
-/

open Dialog

/-! ## One attempt -/

/-- How a discovery goes on from some progress after an attempt, and which endpoint it leaves. -/
inductive Attempt.LeadsTo (force : Bool) (r : Nat) (p : Progress) (a : Attempt) :
    Except ClientError MasterServer.Next → Endpoint → Prop
  | last (h : a.harvest.isLast = true) :
    LeadsTo force r p a (.ok (.finish (p.collect a.harvest.found).servers)) a.endpoint
  | more (h : a.harvest.isLast = false) (hnew : a.harvest.found ≠ []) :
    LeadsTo force r p a (.ok (.resume (p.collect a.harvest.found))) a.endpoint
  | again (h : a.failed = true) (hlt : p.failed + 1 < r) :
    LeadsTo force r p a (.ok (.resume p.fail)) a.endpoint
  | elsewhere (h : a.failed = true) (hle : r ≤ p.failed + 1) (hforce : force = true)
    (hnext : a.endpoint.next.active ≠ 0) :
    LeadsTo force r p a (.ok (.resume p.fail.moveOn)) a.endpoint.next
  | exhausted {e : Endpoint} (h : a.failed = true) (hle : r ≤ p.failed + 1)
    (hend : force = true → a.endpoint.next.active = 0) (hstay : force = false → e = a.endpoint) :
    LeadsTo force r p a (.error (.exhausted (p.allFailed + 1) p.servers)) e
  | unopened (f : Failure) (h : a.failed = true) (hle : r ≤ p.failed + 1) (hforce : force = true) :
    LeadsTo force r p a (.error (.ofFailure f)) a.endpoint.next
  | broken {e : ClientError} (hplain : e.IsPlain) (hno : e.isTransport = false)
    (h : a.answer = .unopened e ∨ a.answer = .unanswered e) :
    LeadsTo force r p a (.error e) a.endpoint

namespace MasterServer

variable {region : Region} {filter : String} {force : Bool} {r : Nat} {p : Progress} {a : Attempt}
  {w : MasterServer × Network}

theorem afterFailure_ends (s : MasterServer) (n : Network) (h : s.IsBound) (ha : a.failed = true)
    (hendpoint : s.endpoint = a.endpoint) :
    Ends (afterFailure force r p) (s, n) fun res v => a.LeadsTo force r p res v.1.endpoint ∧
      v.1.IsBound ∧ ((∀ e, res = .error e → ¬e.IsPlain) →
        exchanges v.2.history = exchanges n.history) := by
  refine ends_afterFailure (fun line hlt => ?_) (fun hle hforce => ?_) fun hle hforce => ?_
  · refine ⟨?_, h, fun _ => rfl⟩
    simp only [hendpoint]
    exact .again ha hlt
  · exact ⟨.exhausted ha hle (fun hf => absurd (hf.symm.trans hforce) nofun) fun _ => hendpoint, h,
      fun _ => rfl⟩
  · refine (rotate_ends s n).imp ?_
    rintro res v ⟨hnext, hbound, -, hres⟩
    rw [hendpoint] at hnext
    rcases res with e | back
    · obtain ⟨f, rfl, -⟩ := hres
      refine ⟨?_, hbound, fun hno => absurd (ClientError.isPlain_ofFailure f) (hno _ rfl)⟩
      rw [hnext]
      exact .unopened f ha hle hforce
    · obtain ⟨rfl, -, hhistory⟩ := hres
      have hquiet : exchanges v.2.history = exchanges n.history := by
        rw [hhistory, exchanges_cons]
        exact List.append_nil _
      rw [hendpoint, Endpoint.atFirst]
      by_cases hfirst : a.endpoint.next.active = 0
      · rw [decide_eq_true hfirst]
        refine ⟨.exhausted ha hle (fun _ => hfirst) fun hf => ?_, hbound, fun _ => hquiet⟩
        rw [hforce] at hf
        cases hf
      · rw [decide_eq_false hfirst]
        refine ⟨?_, hbound, fun _ => hquiet⟩
        rw [hnext]
        exact .elsewhere ha hle hforce hfirst

theorem step_ends (region : Region) (filter : String) (force : Bool) (r : Nat) (p : Progress)
    (h : w.1.IsBound) :
    Ends (step region filter force r p) w fun res v =>
      (attemptAt region filter p.cursor w).LeadsTo force r p res v.1.endpoint ∧ v.1.IsBound ∧
        ((∀ e, res = .error e → ¬e.IsPlain) → exchanges v.2.history =
          exchanges w.2.history ++ (attemptAt region filter p.cursor w).exchanges region filter) := by
  have hsame : w.1.endpoint = (attemptAt region filter p.cursor w).endpoint := rfl
  have hcursor : (attemptAt region filter p.cursor w).cursor = p.cursor := rfl
  have hfetch := fetchPage_ends region filter p.cursor h
  generalize attemptAt region filter p.cursor w = a at hsame hcursor hfetch ⊢
  -- What a failed attempt does not exchange with the master server, the rest of the step does not.
  have hafter : ∀ (v : MasterServer × Network) line, v.1.endpoint = w.1.endpoint →
      v.1.IsBound → a.failed = true →
      exchanges v.2.history = exchanges w.2.history ++ a.exchanges region filter →
      Ends (afterFailure force r p) (v.1, v.2.logLine .debug line) fun res u =>
        a.LeadsTo force r p res u.1.endpoint ∧ u.1.IsBound ∧
          ((∀ e, res = .error e → ¬e.IsPlain) → exchanges u.2.history =
            exchanges w.2.history ++ a.exchanges region filter) := by
    intro v line hendpoint hbound hfailed hhistory
    refine (afterFailure_ends v.1 _ hbound hfailed (hendpoint.trans hsame)).imp ?_
    rintro res u ⟨hleads, hbound', hquiet⟩
    exact ⟨hleads, hbound', fun hno => (hquiet hno).trans hhistory⟩
  refine ends_step hfetch ?_ ?_ ?_ ?_ ?_
  · rintro harvest v line ⟨hendpoint, hbound, page, hanswer, rfl, hhistory⟩ hlast
    rw [← hcursor, ← Attempt.harvest_of_page hanswer] at hlast ⊢
    refine ⟨?_, hbound, fun _ => hhistory⟩
    simp only [hendpoint, hsame]
    exact .last hlast
  · rintro harvest v ⟨hendpoint, hbound, page, hanswer, rfl, hhistory⟩ hlast hnew
    rw [← hcursor, ← Attempt.harvest_of_page hanswer] at hlast hnew ⊢
    refine ⟨?_, hbound, fun _ => hhistory⟩
    rw [hendpoint, hsame]
    exact .more hlast hnew
  · rintro harvest v line ⟨hendpoint, hbound, page, hanswer, rfl, hhistory⟩ hlast hnew
    rw [← hcursor, ← Attempt.harvest_of_page hanswer] at hlast hnew
    have hfailed := Attempt.failed_of_page hanswer
    rw [hlast, hnew] at hfailed
    exact hafter v line hendpoint hbound hfailed hhistory
  · rintro e v line ⟨hendpoint, hbound, hplain, hanswer, hhistory⟩ htransport
    have hfailed := (Attempt.failed_of_error hanswer).trans htransport
    exact hafter v line hendpoint hbound hfailed (hhistory htransport)
  · rintro e v ⟨hendpoint, hbound, hplain, hanswer, hhistory⟩ hno
    refine ⟨?_, hbound, fun hall => absurd hplain (hall e rfl)⟩
    rw [hendpoint, hsame]
    exact .broken hplain hno hanswer

end MasterServer

/-! ## The attempts so far -/

/-- The new addresses that some attempts bring, in order. -/
def collected (as : List Attempt) : List SocketAddressV4 := as.flatMap fun a => a.harvest.found

/-- The last address that some attempts bring, or the sentinel. -/
def lastCollected (as : List Attempt) : SocketAddressV4 := (collected as).getLast?.getD sentinel

/-- How many attempts at an address have failed in a row, up to the last attempt. -/
def failedInARow (active : Nat) (as : List Attempt) : Nat :=
  (as.reverse.takeWhile fun a => a.failed && a.endpoint.active == active).length

theorem collected_snoc (as : List Attempt) (a : Attempt) :
    collected (as ++ [a]) = collected as ++ a.harvest.found := by
  simp [collected]

theorem lastCollected_snoc (as : List Attempt) (a : Attempt) :
    lastCollected (as ++ [a]) = a.harvest.found.getLast?.getD (lastCollected as) := by
  rw [lastCollected, collected_snoc, List.getLast?_append, lastCollected]
  cases a.harvest.found.getLast? <;> rfl

theorem failedInARow_snoc (active : Nat) (as : List Attempt) (a : Attempt) :
    failedInARow active (as ++ [a]) =
      if a.failed && a.endpoint.active == active then failedInARow active as + 1 else 0 := by
  rw [failedInARow, List.reverse_append, List.reverse_singleton, List.singleton_append,
    List.takeWhile_cons]
  split <;> rfl

theorem Attempt.harvest_of_failed {a : Attempt} (h : a.failed = true) :
    a.harvest = { found := [], isLast := false } := by
  cases hanswer : a.answer with
  | page entries =>
    rw [failed_of_page hanswer, Bool.and_eq_true, List.isEmpty_iff, Bool.not_eq_true'] at h
    rw [← h.1, ← h.2]
  | unopened e => exact harvest_of_error (.inl hanswer)
  | unanswered e => exact harvest_of_error (.inr hanswer)

theorem Attempt.failed_of_isLast {a : Attempt} (h : a.harvest.isLast = true) :
    a.failed = false := by
  rw [← Bool.not_eq_true]
  intro hfailed
  rw [harvest_of_failed hfailed] at h
  cases h

theorem Attempt.failed_of_found {a : Attempt} (h : a.harvest.found ≠ []) : a.failed = false := by
  rw [← Bool.not_eq_true]
  intro hfailed
  rw [harvest_of_failed hfailed] at h
  exact h rfl

theorem Endpoint.active_next_of_ne_zero {e : Endpoint} (h : e.next.active ≠ 0) :
    e.next.active = e.active + 1 := by
  rw [active_next] at h ⊢
  rcases Nat.lt_or_ge (e.active + 1) e.addresses.length with hlt | hge
  · exact Nat.mod_eq_of_lt hlt
  · have heq : e.active + 1 = e.addresses.length := Nat.le_antisymm e.active_lt hge
    rw [heq, Nat.mod_self] at h
    exact absurd rfl h

/-- What is told of some attempts: the addresses they bring, how many of them have failed, and
whether the last one makes the client leave its address. -/
structure Account (r : Nat) (force : Bool) (start : Endpoint) (as : List Attempt)
    (servers : List SocketAddressV4) (failures : UInt32) (left : Attempt → Prop) : Prop where
  cursor_eq : ∀ before a after, as = before ++ a :: after → a.cursor = lastCollected before
  servers_eq : servers = collected as
  failures_eq : failures = UInt32.ofNat (as.countP Attempt.failed)
  left_iff : ∀ before a after, as = before ++ a :: after →
    ((∃ b ∈ after.head?, b.endpoint.active ≠ a.endpoint.active) ∨ after = [] ∧ left a ↔
      a.failed = true ∧ failedInARow a.endpoint.active before + 1 = r)
  stays : force = false → ∀ a ∈ as, a.endpoint = start

theorem snoc_eq_append_cons {α : Type} {xs before after : List α} {x y : α}
    (h : xs ++ [x] = before ++ y :: after) :
    (xs = before ∧ x = y ∧ after = []) ∨
      ∃ between, after = between ++ [x] ∧ xs = before ++ y :: between := by
  rcases List.eq_nil_or_concat after with rfl | ⟨between, z, rfl⟩
  · obtain ⟨hxs, hx⟩ := List.append_inj' h rfl
    exact .inl ⟨hxs, List.head_eq_of_cons_eq hx, rfl⟩
  · rw [List.concat_eq_append, ← List.cons_append, ← List.append_assoc] at h
    obtain ⟨hxs, hx⟩ := List.append_inj' h rfl
    refine .inr ⟨between, ?_, hxs⟩
    rw [List.concat_eq_append, hx]

namespace Account

variable {r : Nat} {force : Bool} {start : Endpoint} {as : List Attempt} {a : Attempt}
  {servers : List SocketAddressV4} {failures : UInt32} {left left' : Attempt → Prop}

/-- The account of one more attempt. -/
theorem snoc (h : Account r force start as servers failures left)
    (hcursor : a.cursor = lastCollected as) (hstay : force = false → a.endpoint = start)
    (hleft : ∀ b, left b ↔ a.endpoint.active ≠ b.endpoint.active)
    (hleft' : left' a ↔ a.failed = true ∧ failedInARow a.endpoint.active as + 1 = r) :
    Account r force start (as ++ [a]) (servers ++ a.harvest.found)
      (failures + if a.failed then 1 else 0) left' where
  cursor_eq before b after hsplit := by
    rcases snoc_eq_append_cons hsplit with ⟨rfl, rfl, -⟩ | ⟨between, -, has⟩
    · exact hcursor
    · exact h.cursor_eq before b between has
  servers_eq := by rw [collected_snoc, h.servers_eq]
  failures_eq := by
    rw [List.countP_append, List.countP_singleton, UInt32.ofNat_add, h.failures_eq]
    split <;> rfl
  left_iff before b after hsplit := by
    rcases snoc_eq_append_cons hsplit with ⟨rfl, rfl, rfl⟩ | ⟨between, rfl, has⟩
    · simpa using hleft'
    · -- What was said of the last attempt by `left` is now said by the address of `a`.
      rw [← h.left_iff before b between has]
      cases between with
      | nil => simp [hleft]
      | cons c between => simp
  stays hforce b hb := by
    rcases List.mem_append.1 hb with hb | hb
    · exact h.stays hforce b hb
    · rw [List.mem_singleton.1 hb]
      exact hstay hforce

end Account

/-- A discovery has come to some progress and an endpoint by some attempts. -/
structure CameTo (r : Nat) (force : Bool) (start : Endpoint) (as : List Attempt) (p : Progress)
    (e : Endpoint) : Prop extends
    Account r force start as p.servers p.allFailed fun a => e.active ≠ a.endpoint.active where
  last_eq : p.cursor = lastCollected as
  failed_eq : p.failed = failedInARow e.active as
  failed_lt : p.failed < r
  endpoint_eq : force = false → e = start

/-- A discovery ends with its list: it is complete, or no further page is got. -/
def ListedBy (result : Except ClientError (List SocketAddressV4)) (servers : List SocketAddressV4) :
    Prop :=
  result = .ok servers ∨ ∃ n, result = .error (.exhausted n servers)

namespace CameTo

variable {r : Nat} {force : Bool} {start e : Endpoint} {as : List Attempt} {a : Attempt}
  {p q : Progress} {servers : List SocketAddressV4}

theorem refl (hr : 0 < r) : CameTo r force start [] {} start where
  cursor_eq before b after hsplit := by simp at hsplit
  servers_eq := rfl
  failures_eq := rfl
  left_iff before b after hsplit := by simp at hsplit
  stays _ b hb := nomatch hb
  last_eq := rfl
  failed_eq := rfl
  failed_lt := hr
  endpoint_eq _ := rfl

/-- An attempt after which a discovery goes on brings it to its next progress. -/
theorem step (h : CameTo r force start as p a.endpoint) (hcursor : a.cursor = p.cursor)
    (hleads : a.LeadsTo force r p (.ok (.resume q)) e) : CameTo r force start (as ++ [a]) q e := by
  have hlast := hcursor.trans h.last_eq
  have hlt := h.failed_lt
  have hfailed := h.failed_eq
  cases hleads with
  | more hmore hnew =>
    have hno := Attempt.failed_of_found hnew
    have haccount : Account r force start (as ++ [a]) _ _
        fun b => a.endpoint.active ≠ b.endpoint.active :=
      h.snoc hlast h.endpoint_eq (fun _ => Iff.rfl) (by simp [hno])
    rw [hno, if_neg Bool.false_ne_true, UInt32.add_zero] at haccount
    refine ⟨haccount, ?_, ?_, Nat.zero_lt_of_lt hlt, h.endpoint_eq⟩
    · rw [lastCollected_snoc, ← h.last_eq]
      rfl
    · rw [failedInARow_snoc, hno]
      rfl
  | again hfail hmore =>
    have hquiet := Attempt.harvest_of_failed hfail
    have haccount : Account r force start (as ++ [a]) _ _
        fun b => a.endpoint.active ≠ b.endpoint.active :=
      h.snoc hlast h.endpoint_eq (fun _ => Iff.rfl) (by simp; omega)
    rw [hfail, hquiet, List.append_nil] at haccount
    refine ⟨haccount, ?_, ?_, hmore, h.endpoint_eq⟩
    · rw [lastCollected_snoc, hquiet]
      exact h.last_eq
    · rw [failedInARow_snoc, hfail, ← hfailed, beq_self_eq_true]
      rfl
  | elsewhere hfail hle hforce hnext =>
    have hquiet := Attempt.harvest_of_failed hfail
    have hactive := Endpoint.active_next_of_ne_zero hnext
    have hne : a.endpoint.next.active ≠ a.endpoint.active := by omega
    have haccount : Account r force start (as ++ [a]) _ _
        fun b => a.endpoint.next.active ≠ b.endpoint.active :=
      h.snoc hlast h.endpoint_eq (fun _ => Iff.rfl) (iff_of_true hne ⟨hfail, by omega⟩)
    rw [hfail, hquiet, List.append_nil] at haccount
    refine ⟨haccount, ?_, ?_, Nat.zero_lt_of_lt hlt, fun hf => ?_⟩
    · rw [lastCollected_snoc, hquiet]
      exact h.last_eq
    · have hother : (a.endpoint.active == a.endpoint.next.active) = false := by
        rw [beq_eq_false_iff_ne]
        exact hne.symm
      rw [failedInARow_snoc, hother, Bool.and_false]
      rfl
    · rw [hforce] at hf
      cases hf

theorem finish {left : Prop} (h : CameTo r force start as p a.endpoint)
    (hcursor : a.cursor = p.cursor) (hleads : a.LeadsTo force r p (.ok (.finish servers)) e)
    (hleft : ¬left) :
    (∃ failures, Account r force start (as ++ [a]) servers failures fun _ => left) ∧
      (force = false → e = start) := by
  cases hleads with
  | last hlast =>
    have hno := Attempt.failed_of_isLast hlast
    refine ⟨⟨_, h.snoc (hcursor.trans h.last_eq) h.endpoint_eq (fun _ => Iff.rfl) ?_⟩, h.endpoint_eq⟩
    simp [hno, hleft]

theorem exhaust {left : Prop} {n : UInt32} (h : CameTo r force start as p a.endpoint)
    (hcursor : a.cursor = p.cursor)
    (hleads : a.LeadsTo force r p (.error (.exhausted n servers)) e) (hleft : left) :
    Account r force start (as ++ [a]) servers n (fun _ => left) ∧ (force = false → e = start) := by
  generalize he : ClientError.exhausted n servers = error at hleads
  cases hleads with
  | exhausted hfail hle hend hstay =>
    cases he
    have hlt := h.failed_lt
    have hfailed := h.failed_eq
    have haccount : Account r force start (as ++ [a]) _ _ fun _ => left :=
      h.snoc (hcursor.trans h.last_eq) h.endpoint_eq (fun _ => Iff.rfl)
        (iff_of_true hleft ⟨hfail, by omega⟩)
    rw [hfail, Attempt.harvest_of_failed hfail, List.append_nil] at haccount
    exact ⟨haccount, fun hf => (hstay hf).trans (h.endpoint_eq hf)⟩
  | unopened f => exact absurd he.symm (ClientError.isPlain_ofFailure f n servers)
  | broken hplain => exact absurd he.symm (hplain n servers)

end CameTo

/-! ## A whole discovery -/

namespace MasterServer

/-- The attempts of a discovery that goes on from some progress. -/
def attemptsFrom (region : Region) (filter : String) (force : Bool) (r : Nat) :
    Nat → Progress → MasterServer × Network → List Attempt
  | 0, _, _ => []
  | limit + 1, p, w =>
    attemptAt region filter p.cursor w ::
      match step region filter force r p w with
      | .ok (.resume q) v => attemptsFrom region filter force r limit q v
      | _ => []

/-- The attempts of a whole discovery. -/
def attemptsOf (limit : Nat) (region : Region) (filter : String) (force : Bool)
    (w : MasterServer × Network) : List Attempt :=
  attemptsFrom region filter force (w.1.attempts w.2.settings) limit {} w

variable {region : Region} {filter : String} {force : Bool} {r : Nat} {start : Endpoint}

theorem resume_ends (limit : Nat) {before : List Attempt} {p : Progress}
    {w : MasterServer × Network} (hw : w.1.IsBound)
    (h : CameTo r force start before p w.1.endpoint) :
    Ends (resume region filter force r limit p) w fun result v => ∀ servers,
      ListedBy result servers →
        (∃ failures, Account r force start (before ++ attemptsFrom region filter force r limit p w)
            servers failures (fun _ => ∃ n, result = .error (.exhausted n servers)) ∧
          ∀ n, result = .error (.exhausted n servers) → n = failures) ∧
        (force = false → v.1.endpoint = start) ∧
        exchanges v.2.history = exchanges w.2.history ++
          (attemptsFrom region filter force r limit p w).flatMap
            (Attempt.exchanges region filter) := by
  -- Induction on what is left of the limit, with the attempts made so far as a parameter.
  induction limit generalizing before p w with
  | zero =>
    refine ends_throw fun servers hlisted => ?_
    rcases hlisted with hlisted | ⟨n, hlisted⟩ <;> cases hlisted
  | succ limit ih =>
    have hends := step_ends region filter force r p hw
    cases hstep : step region filter force r p w with
    | ok next v =>
      obtain ⟨hleads, hbound, hhistory⟩ := hends.of_eq_ok hstep
      refine ends_bind_of_ok hstep ?_
      have hadd := hhistory nofun
      cases next with
      | finish servers =>
        have hattempts : attemptsFrom region filter force r (limit + 1) p w =
            [attemptAt region filter p.cursor w] := by rw [attemptsFrom, hstep]
        rw [hattempts, List.flatMap_singleton]
        refine ends_pure fun servers' hlisted => ?_
        rcases hlisted with hlisted | ⟨n, hlisted⟩
        · cases hlisted
          have hleft : ¬∃ n, (Except.ok servers : Except ClientError (List SocketAddressV4)) =
              .error (.exhausted n servers) := nofun
          obtain ⟨⟨failures, haccount⟩, hstay⟩ := h.finish rfl hleads hleft
          exact ⟨⟨failures, haccount, nofun⟩, hstay, hadd⟩
        · cases hlisted
      | resume q =>
        have hattempts : attemptsFrom region filter force r (limit + 1) p w =
            attemptAt region filter p.cursor w :: attemptsFrom region filter force r limit q v := by
          rw [attemptsFrom, hstep]
        refine (ih hbound (h.step rfl hleads)).imp fun result u hu servers hlisted => ?_
        obtain ⟨haccount, hstay, hhistory'⟩ := hu servers hlisted
        rw [List.append_assoc, List.singleton_append] at haccount
        rw [hattempts]
        refine ⟨haccount, hstay, ?_⟩
        rw [hhistory', hadd, List.flatMap_cons, List.append_assoc]
    | error e v =>
      obtain ⟨hleads, hbound, hhistory⟩ := hends.of_eq_error hstep
      refine ends_of_error (bind_of_error hstep _) fun servers hlisted => ?_
      have hattempts : attemptsFrom region filter force r (limit + 1) p w =
          [attemptAt region filter p.cursor w] := by rw [attemptsFrom, hstep]
      rcases hlisted with hlisted | ⟨n, hlisted⟩
      · cases hlisted
      · cases hlisted
        have hleft : ∃ m, (Except.error (.exhausted n servers) :
            Except ClientError (List SocketAddressV4)) = .error (.exhausted m servers) := ⟨n, rfl⟩
        obtain ⟨haccount, hstay⟩ := h.exhaust rfl hleads hleft
        rw [hattempts, List.flatMap_singleton]
        refine ⟨⟨n, haccount, ?_⟩, hstay, hhistory ?_⟩
        · rintro m hm
          cases hm
          rfl
        · rintro e' he' hplain
          cases he'
          exact hplain n servers rfl

theorem resume_isBound (limit : Nat) {p : Progress} {w : MasterServer × Network}
    (hw : w.1.IsBound) : Ends (resume region filter force r limit p) w fun _ v => v.1.IsBound := by
  induction limit generalizing p w with
  | zero => exact hw
  | succ limit ih =>
    refine (step_ends region filter force r p hw).bind ?_ ?_
    · rintro (servers | q) v ⟨-, hbound, -⟩
      · exact hbound
      · exact ih hbound
    · rintro e v ⟨-, hbound, -⟩
      exact hbound

/-- A client is connected to some endpoint, and since then it has been used, and anything has
happened to the network around it. -/
inductive Reached : MasterServer × Network → Prop
  | connect {σ : Type} {endpoint : Endpoint} {w v : σ × Network} {s : MasterServer}
    (h : connect endpoint w = .ok s v) : Reached (s, v.2)
  | elsewhere {s : MasterServer} {n : Network} (h : Reached (s, n)) (m : Network) : Reached (s, m)
  | setTimeout {s : MasterServer} {n : Network} (h : Reached (s, n)) (timeout : Option Nat) :
    Reached (s.setTimeout timeout, n)
  | setRetries {s : MasterServer} {n : Network} (h : Reached (s, n)) (retries : Option Nat) :
    Reached (s.setRetries retries, n)
  | discover {w v : MasterServer × Network} {limit : Nat} {region : Region} {filter : String}
    {force : Bool} {result : Except ClientError (List SocketAddressV4)} (h : Reached w)
    (hv : Dialog.outcome (getServers limit region filter force) w = .ok result v) : Reached v

theorem Reached.isBound {w : MasterServer × Network} (h : Reached w) : w.1.IsBound := by
  induction h with
  | connect h =>
    obtain ⟨c, v, hbuild, h⟩ := bind_eq_ok h
    cases h
    obtain ⟨hreconnect, -⟩ := build_eq_ok hbuild
    obtain ⟨hendpoint, -, hfresh, -⟩ := (MasterSession.reconnect_ends _ _).of_eq_ok hreconnect
    change MasterSession.IsBound c.owner c.endpoint.address
    rw [hendpoint]
    exact hfresh.isBound
  | elsewhere h m ih => exact ih
  | @setTimeout s n h timeout ih =>
    intro c hc
    obtain ⟨c', hc', rfl⟩ := Option.map_eq_some_iff.1 hc
    exact ih c' hc'
  | setRetries h retries ih => exact ih
  | @discover w v limit region filter force result h hv ih =>
    have hends : Ends (getServers limit region filter force) w fun _ v => v.1.IsBound :=
      ends_state_bind (ends_network_bind (resume_isBound limit ih))
    exact hends.of_outcome hv

/-- However a discovery goes that ends with its list, what was asked and answered is what its
attempts say, the cursor of each is the last address collected before it, the list is what their
pages bring, and the address is left, or the discovery given up, exactly at each failed attempt
that is the last one allowed in a row. -/
theorem account_of_getServers {w v : MasterServer × Network} {limit : Nat} {region : Region}
    {filter : String} {force : Bool} {result : Except ClientError (List SocketAddressV4)}
    {servers : List SocketAddressV4} (hw : Reached w) (hr : 1 ≤ w.1.attempts w.2.settings)
    (h : Dialog.outcome (getServers limit region filter force) w = .ok result v)
    (hlisted : ListedBy result servers) :
    let as := attemptsOf limit region filter force w
    exchanges v.2.history =
        exchanges w.2.history ++ as.flatMap (Attempt.exchanges region filter) ∧
      (∀ before a after, as = before ++ a :: after → a.cursor = lastCollected before) ∧
      servers = collected as ∧
      (∀ n, result = .error (.exhausted n servers) →
        n.toNat = as.countP Attempt.failed % UInt32.size) ∧
      (∀ before a after, as = before ++ a :: after →
        ((∃ b ∈ after.head?, b.endpoint.active ≠ a.endpoint.active) ∨
            after = [] ∧ (∃ n, result = .error (.exhausted n servers)) ↔
          a.failed = true ∧
            failedInARow a.endpoint.active before + 1 = w.1.attempts w.2.settings)) ∧
      (force = false → v.1.endpoint = w.1.endpoint ∧ ∀ a ∈ as, a.endpoint = w.1.endpoint) := by
  have hcame : CameTo (w.1.attempts w.2.settings) force w.1.endpoint [] {} w.1.endpoint := .refl hr
  have hends : Ends (getServers limit region filter force) w _ :=
    ends_state_bind (ends_network_bind (resume_ends limit hw.isBound hcame))
  obtain ⟨⟨failures, haccount, hfailures⟩, hstay, hhistory⟩ :=
    hends.of_outcome h servers hlisted
  refine ⟨hhistory, haccount.cursor_eq, haccount.servers_eq, fun n hn => ?_, haccount.left_iff,
    fun hforce => ⟨hstay hforce, haccount.stays hforce⟩⟩
  rw [hfailures n hn, haccount.failures_eq]
  exact UInt32.toNat_ofNat'

section Fading

def fadingServer (number : UInt8) : SocketAddressV4 := ⟨⟨10, 0, 0, number⟩, gamePort⟩

/-- The pages behind the cursors of a list of three servers. -/
def fadingPages : List (SocketAddressV4 × List SocketAddressV4) :=
  [(sentinel, [fadingServer 1]), (fadingServer 1, [fadingServer 1, fadingServer 2]),
    (fadingServer 2, [fadingServer 3]), (fadingServer 3, [sentinel])]

def fadingAddress (number : UInt8) : SocketAddress := .v4 ⟨⟨192, 0, 2, number⟩, masterPort⟩

/-- One master server sends the first page only, another all pages. -/
def fadingWorld : World where
  connect _ _ _ := none
  react _ _ peer bytes :=
    match fadingPages.find? fun (cursor, _) => ListingQuery.bytes ⟨.world, cursor, ""⟩ = bytes with
    | none => .ok []
    | some (cursor, page) =>
      .ok (if peer = fadingAddress 1 ∧ cursor ≠ sentinel then [] else [.data (Page.datagram page)])
  resolve _ := none
  sessionId _ := 0

def fadingEndpoint : Endpoint where
  host := "masters"
  addresses := [fadingAddress 1, fadingAddress 2]
  active := 0
  active_lt := by decide

/-- A client of both that asks for a page twice. -/
def fadingClient : MasterServer where
  connection := ⟨fadingEndpoint, { channel := some (ListingChannel.fresh (fadingAddress 1) none) }⟩
  retries := some 2

def fadingStart : MasterServer × Network := (fadingClient, { world := fadingWorld })

theorem fadingStart_reached : Reached fadingStart := by
  have hconnect : connect fadingEndpoint ((), fadingStart.2) =
      .ok { fadingClient with retries := none } ((), _) := rfl
  exact .elsewhere (.setRetries (.connect hconnect) (some 2)) _

theorem account_of_getServers_fading : ∃ v,
    1 ≤ fadingStart.1.attempts fadingStart.2.settings ∧
      Dialog.outcome (getServers 9 .world "" false) fadingStart =
        .ok (.error (.exhausted 2 [fadingServer 1])) v ∧
      let as := attemptsOf 9 .world "" false fadingStart
      exchanges v.2.history =
          exchanges fadingStart.2.history ++ as.flatMap (Attempt.exchanges .world "") ∧
        [fadingServer 1] = collected as ∧ 2 = as.countP Attempt.failed % UInt32.size ∧
        v.1.endpoint = fadingEndpoint := by
  have hrun : (match getServers 9 .world "" false fadingStart with
      | .ok _ _ => false
      | .error e _ => e = .exhausted 2 [fadingServer 1]) = true := by decide +kernel
  cases hget : getServers 9 .world "" false fadingStart with
  | ok servers v =>
    rw [hget] at hrun
    cases hrun
  | error e v =>
    rw [hget] at hrun
    have he : e = .exhausted 2 [fadingServer 1] := of_decide_eq_true hrun
    subst he
    have houtcome := Dialog.outcome_of_error hget
    obtain ⟨hhistory, -, hservers, hfailures, -, hstays⟩ :=
      account_of_getServers fadingStart_reached (by decide) houtcome (.inr ⟨2, rfl⟩)
    exact ⟨v, by decide, houtcome, hhistory, hservers, hfailures 2 rfl, (hstays rfl).1⟩

end Fading

end MasterServer

end GameQuery
