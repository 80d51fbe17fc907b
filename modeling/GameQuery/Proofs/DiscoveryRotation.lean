import GameQuery.Proofs.DiscoveryRun

namespace GameQuery

/-!
# Addresses that a discovery gives up

A forced discovery gives an address up at the last attempt that may fail there in a row, and goes on
from the same cursor at the next address. It is over when the next address is the first one again,
and also when the socket to the next address cannot be opened. Where it has started does not matter
to it, so the addresses before the start are not asked.
-/

open Dialog

/-- The attempt is the last one that may fail in a row at its address. -/
def Attempt.GivesUp (r : Nat) (before : List Attempt) (a : Attempt) : Prop :=
  a.failed = true ∧ failedInARow a.endpoint.active before + 1 = r

instance (r : Nat) (before : List Attempt) (a : Attempt) : Decidable (a.GivesUp r before) :=
  inferInstanceAs (Decidable (_ ∧ _))

/-- The endpoint that a forced discovery has after an attempt. -/
def Attempt.leaves (r : Nat) (before : List Attempt) (a : Attempt) : Endpoint :=
  if a.GivesUp r before then a.endpoint.next else a.endpoint

namespace MasterServer

variable {region : Region} {filter : String} {r : Nat} {p : Progress} {as : List Attempt}
  {a : Attempt} {w v : MasterServer × Network}

/-! ## Rotations -/

/-- A client has gone on from an endpoint to the next address, and `P` tells what came of opening a
socket to it, which is the latest that has happened. -/
def Rotated (e : Endpoint) (v : MasterServer × Network) (P : Option Failure → Prop) : Prop :=
  v.1.endpoint = e.next ∧ ∃ failure,
    v.2.history.head? = some (.connected .udp e.next.address failure) ∧ P failure

theorem Rotated.imp {e : Endpoint} {P Q : Option Failure → Prop} (h : Rotated e v P)
    (hPQ : ∀ failure, P failure → Q failure) : Rotated e v Q := by
  obtain ⟨hendpoint, failure, hlatest, hP⟩ := h
  exact ⟨hendpoint, failure, hlatest, hPQ failure hP⟩

/-- How a step ends that gives an address up. -/
def AfterRotation (e : Endpoint) (p : Progress) (res : Except ClientError Next) :
    Option Failure → Prop
  | some f => res = .error (.ofFailure f)
  | none => res = if e.next.active = 0 then .error (.exhausted (p.allFailed + 1) p.servers)
      else .ok (.resume p.fail.moveOn)

theorem afterFailure_rotates (s : MasterServer) (n : Network) (hle : r ≤ p.failed + 1) :
    Ends (afterFailure true r p) (s, n) fun res v =>
      Rotated s.endpoint v (AfterRotation s.endpoint p res) := by
  apply ends_afterFailure
  · intro line hlt
    omega
  · intro _ hforce
    cases hforce
  · intro _ _
    refine (rotate_ends s n).imp ?_
    rintro (e | back) v ⟨hnext, -, -, hback⟩
    · obtain ⟨f, rfl, -, hhistory⟩ := hback
      exact ⟨hnext, some f, congrArg List.head? hhistory, rfl⟩
    · obtain ⟨rfl, -, hhistory⟩ := hback
      by_cases hfirst : s.endpoint.next.active = 0
      · rw [Endpoint.atFirst, decide_eq_true hfirst]
        exact ⟨hnext, none, congrArg List.head? hhistory, (if_pos hfirst).symm⟩
      · rw [Endpoint.atFirst, decide_eq_false hfirst]
        exact ⟨hnext, none, congrArg List.head? hhistory, (if_neg hfirst).symm⟩

theorem step_rotates (region : Region) (filter : String) (hw : w.1.IsBound)
    (hle : r ≤ p.failed + 1) :
    Ends (step region filter true r p) w fun res v =>
      (attemptAt region filter p.cursor w).failed = true →
        Rotated w.1.endpoint v (AfterRotation w.1.endpoint p res) := by
  have hfetch := fetchPage_ends region filter p.cursor hw
  have hcursor : (attemptAt region filter p.cursor w).cursor = p.cursor := rfl
  generalize attemptAt region filter p.cursor w = a at hcursor hfetch ⊢
  have hafter : ∀ (u : MasterServer × Network) line, u.1.endpoint = w.1.endpoint →
      Ends (afterFailure true r p) (u.1, u.2.logLine .debug line) fun res v =>
        a.failed = true → Rotated w.1.endpoint v (AfterRotation w.1.endpoint p res) := by
    intro u line hu
    rw [← hu]
    exact (afterFailure_rotates u.1 _ hle).imp fun _ _ hv _ => hv
  apply ends_step hfetch
  · rintro harvest u line ⟨-, -, page, hanswer, rfl, -⟩ hlast hfailed
    rw [← hcursor, ← Attempt.harvest_of_page hanswer] at hlast
    rw [Attempt.failed_of_isLast hlast] at hfailed
    cases hfailed
  · rintro harvest u ⟨-, -, page, hanswer, rfl, -⟩ - hnew hfailed
    rw [← hcursor, ← Attempt.harvest_of_page hanswer] at hnew
    rw [Attempt.failed_of_found hnew] at hfailed
    cases hfailed
  · rintro harvest u line ⟨hu, -⟩ - -
    exact hafter u line hu
  · rintro e u line ⟨hu, -⟩ -
    exact hafter u line hu
  · rintro e u ⟨-, -, -, hanswer, -⟩ hno hfailed
    rw [Attempt.failed_of_error hanswer, hno] at hfailed
    cases hfailed

/-! ## The way of a forced discovery -/

/-- Every attempt is made from the last address collected before it, where the attempt before it
leaves the client. -/
structure Onward (r : Nat) (as : List Attempt) : Prop where
  cursor : ∀ before a after, as = before ++ a :: after → a.cursor = lastCollected before
  next : ∀ before a b after, as = before ++ a :: b :: after → b.endpoint = a.leaves r before

theorem Onward.nil : Onward r [] := ⟨by simp, by simp⟩

theorem Onward.snoc (h : Onward r as) (hcursor : a.cursor = lastCollected as)
    (hnext : ∀ before b, as = before ++ [b] → a.endpoint = b.leaves r before) :
    Onward r (as ++ [a]) where
  cursor before b after hsplit := by
    rcases snoc_eq_append_cons hsplit with ⟨rfl, rfl, -⟩ | ⟨between, -, has⟩
    · exact hcursor
    · exact h.cursor before b between has
  next before b c after hsplit := by
    rcases snoc_eq_append_cons hsplit with ⟨-, -, hnil⟩ | ⟨between, hbetween, has⟩
    · cases hnil
    · cases between with
      | nil =>
        obtain ⟨rfl, -⟩ := List.cons.inj hbetween
        exact hnext before b has
      | cons d between =>
        obtain ⟨rfl, -⟩ := List.cons.inj hbetween
        exact h.next before b c between has

/-- A forced discovery has not ended, and the last attempt has left the client at its endpoint. -/
structure Departed (r : Nat) (as : List Attempt) (v : MasterServer × Network) : Prop where
  onward : Onward r as
  endpoint : ∀ before a, as = before ++ [a] → v.1.endpoint = a.leaves r before
  rotated : ∀ before a, as = before ++ [a] → a.GivesUp r before →
    Rotated a.endpoint v fun failure => failure = none ∧ a.endpoint.next.active ≠ 0

/-- How a forced discovery ends with a rotation. -/
def EndsRotated (as : List Attempt) (e : Endpoint)
    (result : Except ClientError (List SocketAddressV4)) : Option Failure → Prop
  | some f => result = .error (.ofFailure f)
  | none => result = if e.next.active = 0 then
      .error (.exhausted (UInt32.ofNat (as.countP Attempt.failed)) (collected as))
    else .error .limit

/-- How a forced discovery ends. -/
structure ForcedEnd (r : Nat) (as : List Attempt)
    (result : Except ClientError (List SocketAddressV4)) (v : MasterServer × Network) : Prop where
  onward : Onward r as
  rotated : ∀ before a, as = before ++ [a] → a.GivesUp r before →
    Rotated a.endpoint v (EndsRotated as a.endpoint result)
  givesUp : ∀ e, result = .error e → e.isTransport = true →
    ∃ before a, as = before ++ [a] ∧ a.GivesUp r before

theorem Departed.limit (h : Departed r as v) : ForcedEnd r as (.error .limit) v where
  onward := h.onward
  rotated before a has hgivesUp := by
    apply (h.rotated before a has hgivesUp).imp
    rintro failure ⟨rfl, hnext⟩
    exact (if_neg hnext).symm
  givesUp e he htransport := by
    cases he
    cases htransport

theorem forall_snoc {P : List Attempt → Attempt → Prop} (h : P as a) :
    ∀ before b, as ++ [a] = before ++ [b] → P before b := by
  intro before b hsplit
  obtain ⟨rfl, hlast⟩ := List.append_inj' hsplit rfl
  obtain ⟨rfl, -⟩ := List.cons.inj hlast
  exact h

theorem Arrived.givesUp_iff {force : Bool} (h : Arrived w r force as p v)
    (ha : a.endpoint = v.1.endpoint) : a.GivesUp r as ↔ a.failed = true ∧ r ≤ p.failed + 1 := by
  have hlt := h.came.failed_lt
  rw [Attempt.GivesUp, ha, ← h.came.failed_eq]
  constructor
  · rintro ⟨hfailed, hlast⟩
    exact ⟨hfailed, Nat.le_of_eq hlast.symm⟩
  · rintro ⟨hfailed, hle⟩
    exact ⟨hfailed, by omega⟩

theorem stepKeeps_of_rotated {force : Bool} {res : Except ClientError Next}
    (harrived : Arrived w r force as p v) (hgivesUp : a.GivesUp r as)
    (honward : Onward r (as ++ [a])) {u : MasterServer × Network}
    (h : Rotated a.endpoint u (AfterRotation a.endpoint p res)) :
    StepKeeps (fun as _ v => Departed r as v) (ForcedEnd r) (as ++ [a]) res u := by
  obtain ⟨hendpoint, failure, hlatest, hres⟩ := h
  have hgaveUp : ∃ before b, as ++ [a] = before ++ [b] ∧ b.GivesUp r before :=
    ⟨as, a, rfl, hgivesUp⟩
  cases failure with
  | some f =>
    obtain rfl : res = .error (.ofFailure f) := hres
    exact ⟨honward, forall_snoc fun _ => ⟨hendpoint, some f, hlatest, rfl⟩, fun _ _ _ => hgaveUp⟩
  | none =>
    by_cases hfirst : a.endpoint.next.active = 0
    · have hexhausted : res = .error (.exhausted (p.allFailed + 1) p.servers) :=
        hres.trans (if_pos hfirst)
      have hcount : p.allFailed + 1 = UInt32.ofNat ((as ++ [a]).countP Attempt.failed) := by
        rw [harrived.came.failures_eq, List.countP_append, List.countP_singleton, hgivesUp.1,
          UInt32.ofNat_add]
        rfl
      have hservers : p.servers = collected (as ++ [a]) := by
        rw [harrived.came.servers_eq, collected_snoc, Attempt.harvest_of_failed hgivesUp.1,
          List.append_nil]
      rw [hcount, hservers] at hexhausted
      subst hexhausted
      refine ⟨honward, forall_snoc fun _ => ?_, fun _ _ _ => hgaveUp⟩
      exact ⟨hendpoint, none, hlatest, (if_pos hfirst).symm⟩
    · obtain rfl : res = .ok (.resume p.fail.moveOn) := hres.trans (if_neg hfirst)
      refine ⟨honward, forall_snoc ?_, forall_snoc fun _ => ?_⟩
      · exact hendpoint.trans (if_pos hgivesUp).symm
      · exact ⟨hendpoint, none, hlatest, rfl, hfirst⟩

theorem stepKeeps_of_stays {force : Bool} {res : Except ClientError Next}
    (harrived : Arrived w r force as p v) (ha : a.endpoint = v.1.endpoint)
    (hstays : ¬a.GivesUp r as) (honward : Onward r (as ++ [a])) {u : MasterServer × Network}
    (h : a.LeadsTo true r p res u.1.endpoint) :
    StepKeeps (fun as _ v => Departed r as v) (ForcedEnd r) (as ++ [a]) res u := by
  have hno : ∀ {P : Prop}, a.GivesUp r as → P := fun h => absurd h hstays
  have hgoesOn : u.1.endpoint = a.endpoint → Departed r (as ++ [a]) u := by
    intro hu
    refine ⟨honward, forall_snoc ?_, forall_snoc hno⟩
    exact hu.trans (if_neg hstays).symm
  obtain ⟨e, hend⟩ : ∃ e, u.1.endpoint = e := ⟨_, rfl⟩
  rw [hend] at h
  cases h with
  | last hlast => exact ⟨honward, forall_snoc hno, nofun⟩
  | more hmore hnew => exact hgoesOn hend
  | again hfailed hlt => exact hgoesOn hend
  | elsewhere hfailed hle => exact hno ((harrived.givesUp_iff ha).2 ⟨hfailed, hle⟩)
  | exhausted hfailed hle => exact hno ((harrived.givesUp_iff ha).2 ⟨hfailed, hle⟩)
  | unopened f hfailed hle => exact hno ((harrived.givesUp_iff ha).2 ⟨hfailed, hle⟩)
  | broken hplain htransport =>
    refine ⟨honward, forall_snoc hno, fun e' he' h => ?_⟩
    cases he'
    rw [h] at htransport
    cases htransport

theorem getServers_forcedEnd (hw : w.1.IsBound) (hr : 0 < w.1.attempts w.2.settings)
    (limit : Nat) :
    Ends (getServers limit region filter true) w (ForcedEnd (w.1.attempts w.2.settings)
      (attemptsOf limit region filter true w)) := by
  refine ends_getServers (I := fun as _ v => Departed (w.1.attempts w.2.settings) as v) hw hr
    (fun _ _ _ _ h => h.limit) ?_ limit ⟨.nil, by simp, by simp⟩
  intro as p v harrived hdeparted a
  have honward : Onward (w.1.attempts w.2.settings) (as ++ [a]) :=
    hdeparted.onward.snoc harrived.came.last_eq hdeparted.endpoint
  by_cases hgivesUp : a.GivesUp (w.1.attempts w.2.settings) as
  · have hle := ((harrived.givesUp_iff rfl).1 hgivesUp).2
    refine (step_rotates region filter harrived.bound hle).imp fun res u hrotated _ => ?_
    exact stepKeeps_of_rotated harrived hgivesUp honward (hrotated hgivesUp.1)
  · exact ends_of_forall fun res u => stepKeeps_of_stays harrived rfl hgivesUp honward

end MasterServer

end GameQuery
