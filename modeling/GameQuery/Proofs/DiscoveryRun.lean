import GameQuery.Proofs.DiscoveryAccount

namespace GameQuery

/-!
# Runs of a discovery

What holds at the start of a discovery and is kept by every attempt after which it goes on holds
wherever it ends: this is the rule `ends_getServers`, from which facts about whole discoveries are
proved one attempt at a time. An attempt finds the client bound to its active address, with the
addresses and the budget it had at the start, in the world it had at the start.
-/

open Dialog

/-! ## Budgets -/

/-- The settings that a program can come to. -/
inductive Settings.Attained : Settings → Prop
  | initial : Attained {}
  | setTimeout {s : Settings} (h : Attained s) (micros : Nat) : Attained (s.setTimeout micros)
  | setRetries {s : Settings} (h : Attained s) (retries : Nat) : Attained (s.setRetries retries)

theorem Settings.Attained.retries_pos {s : Settings} (h : s.Attained) : 1 ≤ s.retries := by
  induction h with
  | initial => decide
  | setTimeout h micros ih => exact ih
  | setRetries h retries ih => exact Nat.le_max_left 1 retries

theorem Endpoint.active_of_next_eq_zero {e : Endpoint} (h : e.next.active = 0) :
    e.active + 1 = e.addresses.length := by
  rw [active_next] at h
  rcases Nat.lt_or_eq_of_le e.active_lt with hlt | heq
  · rw [Nat.mod_eq_of_lt hlt] at h
    cases h
  · exact heq

/-- What is there after a dialog, however it ends. -/
def Dialog.afterwards {σ α : Type} (d : Dialog σ α) (w : σ × Network) : σ × Network :=
  match d w with
  | .ok _ v => v
  | .error _ v => v

theorem Dialog.outcome_eq_afterwards {σ α : Type} (d : Dialog σ α) (w : σ × Network) :
    ∃ r, outcome d w = .ok r (afterwards d w) := by
  simp only [outcome, afterwards]
  cases d w with
  | ok a v => exact ⟨.ok a, rfl⟩
  | error e v => exact ⟨.error e, rfl⟩

theorem Dialog.Moves.afterwards {σ α : Type} {R : σ × Network → σ × Network → Prop}
    {d : Dialog σ α} (h : Moves R d) (w : σ × Network) : R w (afterwards d w) := by
  obtain ⟨r, hr⟩ := outcome_eq_afterwards d w
  exact (h w).of_outcome hr

theorem Dialog.Moves.outcome {σ α : Type} {R : σ × Network → σ × Network → Prop} {d : Dialog σ α}
    (h : Moves R d) : Moves R (outcome d) := fun w => (h w).outcome

namespace MasterServer

/-- Time has passed around a client, whose addresses and budget are what they were. -/
structure Proceeds (w v : MasterServer × Network) : Prop where
  world : v.2.world = w.2.world
  history : w.2.history <:+ v.2.history
  addresses : v.1.endpoint.addresses = w.1.endpoint.addresses
  retries : v.1.retries = w.1.retries

theorem Proceeds.refl (w : MasterServer × Network) : Proceeds w w :=
  ⟨rfl, List.suffix_refl _, rfl, rfl⟩

theorem Proceeds.trans {u v w : MasterServer × Network} (h : Proceeds u v) (h' : Proceeds v w) :
    Proceeds u w where
  world := h'.world.trans h.world
  history := h.history.trans h'.history
  addresses := h'.addresses.trans h.addresses
  retries := h'.retries.trans h.retries

instance : Std.Refl Proceeds := ⟨Proceeds.refl⟩

instance : Trans Proceeds Proceeds Proceeds := ⟨Proceeds.trans⟩

variable {region : Region} {filter : String} {force : Bool} {r : Nat} {p : Progress}

/-! ## What an attempt keeps -/

section Moves

variable {Q R : MasterServer × Network → MasterServer × Network → Prop} [Std.Refl R] [Trans R R R]

theorem moves_afterFailure (hnote : ∀ level text, Moves R (noteEndpoint level text))
    (hrotate : Moves R (.on connectionPart Connection.rotate)) :
    Moves R (afterFailure force r p) := by
  simp only [afterFailure]
  split
  · exact (hnote _ _).bind fun _ => moves_pure _
  · split
    · apply hrotate.bind
      intro back
      split
      · exact moves_throw _
      · exact moves_pure _
    · exact moves_throw _

/-- Besides getting the page, an attempt only adds to the log and rotates. -/
theorem moves_step [Trans Q R Q] (hfetch : ∀ cursor, Moves Q (fetchPage region filter cursor))
    (hnote : ∀ level text, Moves R (noteEndpoint level text))
    (hrotate : Moves R (.on connectionPart Connection.rotate)) :
    Moves Q (step region filter force r p) := by
  have hafter : Moves R (afterFailure force r p) := moves_afterFailure hnote hrotate
  intro w
  refine ((hfetch p.cursor).outcome w).bind (fun res v hv => ?_) fun _ _ hv => hv
  have hrest : ∀ {d : Dialog MasterServer Next}, Moves R d → Ends d v fun _ u => Q w u := by
    intro d hd
    refine (hd v).imp fun _ u hu => ?_
    have htrans : Q w u := Trans.trans hv hu
    exact htrans
  split
  · split
    · exact hrest ((hnote _ _).bind fun _ => moves_pure _)
    · split
      · exact hrest (moves_pure _)
      · exact hrest ((hnote _ _).bind fun _ => hafter)
  · split
    · exact hrest ((hnote _ _).bind fun _ => hafter)
    · exact hrest (moves_throw _)

end Moves

theorem proceeds_note (level : LogLevel) (text : String) :
    Moves Proceeds (noteEndpoint level text) := by
  apply moves_state.bind
  intro s
  exact moves_modifyNetwork fun _ _ => ⟨rfl, List.suffix_refl _, rfl, rfl⟩

theorem proceeds_reconnect : Moves Proceeds (.on connectionPart Connection.reconnect) := by
  rintro ⟨s, n⟩
  have hget : connectionPart.get? s = some s.connection := rfl
  refine Ends.on hget ((MasterSession.reconnect_ends s.connection n).imp ?_)
  rintro (e | _) v ⟨hendpoint, hworld, hv⟩
  · obtain ⟨-, f, -, -, hhistory⟩ := hv
    exact ⟨hworld, hhistory ▸ List.suffix_cons _ _, congrArg Endpoint.addresses hendpoint, rfl⟩
  · exact ⟨hworld, hv.2 ▸ List.suffix_cons _ _, congrArg Endpoint.addresses hendpoint, rfl⟩

theorem proceeds_rotate : Moves Proceeds (.on connectionPart Connection.rotate) := by
  rintro ⟨s, n⟩
  have hget : connectionPart.get? s = some s.connection := rfl
  refine Ends.on hget (ends_state_bind (ends_modifyState_bind (ends_bind_of_ok rfl ?_)))
  have hopen := MasterSession.reconnect_ends { s.connection with endpoint := s.endpoint.next }
    (n.logLine .info ("switching to " ++ toString s.endpoint.next))
  refine hopen.bind ?_ ?_
  · rintro _ v ⟨hendpoint, hworld, -, hhistory⟩
    have haddresses : v.1.endpoint.addresses = s.endpoint.addresses := by
      rw [hendpoint, Endpoint.addresses_next]
    exact ends_pure ⟨hworld, hhistory ▸ List.suffix_cons _ _, haddresses, rfl⟩
  · rintro e v ⟨hendpoint, hworld, -, f, -, -, hhistory⟩
    have haddresses : v.1.endpoint.addresses = s.endpoint.addresses := by
      rw [hendpoint, Endpoint.addresses_next]
    exact ⟨hworld, hhistory ▸ List.suffix_cons _ _, haddresses, rfl⟩

theorem proceeds_openUp : Moves Proceeds openUp := by
  refine moves_state.bind fun s => ?_
  split
  · exact moves_pure _
  · exact proceeds_reconnect

theorem proceeds_fetchPage (cursor : SocketAddressV4) :
    Moves Proceeds (fetchPage region filter cursor) := by
  rw [fetchPage_eq]
  refine proceeds_openUp.bind fun _ => Moves.map _ ?_
  refine (ListingChannel.laterOf_ask ⟨region, cursor, filter⟩).on ?_
  intro s n c v hc hlater
  obtain ⟨new, hnew, -⟩ := hlater.history
  exact ⟨hlater.world, ⟨new, hnew.symm⟩, rfl, rfl⟩

theorem proceeds_step : Moves Proceeds (step region filter force r p) :=
  moves_step proceeds_fetchPage proceeds_note proceeds_rotate

theorem proceeds_resume (limit : Nat) : Moves Proceeds (resume region filter force r limit p) := by
  induction limit generalizing p with
  | zero => exact moves_throw _
  | succ limit ih =>
    refine proceeds_step.bind fun next => ?_
    cases next with
    | finish servers => exact moves_pure _
    | resume q => exact ih

theorem proceeds_getServers (limit : Nat) : Moves Proceeds (getServers limit region filter force) :=
  moves_state.bind fun _ => moves_network.bind fun _ => proceeds_resume limit

theorem Reached.attempts_pos {w : MasterServer × Network} (hw : Reached w)
    (hsettings : w.2.settings.Attained) : 1 ≤ w.1.attempts w.2.settings := by
  have hretries : ∀ n, w.1.retries = some n → 1 ≤ n := by
    clear hsettings
    induction hw with
    | connect h =>
      obtain ⟨c, v, -, h⟩ := bind_eq_ok h
      cases h
      exact nofun
    | elsewhere h m ih => exact ih
    | setTimeout h timeout ih => exact ih
    | setRetries h retries ih =>
      intro n hn
      obtain ⟨m, -, rfl⟩ := Option.map_eq_some_iff.1 hn
      exact Nat.le_max_left 1 m
    | discover h hv ih =>
      rw [((proceeds_getServers _ _).of_outcome hv).retries]
      exact ih
  rw [attempts]
  cases hown : w.1.retries with
  | none => exact hsettings.retries_pos
  | some n => exact hretries n hown

/-! ## The rule -/

/-- A discovery from `w` has come to some progress, a client and a network by some attempts. -/
structure Arrived (w : MasterServer × Network) (r : Nat) (force : Bool) (as : List Attempt)
    (p : Progress) (v : MasterServer × Network) : Prop where
  bound : v.1.IsBound
  proceeds : Proceeds w v
  came : CameTo r force w.1.endpoint as p v.1.endpoint

section Rule

variable {w : MasterServer × Network} {I : List Attempt → Progress → MasterServer × Network → Prop}
  {P : List Attempt → Except ClientError (List SocketAddressV4) → MasterServer × Network → Prop}

/-- How a step that goes along with an invariant and a postcondition ends. -/
def StepKeeps (I : List Attempt → Progress → MasterServer × Network → Prop)
    (P : List Attempt → Except ClientError (List SocketAddressV4) → MasterServer × Network → Prop)
    (as : List Attempt) : Except ClientError Next → MasterServer × Network → Prop
  | .ok (.finish servers), v => P as (.ok servers) v
  | .ok (.resume q), v => I as q v
  | .error e, v => P as (.error e) v

theorem ends_resume
    (hlimit : ∀ as p v, Arrived w r force as p v → I as p v → P as (.error .limit) v)
    (hstep : ∀ as p v, Arrived w r force as p v → I as p v →
      let a := attemptAt region filter p.cursor v
      Ends (step region filter force r p) v fun res u =>
        a.LeadsTo force r p res u.1.endpoint → StepKeeps I P (as ++ [a]) res u)
    (limit : Nat) {as : List Attempt} {v : MasterServer × Network}
    (harrived : Arrived w r force as p v) (h : I as p v) :
    Ends (resume region filter force r limit p) v
      (P (as ++ attemptsFrom region filter force r limit p v)) := by
  -- The attempt of a step moves to the end of `as`, so that the invariant speaks of all before it.
  induction limit generalizing as p v with
  | zero =>
    rw [attemptsFrom, List.append_nil]
    exact ends_throw (hlimit as p v harrived h)
  | succ limit ih =>
    have hends := ((step_ends region filter force r p harrived.bound).and
      (proceeds_step v)).and (hstep as p v harrived h)
    rw [attemptsFrom]
    cases hrun : step region filter force r p v with
    | error e u =>
      obtain ⟨⟨⟨hleads, -⟩, -⟩, hkeeps⟩ := hends.of_eq_error hrun
      exact ends_of_error (bind_of_error hrun _) (hkeeps hleads)
    | ok next u =>
      obtain ⟨⟨⟨hleads, hbound, -⟩, hproceeds⟩, hkeeps⟩ := hends.of_eq_ok hrun
      refine ends_bind_of_ok hrun ?_
      cases next with
      | finish servers => exact ends_pure (hkeeps hleads)
      | resume q =>
        have harrived' : Arrived w r force (as ++ [attemptAt region filter p.cursor v]) q u :=
          ⟨hbound, harrived.proceeds.trans hproceeds, harrived.came.step rfl hleads⟩
        have hrest := ih harrived' (hkeeps hleads)
        rwa [List.append_assoc, List.singleton_append] at hrest

theorem ends_getServers (hw : w.1.IsBound) (hr : 0 < w.1.attempts w.2.settings)
    (hlimit : ∀ as p v, Arrived w (w.1.attempts w.2.settings) force as p v → I as p v →
      P as (.error .limit) v)
    (hstep : ∀ as p v, Arrived w (w.1.attempts w.2.settings) force as p v → I as p v →
      let a := attemptAt region filter p.cursor v
      Ends (step region filter force (w.1.attempts w.2.settings) p) v fun res u =>
        a.LeadsTo force (w.1.attempts w.2.settings) p res u.1.endpoint →
          StepKeeps I P (as ++ [a]) res u)
    (limit : Nat) (h : I [] {} w) :
    Ends (getServers limit region filter force) w (P (attemptsOf limit region filter force w)) :=
  ends_state_bind (ends_network_bind
    (ends_resume hlimit hstep limit ⟨hw, .refl w, .refl hr⟩ h))

end Rule

end MasterServer

end GameQuery
