import GameQuery.Dialog

namespace GameQuery.Dialog

/-!
# What a dialog does

`Ends d w P` says that the outcome of `d` from `w`, whether a value or an error, and what is there
afterwards satisfy `P`. `Moves R d` says that `d` goes along a relation, however it ends. Every
construct of the language of dialogs has a rule for both, so that a specification is proved by
going through the text of a dialog.
-/

variable {σ τ α β : Type}

/-- The outcome of a dialog and what is there afterwards satisfy `P`. -/
def Ends (d : Dialog σ α) (w : σ × Network)
    (P : Except ClientError α → σ × Network → Prop) : Prop :=
  match d w with
  | .ok a v => P (.ok a) v
  | .error e v => P (.error e) v

variable {d : Dialog σ α} {w v : σ × Network} {P Q : Except ClientError α → σ × Network → Prop}

instance [∀ r v, Decidable (P r v)] : Decidable (Ends d w P) :=
  match h : d w with
  | .ok a v => decidable_of_iff (P (.ok a) v) (by simp only [Ends, h])
  | .error e v => decidable_of_iff (P (.error e) v) (by simp only [Ends, h])

theorem Ends.imp (h : Ends d w Q) (hQP : ∀ r v, Q r v → P r v) : Ends d w P := by
  simp only [Ends] at h ⊢
  split at h <;> exact hQP _ _ h

theorem Ends.congr {d' : Dialog σ α} (h : Ends d w P) (hd : d' w = d w) : Ends d' w P := by
  rwa [Ends, hd]

theorem ends_of_ok {a : α} (h : d w = .ok a v) (hP : P (.ok a) v) : Ends d w P := by
  simp only [Ends, h, hP]

theorem ends_of_error {e : ClientError} (h : d w = .error e v) (hP : P (.error e) v) :
    Ends d w P := by
  simp only [Ends, h, hP]

theorem Ends.and (hP : Ends d w P) (hQ : Ends d w Q) : Ends d w fun r v => P r v ∧ Q r v := by
  simp only [Ends] at hP hQ ⊢
  split at hP <;> simp_all

theorem ends_forall {ι : Type} {P : ι → Except ClientError α → σ × Network → Prop}
    (h : ∀ i, Ends d w (P i)) : Ends d w fun r v => ∀ i, P i r v := by
  unfold Ends at h ⊢
  split
  · next hd => exact fun i => by simpa only [hd] using h i
  · next hd => exact fun i => by simpa only [hd] using h i

theorem ends_of_forall (h : ∀ r v, P r v) : Ends d w P := by
  unfold Ends
  split <;> exact h _ _

theorem Ends.of_eq_ok (h : Ends d w P) {a : α} (hd : d w = .ok a v) : P (.ok a) v := by
  simpa only [Ends, hd] using h

theorem Ends.of_eq_error (h : Ends d w P) {e : ClientError} (hd : d w = .error e v) :
    P (.error e) v := by
  simpa only [Ends, hd] using h

theorem ends_pure {a : α} (h : P (.ok a) w) : Ends (pure a) w P := h

theorem ends_throw {e : ClientError} (h : P (.error e) w) : Ends (throw e : Dialog σ α) w P := h

theorem Ends.bind {f : α → Dialog σ β} {R : Except ClientError β → σ × Network → Prop}
    (h : Ends d w Q) (hok : ∀ a v, Q (.ok a) v → Ends (f a) v R)
    (herror : ∀ e v, Q (.error e) v → R (.error e) v) : Ends (d >>= f) w R := by
  simp only [Ends, Bind.bind, EStateM.bind] at h ⊢
  split at h
  · next a v hv =>
    rw [hv]
    exact hok a v h
  · next e v hv =>
    rw [hv]
    exact herror e v h

theorem ends_bind_of_ok {f : α → Dialog σ β} {R : Except ClientError β → σ × Network → Prop}
    {a : α} (h : d w = .ok a v) (hf : Ends (f a) v R) : Ends (d >>= f) w R := by
  refine Ends.bind (Q := fun r u => r = .ok a ∧ u = v) (ends_of_ok h ⟨rfl, rfl⟩) ?_ ?_
  · rintro b u ⟨hb, rfl⟩
    cases hb
    exact hf
  · rintro e u ⟨he, -⟩
    cases he

theorem ends_state_bind {f : σ → Dialog σ β} {R : Except ClientError β → σ × Network → Prop}
    (h : Ends (f w.1) w R) : Ends (state >>= f) w R := ends_bind_of_ok rfl h

theorem ends_network_bind {f : Network → Dialog σ β}
    {R : Except ClientError β → σ × Network → Prop} (h : Ends (f w.2) w R) :
    Ends (network >>= f) w R := ends_bind_of_ok rfl h

theorem ends_modifyState_bind {g : σ → σ} {f : Unit → Dialog σ β}
    {R : Except ClientError β → σ × Network → Prop} (h : Ends (f ()) (g w.1, w.2) R) :
    Ends (modifyState g >>= f) w R := ends_bind_of_ok rfl h

theorem Ends.on {p : Part τ σ} {s : τ} {n : Network}
    {R : Except ClientError α → τ × Network → Prop} {t : σ} (hp : p.get? s = some t)
    (h : Ends d (t, n) fun r v => R r (p.put v.1 s, v.2)) : Ends (on p d) (s, n) R := by
  simp only [Ends, Dialog.on, hp] at h ⊢
  split at h <;> next hv => simpa only [hv] using h

theorem build_eq_ok {start t : τ} {d : Dialog τ Unit} (h : build start d w = .ok t v) :
    d (start, w.2) = .ok () (t, v.2) ∧ v.1 = w.1 := by
  simp only [build] at h
  split at h
  · next hd =>
    cases h
    exact ⟨hd, rfl⟩
  · cases h

theorem Ends.build {start : τ} {d : Dialog τ Unit} {w : σ × Network}
    {P : Except ClientError τ → σ × Network → Prop}
    (h : Ends d (start, w.2) fun r v => P (r.map fun _ => v.1) (w.1, v.2)) :
    Ends (build start d) w P := by
  simp only [Ends, Dialog.build] at h ⊢
  split at h <;> next hv => simpa only [hv, Except.map] using h

theorem Ends.within {start : τ} {d : Dialog τ α} {w : σ × Network}
    {P : Except ClientError α → σ × Network → Prop}
    (h : Ends d (start, w.2) fun r v => P r (w.1, v.2)) : Ends (within start d) w P := by
  simp only [Ends, Dialog.within] at h ⊢
  split at h <;> next hv => simpa only [hv] using h

theorem bind_of_ok {a : α} (h : d w = .ok a v) (f : α → Dialog σ β) : (d >>= f) w = f a v := by
  simp only [Bind.bind, EStateM.bind, h]

theorem bind_of_error {e : ClientError} (h : d w = .error e v) (f : α → Dialog σ β) :
    (d >>= f) w = .error e v := by
  simp only [Bind.bind, EStateM.bind, h]

theorem state_bind (f : σ → Dialog σ β) : (state >>= f) w = f w.1 w := rfl

theorem network_bind (f : Network → Dialog σ β) : (network >>= f) w = f w.2 w := rfl

theorem modifyState_bind (g : σ → σ) (f : Unit → Dialog σ β) :
    (modifyState g >>= f) w = f () (g w.1, w.2) := rfl

theorem on_of_ok {p : Part τ σ} {s : τ} {n : Network} {t : σ} {a : α} (hp : p.get? s = some t)
    (h : d (t, n) = .ok a v) : on p d (s, n) = .ok a (p.put v.1 s, v.2) := by
  simp only [Dialog.on, hp, h]

theorem on_of_error {p : Part τ σ} {s : τ} {n : Network} {t : σ} {e : ClientError}
    (hp : p.get? s = some t) (h : d (t, n) = .error e v) :
    on p d (s, n) = .error e (p.put v.1 s, v.2) := by
  simp only [Dialog.on, hp, h]

/-- Two actions on a part are one action on it, if the part holds what is put there. -/
theorem on_bind {p : Part τ σ} (hget : ∀ s t u, p.get? s = some t → p.get? (p.put u s) = some u)
    (hput : ∀ s t u u', p.get? s = some t → p.put u' (p.put u s) = p.put u' s)
    (d : Dialog σ α) (f : α → Dialog σ β) :
    on p (d >>= f) = on p d >>= fun a => on p (f a) := by
  funext ⟨s, n⟩
  cases hp : p.get? s with
  | none =>
    have hd : on p d (s, n) = .error .dropped (s, n) := by simp only [on, hp]
    rw [bind_of_error hd]
    simp only [on, hp]
  | some t =>
    cases hd : d (t, n) with
    | error e v => rw [bind_of_error (on_of_error hp hd), on_of_error hp (bind_of_error hd f)]
    | ok a v =>
      rw [bind_of_ok (on_of_ok hp hd)]
      have hp' := hget s t v.1 hp
      cases hf : f a v with
      | ok b u =>
        rw [on_of_ok hp ((bind_of_ok hd f).trans hf), on_of_ok hp' hf, hput s t v.1 u.1 hp]
      | error e u =>
        rw [on_of_error hp ((bind_of_ok hd f).trans hf), on_of_error hp' hf, hput s t v.1 u.1 hp]

/-- An action on a part of a part, if nothing changes when what is there is put back. -/
theorem on_comp {υ : Type} {p : Part υ σ} {q : Part σ τ}
    (hput : ∀ s t, p.get? s = some t → p.put t s = s) (d : Dialog τ α) :
    on (p.comp q) d = on p (on q d) := by
  funext ⟨s, n⟩
  cases hp : p.get? s with
  | none => simp only [on, Part.comp, hp, Option.bind_none]
  | some t =>
    cases hq : q.get? t with
    | none => simp only [on, Part.comp, hp, hq, Option.bind_some, hput s t hp]
    | some u =>
      simp only [on, Part.comp, hp, hq, Option.bind_some]
      cases d (u, n) <;> rfl

theorem onError_of_ok {f : ClientError → Dialog σ Unit} {a : α} (h : d w = .ok a v) :
    onError d f w = .ok a v := by
  simp only [Dialog.onError, h]

theorem outcome_of_ok {a : α} (h : d w = .ok a v) : outcome d w = .ok (.ok a) v := by
  simp only [Dialog.outcome, h]

theorem outcome_of_error {e : ClientError} (h : d w = .error e v) :
    outcome d w = .ok (.error e) v := by
  simp only [Dialog.outcome, h]

/-- Lines in the log change nothing else. -/
theorem notes_eq (level : LogLevel) (lines : List String) (s : σ) (n : Network) :
    ∃ log, lines.forM (note level) (s, n) = .ok () (s, { n with log }) := by
  induction lines generalizing n with
  | nil => exact ⟨n.log, rfl⟩
  | cons line lines ih =>
    obtain ⟨log, hlog⟩ := ih (n.logLine level line)
    exact ⟨log, (bind_of_ok rfl _).trans hlog⟩

theorem ends_on_none {p : Part τ σ} {s : τ} {n : Network}
    {R : Except ClientError α → τ × Network → Prop} (hp : p.get? s = none)
    (h : R (.error .dropped) (s, n)) : Ends (on p d) (s, n) R := by
  simp only [Ends, Dialog.on, hp, h]

theorem Ends.outcome {R : Except ClientError (Except ClientError α) → σ × Network → Prop}
    (h : Ends d w fun r v => R (.ok r) v) : Ends (outcome d) w R := by
  simp only [Ends, Dialog.outcome] at h ⊢
  split at h <;> next hv => simpa only [hv] using h

theorem Ends.of_outcome (h : Ends d w P) {r : Except ClientError α}
    (hd : Dialog.outcome d w = .ok r v) : P r v := by
  have houtcome : Ends (Dialog.outcome d) w fun r' u => ∀ r, r' = .ok r → P r u := by
    refine Ends.outcome (h.imp fun r u hr r' he => ?_)
    cases he
    exact hr
  exact houtcome.of_eq_ok hd r rfl

theorem Ends.exists_outcome (h : Ends d w P) : ∃ r v, Dialog.outcome d w = .ok r v ∧ P r v := by
  cases hd : d w with
  | ok a v => exact ⟨.ok a, v, outcome_of_ok hd, h.of_eq_ok hd⟩
  | error e v => exact ⟨.error e, v, outcome_of_error hd, h.of_eq_error hd⟩

theorem Ends.outcome_bind {f : Except ClientError α → Dialog σ β}
    {R : Except ClientError β → σ × Network → Prop} (h : Ends d w Q)
    (hf : ∀ r v, Q r v → Ends (f r) v R) : Ends (Dialog.outcome d >>= f) w R := by
  obtain ⟨r, v, houtcome, hr⟩ := h.exists_outcome
  exact ends_bind_of_ok houtcome (hf r v hr)

theorem Ends.onError {f : ClientError → Dialog σ Unit} (h : Ends d w Q)
    (hok : ∀ a v, Q (.ok a) v → P (.ok a) v)
    (herror : ∀ e v, Q (.error e) v → Ends (f e) v fun r u =>
      match r with
      | .ok _ => P (.error e) u
      | .error e' => P (.error e') u) : Ends (onError d f) w P := by
  cases hd : d w with
  | ok a v =>
    refine ends_of_ok ?_ (hok a v (h.of_eq_ok hd))
    simp only [Dialog.onError, hd]
  | error e v =>
    have hf := herror e v (h.of_eq_error hd)
    cases hclean : f e v with
    | ok _ u =>
      refine ends_of_error ?_ (hf.of_eq_ok hclean)
      simp only [Dialog.onError, hd, bind_of_ok hclean]
      rfl
    | error e' u =>
      refine ends_of_error ?_ (hf.of_eq_error hclean)
      simp only [Dialog.onError, hd, Bind.bind, EStateM.bind, hclean]

theorem ends_ofCodec {x : Except CodecError α} (hok : ∀ a, x = .ok a → P (.ok a) w)
    (herror : ∀ e, x = .error e → P (.error (.ofCodec e)) w) : Ends (ofCodec x) w P := by
  cases x with
  | ok a => exact hok a rfl
  | error e => exact herror e rfl

theorem ends_ofCodec_bind {x : Except CodecError α} {f : α → Dialog σ β}
    {R : Except ClientError β → σ × Network → Prop} (hok : ∀ a, x = .ok a → Ends (f a) w R)
    (herror : ∀ e, x = .error e → R (.error (.ofCodec e)) w) : Ends (ofCodec x >>= f) w R := by
  cases x with
  | ok a => exact ends_bind_of_ok rfl (hok a rfl)
  | error e => exact herror e rfl

theorem Ends.map {f : α → β} {R : Except ClientError β → σ × Network → Prop}
    (h : Ends d w fun r v => R (r.map f) v) : Ends (f <$> d) w R := by
  simp only [Ends, Functor.map, EStateM.map] at h ⊢
  split at h <;> next hv => simpa only [hv, Except.map] using h

theorem Ends.discard {R : Except ClientError PUnit → σ × Network → Prop}
    (h : Ends d w fun r v => R (r.map fun _ => ⟨⟩) v) : Ends (discard d) w R := h.map

section Iterate

variable {size : β → σ → Nat} {body : β → Dialog σ (Pass β α)}
  (smaller : ∀ {b w b' w'}, body b w = .ok (.again b') w' → size b' w'.1 < size b w.1) {b : β}

theorem iterate_of_done {a : α} (h : body b w = .ok (.done a) v) :
    iterate size body smaller b w = .ok a v := by
  rw [iterate]
  split <;> simp_all

theorem iterate_of_again {b' : β} (h : body b w = .ok (.again b') v) :
    iterate size body smaller b w = iterate size body smaller b' v := by
  rw [iterate]
  split <;> simp_all

theorem iterate_of_error {e : ClientError} (h : body b w = .error e v) :
    iterate size body smaller b w = .error e v := by
  rw [iterate]
  split <;> simp_all

/-- A loop whose passes keep an invariant ends as its last pass does. -/
theorem ends_iterate
    (I : β → σ × Network → Prop)
    (pass : ∀ b w, I b w → Ends (body b) w fun r v =>
      match r with
      | .ok (.again b') => I b' v
      | .ok (.done a) => P (.ok a) v
      | .error e => P (.error e) v)
    (h : I b w) : Ends (iterate size body smaller b) w P := by
  fun_induction iterate size body smaller b w with
  | case1 b w a v hb => exact ends_of_ok (iterate_of_done smaller hb) ((pass b w h).of_eq_ok hb)
  | case2 b w b' v hb ih =>
    have hrest := ih ((pass b w h).of_eq_ok hb)
    rwa [Ends, iterate_of_again smaller hb]
  | case3 b w e v hb =>
    exact ends_of_error (iterate_of_error smaller hb) ((pass b w h).of_eq_error hb)

end Iterate

/-! ## Relations between before and after -/

/-- However a dialog ends, what was there before and what is there afterwards are related. -/
def Moves (R : σ × Network → σ × Network → Prop) (d : Dialog σ α) : Prop :=
  ∀ w, Ends d w fun _ v => R w v

section Moves

variable {R : σ × Network → σ × Network → Prop}

theorem moves_modifyState {f : σ → σ} (hf : ∀ s n, R (s, n) (f s, n)) :
    Moves R (modifyState f) := fun w => hf w.1 w.2

theorem moves_modifyNetwork {f : Network → Network} (hf : ∀ s n, R (s, n) (s, f n)) :
    Moves R (modifyNetwork f) := fun w => hf w.1 w.2

theorem Moves.map (f : α → β) (hd : Moves R d) : Moves R (f <$> d) := fun w => (hd w).map

theorem Moves.discard (hd : Moves R d) : Moves R (discard d) := fun w => (hd w).discard

section Refl

variable [Std.Refl R]

theorem moves_pure (a : α) : Moves R (pure a) := fun w => Std.Refl.refl w

theorem moves_throw (e : ClientError) : Moves R (throw e : Dialog σ α) := fun w => Std.Refl.refl w

theorem moves_state : Moves R (state (σ := σ)) := fun w => Std.Refl.refl w

theorem moves_network : Moves R (network (σ := σ)) := fun w => Std.Refl.refl w

theorem moves_ofCodec (x : Except CodecError α) : Moves R (ofCodec x) := by
  cases x with
  | ok a => exact moves_pure a
  | error e => exact moves_throw _

theorem Moves.on {p : Part σ τ} {d : Dialog τ α} {S : τ × Network → τ × Network → Prop}
    (hd : Moves S d)
    (hput : ∀ s n t v, p.get? s = some t → S (t, n) v → R (s, n) (p.put v.1 s, v.2)) :
    Moves R (on p d) := by
  rintro ⟨s, n⟩
  cases hp : p.get? s with
  | none => exact ends_on_none hp (Std.Refl.refl (s, n))
  | some t => exact Ends.on hp ((hd (t, n)).imp fun _ v hv => hput s n t v hp hv)

end Refl

section Trans

variable [Trans R R R]

theorem Moves.bind {f : α → Dialog σ β} (hd : Moves R d) (hf : ∀ a, Moves R (f a)) :
    Moves R (d >>= f) := by
  intro w
  refine (hd w).bind (fun a v hv => ?_) fun _ _ hv => hv
  exact (hf a v).imp fun _ _ hu => Trans.trans hv hu

theorem Moves.onError {f : ClientError → Dialog σ Unit} (hd : Moves R d)
    (hf : ∀ e, Moves R (f e)) : Moves R (onError d f) := by
  intro w
  refine (hd w).onError (fun _ _ hv => hv) fun e v hv => (hf e v).imp fun r u hu => ?_
  have htrans : R w u := Trans.trans hv hu
  split <;> exact htrans

variable [Std.Refl R]

theorem Moves.iterate {size : β → σ → Nat} {body : β → Dialog σ (Pass β α)}
    (smaller : ∀ {b w b' w'}, body b w = .ok (.again b') w' → size b' w'.1 < size b w.1) (b : β)
    (h : ∀ b, Moves R (body b)) : Moves R (iterate size body smaller b) := by
  intro w
  refine ends_iterate smaller (fun _ v => R w v) (fun b v hv => (h b v).imp fun r u hu => ?_)
    (Std.Refl.refl w)
  have htrans : R w u := Trans.trans hv hu
  split <;> exact htrans

end Trans

end Moves

end GameQuery.Dialog
