import GameQuery.Net.Network

namespace GameQuery

/-!
# Dialogs

A `Dialog σ` is an action of a client with state `σ` that talks to peers over a network. An error
does not undo what was done before it. Loops run as long as something shrinks.
-/

/-- A part of a state, which may be missing. -/
structure Part (σ τ : Type) where
  get? : σ → Option τ
  put : τ → σ → σ

/-- A part that is never missing. -/
def Part.field {σ τ : Type} (get : σ → τ) (put : τ → σ → σ) : Part σ τ :=
  ⟨fun s => some (get s), put⟩

/-- A part of a part. -/
def Part.comp {σ τ υ : Type} (p : Part σ τ) (q : Part τ υ) : Part σ υ where
  get? s := (p.get? s).bind q.get?
  put u s := match p.get? s with
    | some t => p.put (q.put u t) s
    | none => s

/-- An action on the state of a client and the network around it. -/
abbrev Dialog (σ : Type) := EStateM ClientError (σ × Network)

/-- How a pass of a loop ends. -/
inductive Pass (β α : Type) where
  | again (next : β)
  | done (value : α)

namespace Dialog

variable {σ τ α β : Type}

/-- The state of the client. -/
def state : Dialog σ σ := fun w => .ok w.1 w

def modifyState (f : σ → σ) : Dialog σ Unit := fun w => .ok () (f w.1, w.2)

/-- The network around the client. -/
def network : Dialog σ Network := fun w => .ok w.2 w

def modifyNetwork (f : Network → Network) : Dialog σ Unit := fun w => .ok () (w.1, f w.2)

/-- Adds an event to what has happened. -/
def record (e : Event) : Dialog σ Unit := modifyNetwork (·.record e)

/-- Adds a line to the log. -/
def note (level : LogLevel) (text : String) : Dialog σ Unit := modifyNetwork (·.logLine level text)

/-- Runs an action on a part of the state. Without the part there is no connection. -/
def on (p : Part σ τ) (d : Dialog τ α) : Dialog σ α := fun (s, n) =>
  match p.get? s with
  | none => .error .dropped (s, n)
  | some t =>
    match d (t, n) with
    | .ok a (t, n) => .ok a (p.put t s, n)
    | .error e (t, n) => .error e (p.put t s, n)

/-- Builds a state by an action on it. The state of the caller has no part in this. -/
def build (start : τ) (d : Dialog τ Unit) : Dialog σ τ := fun (s, n) =>
  match d (start, n) with
  | .ok _ (t, n) => .ok t (s, n)
  | .error e (_, n) => .error e (s, n)

/-- Runs an action on a state of its own, which is gone afterwards. -/
def within (start : τ) (d : Dialog τ α) : Dialog σ α := fun (s, n) =>
  match d (start, n) with
  | .ok a (_, n) => .ok a (s, n)
  | .error e (_, n) => .error e (s, n)

/-- A value that was computed, or the error that came of it. -/
def ofExcept : Except ClientError α → Dialog σ α
  | .ok a => pure a
  | .error e => throw e

/-- The value of an action or its error. -/
def outcome (d : Dialog σ α) : Dialog σ (Except ClientError α) := fun w =>
  match d w with
  | .ok a w => .ok (.ok a) w
  | .error e w => .ok (.error e) w

/-- Cleans up behind an error. -/
def onError (d : Dialog σ α) (cleanUp : ClientError → Dialog σ Unit) : Dialog σ α := fun w =>
  match d w with
  | .ok a w => .ok a w
  | .error e w => (do cleanUp e; throw e : Dialog σ α) w

/-- The value of something that was read or written. -/
def ofCodec : Except CodecError α → Dialog σ α
  | .ok a => pure a
  | .error e => throw (.ofCodec e)

/-- Repeats an action from one value to the next. Each pass that is not the last makes something
smaller. -/
def iterate (size : β → σ → Nat) (body : β → Dialog σ (Pass β α))
    (smaller : ∀ {b w b' w'}, body b w = .ok (.again b') w' → size b' w'.1 < size b w.1) (b : β) :
    Dialog σ α := fun w =>
  match _h : body b w with
  | .ok (.done a) w' => .ok a w'
  | .ok (.again b') w' => iterate size body smaller b' w'
  | .error e w' => .error e w'
termination_by w => size b w.1
decreasing_by exact smaller _h

theorem bind_eq_ok {d : Dialog σ α} {f : α → Dialog σ β} {w w' : σ × Network} {b : β}
    (h : (d >>= f) w = .ok b w') : ∃ a v, d w = .ok a v ∧ f a v = .ok b w' := by
  simp only [bind, EStateM.bind] at h
  split at h
  · exact ⟨_, _, by assumption, h⟩
  · cases h

theorem on_eq_ok {p : Part σ τ} {d : Dialog τ α} {w w' : σ × Network} {a : α}
    (h : on p d w = .ok a w') :
    ∃ t v, p.get? w.1 = some t ∧ d (t, w.2) = .ok a v ∧ w' = (p.put v.1 w.1, v.2) := by
  simp only [on] at h
  split at h
  · cases h
  · next t ht =>
    split at h
    · next hv =>
      cases h
      exact ⟨t, _, ht, hv, rfl⟩
    · cases h

theorem outcome_eq_ok {d : Dialog σ α} {w w' : σ × Network} {a : α}
    (h : outcome d w = .ok (.ok a) w') : d w = .ok a w' := by
  simp only [outcome] at h
  split at h <;> cases h
  assumption

theorem onError_eq_ok {d : Dialog σ α} {f : ClientError → Dialog σ Unit} {w w' : σ × Network}
    {a : α} (h : onError d f w = .ok a w') : d w = .ok a w' := by
  simp only [onError] at h
  split at h
  · cases h
    assumption
  · obtain ⟨u, v, _, h⟩ := bind_eq_ok h
    cases h

theorem ofCodec_eq_ok {x : Except CodecError α} {w w' : σ × Network} {a : α}
    (h : ofCodec x w = .ok a w') : w' = w := by
  cases x <;> cases h
  rfl

theorem ofCodec_map_eq_ok {f : α → β} {x : Except CodecError α} {w w' : σ × Network} {b : β}
    (h : (f <$> ofCodec x : Dialog σ β) w = .ok b w') : w' = w := by
  cases x <;> cases h
  rfl

/-- What every pass of a loop keeps, the loop keeps. -/
theorem iterate_eq_ok {size : β → σ → Nat} {body : β → Dialog σ (Pass β α)}
    (smaller : ∀ {b w b' w'}, body b w = .ok (.again b') w' → size b' w'.1 < size b w.1)
    (R : σ × Network → σ × Network → Prop) (trans : ∀ {u v w}, R u v → R v w → R u w)
    (pass : ∀ {b w p w'}, body b w = .ok p w' → R w w') {b : β} {w w' : σ × Network} {a : α}
    (h : iterate size body smaller b w = .ok a w') : R w w' := by
  fun_induction iterate size body smaller b w with
  | case1 b w a' v hb =>
    cases h
    exact pass hb
  | case2 b w b' v hb ih => exact trans (pass hb) (ih h)
  | case3 b w e v hb => cases h

end Dialog

end GameQuery
