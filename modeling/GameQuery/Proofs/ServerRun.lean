import GameQuery.GameServer
import GameQuery.Proofs.DialogLaws

namespace GameQuery

/-!
# Runs of a client

Whatever a program does with a client of a game server is a sequence of operations, each of which
may fail. An operation is carried out where the last one has left the client and the network.

Operations are made of a few steps: a client sends a request and keeps the reply, measures the time
to a reply, sets a password, sends a command. `CarriesRequests`, `CarriesAnswers` and `Carries` name
them, and a relation that the steps go along is kept by the operations made of them.
-/

open Dialog

namespace GameServer

inductive Operation where
  | setTimeout (timeout : Option Nat)
  | configure (settings : Settings)
  | updatePing
  | update (category : Category)
  | updatePlayers (password : Option String)
  | updateBasics
  | ping
  | info
  | rules
  | players
  | authenticate (password : String)
  | execute (command : String)
  | rotate
  | disconnect
  | clearCache

namespace Operation

/-- Carries an operation out. The value is of no interest. -/
def perform : Operation → Dialog GameServer Unit
  | setTimeout timeout => Dialog.modifyState (GameServer.setTimeout timeout)
  | configure settings => Dialog.modifyNetwork fun n => { n with settings }
  | updatePing => discard GameServer.updatePing
  | update category => GameServer.update category
  | updatePlayers password => GameServer.updatePlayers password
  | updateBasics => GameServer.updateBasics
  | ping => discard GameServer.ping
  | info => discard GameServer.info
  | rules => discard GameServer.rules
  | players => discard GameServer.players
  | authenticate password => discard (GameServer.authenticate password)
  | execute command => discard (GameServer.execute command)
  | rotate => discard GameServer.rotate
  | disconnect => GameServer.disconnect
  | clearCache => Dialog.modifyState GameServer.clearCache

/-- The client and the network after an operation, whether or not it fails. -/
def after (op : Operation) (w : GameServer × Network) : GameServer × Network :=
  match op.perform w with
  | .ok _ v => v
  | .error _ v => v

/-- An operation that changes what a client is set to, and asks nothing. -/
def Manages : Operation → Prop
  | .setTimeout _ | .rotate | .disconnect | .clearCache => True
  | _ => False

/-- An operation that may measure the time to a reply. -/
def Measures : Operation → Prop
  | .updatePing | .updateBasics | .ping => True
  | _ => False

/-- An operation that has something to do with the console. -/
def TouchesConsole : Operation → Prop
  | .authenticate _ | .execute _ | .disconnect | .updatePlayers (some _) => True
  | _ => False

theorem after_of_ends {op : Operation} {w : GameServer × Network}
    {P : GameServer × Network → Prop} (h : Dialog.Ends op.perform w fun _ v => P v) :
    P (op.after w) := by
  simp only [Dialog.Ends, after] at h ⊢
  split at h <;> next hd => simpa only [hd] using h

end Operation

def run (ops : List Operation) (w : GameServer × Network) : GameServer × Network :=
  ops.foldl (fun v op => op.after v) w

/-- The players get what the console tells of them, or a row is too bad to be read. -/
theorem mergeStatus_cases (output : String) (w : GameServer × Network) :
    mergeStatus output w = .error .crash w ∨ ∃ rows log,
      StatusTable.rows output.toList = some rows ∧
      mergeStatus output w = .ok () ({ w.1 with cache := { w.1.cache with
        players := w.1.cache.players.map fun players =>
          (StatusTable.applyEntries (rows.filterMap StatusRow.entry?) players).2 } },
        { w.2 with log }) := by
  unfold mergeStatus
  cases StatusTable.rows output.toList with
  | none => exact .inl rfl
  | some rows =>
    obtain ⟨log, hlog⟩ := Dialog.notes_eq .warn (rows.filterMap StatusRow.warning?) w.1 w.2
    exact .inr ⟨rows, log, rfl, (Dialog.bind_of_ok hlog _).trans rfl⟩

/-! ## Operations made of steps -/

/-- A relation between before and after that a client goes along as long as it sends requests and
keeps the replies. -/
structure CarriesRequests (R : GameServer × Network → GameServer × Network → Prop) : Prop where
  quiet : ∀ s n m, m.world = n.world → m.history = n.history → R (s, n) (s, m)
  asks : ∀ category, Moves R (exchange category none)
  asksAgain : ∀ category, Moves R (do
    let s ← state
    exchange category s.cache.challenge)

/-- A relation between before and after that a client goes along whatever it asks a server, as long
as it does not measure. -/
structure CarriesAnswers (R : GameServer × Network → GameServer × Network → Prop) : Prop
    extends CarriesRequests R where
  logsIn : ∀ password, Moves R (authenticate password)
  commands : ∀ command, Moves R (execute command)
  asksStatus : Moves R (do mergeStatus (← execute "status"))

/-- A relation between before and after that a client goes along whatever it asks a server. -/
structure Carries (R : GameServer × Network → GameServer × Network → Prop) : Prop
    extends CarriesAnswers R where
  measures : Moves R updatePing

section Carries

variable {α : Type} {R : GameServer × Network → GameServer × Network → Prop} [Std.Refl R]
  [Trans R R R]

theorem moves_kept (get : ServerCache → Option α) : Moves R (kept get) := by
  refine moves_state.bind fun s => ?_
  split
  · exact moves_pure _
  · exact moves_throw _

theorem moves_fetch {d : Dialog GameServer Unit} (hd : Moves R d) (category : Category)
    (get : ServerCache → Option α) : Moves R (do
      let s ← state
      unless s.cache.contains category do d
      kept get) := by
  refine moves_state.bind fun s => ?_
  split
  · exact moves_kept get
  · exact hd.bind fun _ => moves_kept get

theorem moves_ping (hping : Moves R updatePing) : Moves R ping := by
  refine moves_state.bind fun s => ?_
  split
  · exact moves_pure _
  · exact hping

namespace CarriesRequests

variable (hR : CarriesRequests R)
include hR

theorem moves_again (category : Category) (r : Option Category) : Moves R (do
    unless r = some category do
      let s ← state
      unless (← exchange category s.cache.challenge) = some category do throw .unexpected) := by
  have hagain : Moves R (do
      let s ← state
      unless (← exchange category s.cache.challenge) = some category do throw .unexpected) := by
    have hbind := (hR.asksAgain category).bind (f := fun r =>
      (do unless r = some category do throw .unexpected : Dialog GameServer Unit)) fun r => by
        split
        · exact moves_pure _
        · exact moves_throw _
    rwa [bind_assoc] at hbind
  split
  · exact moves_pure _
  · exact hagain

theorem moves_update (category : Category) : Moves R (update category) :=
  (hR.asks category).bind fun r => hR.moves_again category r

theorem moves_updatePlayers_none : Moves R (updatePlayers none) :=
  (hR.moves_update .players).bind fun _ => moves_pure _

/-- Operations that only send requests. -/
theorem moves_perform_of_not_measures {op : Operation} (hmanages : ¬ op.Manages)
    (hconsole : ¬ op.TouchesConsole) (hmeasures : ¬ op.Measures) : Moves R op.perform := by
  cases op with
  | configure settings =>
    exact moves_modifyNetwork (f := fun n => { n with settings }) fun s n =>
      hR.quiet s n { n with settings } rfl rfl
  | update category => exact hR.moves_update category
  | updatePlayers password =>
    cases password with
    | none => exact hR.moves_updatePlayers_none
    | some password => exact absurd trivial hconsole
  | info => exact (moves_fetch (hR.moves_update .info) .info _).discard
  | rules => exact (moves_fetch (hR.moves_update .rules) .rules _).discard
  | players => exact (moves_fetch hR.moves_updatePlayers_none .players _).discard
  | updatePing | updateBasics | ping => exact absurd trivial hmeasures
  | authenticate | execute => exact absurd trivial hconsole
  | setTimeout | rotate | disconnect | clearCache => exact absurd trivial hmanages

/-- Operations that measure. -/
theorem moves_perform_of_measures (hping : Moves R updatePing) {op : Operation}
    (hop : op.Measures) : Moves R op.perform := by
  cases op with
  | updatePing => exact hping.discard
  | updateBasics =>
    exact hping.bind fun _ => (hR.moves_update .info).bind fun _ => hR.moves_update .challenge
  | ping => exact (moves_ping hping).discard
  | _ => exact hop.elim

/-- Operations that leave the console alone. -/
theorem moves_perform (hping : Moves R updatePing) {op : Operation} (hmanages : ¬ op.Manages)
    (hconsole : ¬ op.TouchesConsole) : Moves R op.perform := by
  by_cases hmeasures : op.Measures
  · exact hR.moves_perform_of_measures hping hmeasures
  · exact hR.moves_perform_of_not_measures hmanages hconsole hmeasures

end CarriesRequests

namespace CarriesAnswers

variable (hR : CarriesAnswers R)
include hR

theorem moves_extendPlayers (password : String) : Moves R (extendPlayers password) := by
  refine moves_state.bind fun s => ?_
  split
  · exact hR.asksStatus
  · refine (hR.logsIn password).bind fun accepted => ?_
    split
    · exact hR.asksStatus
    · exact moves_throw _

theorem moves_askStatus (password : Option String) : Moves R (do
    match password with
    | none => return
    | some password =>
      let s ← state
      unless (s.cache.players.getD []).isEmpty do extendPlayers password) := by
  cases password with
  | none => exact moves_pure _
  | some password =>
    refine moves_state.bind fun s => ?_
    split
    · exact moves_pure _
    · exact hR.moves_extendPlayers password

theorem moves_updatePlayers (password : Option String) : Moves R (updatePlayers password) :=
  (hR.moves_update .players).bind fun _ => hR.moves_askStatus password

/-- What the steps go along, every operation goes along that is made of them. -/
theorem moves_perform_of_not_measures {op : Operation} (hop : ¬ op.Manages) (hnot : ¬ op.Measures) :
    Moves R op.perform := by
  by_cases hconsole : op.TouchesConsole
  · cases op with
    | authenticate password => exact (hR.logsIn password).discard
    | execute command => exact (hR.commands command).discard
    | updatePlayers password => exact hR.moves_updatePlayers password
    | disconnect => exact absurd trivial hop
    | _ => exact hconsole.elim
  · exact hR.toCarriesRequests.moves_perform_of_not_measures hop hconsole hnot

end CarriesAnswers

theorem Carries.moves_perform (hR : Carries R) {op : Operation} (hop : ¬ op.Manages) :
    Moves R op.perform := by
  by_cases hmeasures : op.Measures
  · exact hR.moves_perform_of_measures hR.measures hmeasures
  · exact hR.moves_perform_of_not_measures hop hmeasures

end Carries

end GameServer

end GameQuery
