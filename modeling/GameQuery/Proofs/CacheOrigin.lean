import GameQuery.Proofs.CredentialRun
import GameQuery.Proofs.ServerCoherence

namespace GameQuery

/-!
# Where the cache comes from

What a client keeps of a game server has come from the active address since the last rotation: each
reply, each time that has been measured, and whatever the console has told of the players. So has
every challenge number that the client sends. It does not matter which of the operations in between
have failed.
-/

open Dialog

namespace GameServer

/-! ## What happens in a run -/

inductive Mark where
  | event (e : Event)
  /-- The time to a reply has been measured. -/
  | measured (ping : Nat)
  /-- A rotation begins. -/
  | rotation

namespace Mark

def event? : Mark → Option Event
  | event e => some e
  | _ => none

def isRotation : Mark → Bool
  | rotation => true
  | _ => false

end Mark

/-- The events among some marks. -/
def eventsOf (marks : List Mark) : List Event := marks.filterMap Mark.event?

/-- The marks since the last rotation, the latest first. -/
def sinceRotation (marks : List Mark) : List Mark := marks.takeWhile (!·.isRotation)

/-- What is measured from here, and what has happened until then. -/
def measurement? (w : GameServer × Network) : Option (Nat × List Event) :=
  match updatePing w with
  | .ok ping v => some (ping, v.2.history)
  | .error _ _ => none

/-- The marks of some events, in the course of which a time may have been measured. -/
def marksBetween (earlier later : List Event) : Option (Nat × List Event) → List Mark
  | none => (since earlier later).map .event
  | some (ping, history) =>
    (since history later).map .event ++ .measured ping :: (since earlier history).map .event

namespace Operation

/-- What an operation measures, if it measures anything, and what has happened until then. -/
def measurement? : Operation → GameServer × Network → Option (Nat × List Event)
  | updatePing, w | updateBasics, w => GameServer.measurement? w
  | ping, w => if w.1.cache.ping.isSome then none else GameServer.measurement? w
  | _, _ => none

/-- The mark that an operation begins with, if it has one. -/
def firstMark : Operation → List Mark
  | rotate => [.rotation]
  | _ => []

/-- What happens in an operation, the latest first. -/
def marks (op : Operation) (w : GameServer × Network) : List Mark :=
  marksBetween w.2.history (op.after w).2.history (op.measurement? w) ++ op.firstMark

end Operation

/-- What happens in a run, the latest first. -/
def marks : List Operation → GameServer × Network → List Mark
  | [], _ => []
  | op :: ops, w => marks ops (op.after w) ++ op.marks w

/-! ## Where things come from -/

/-- A list of players has come from a peer, and all that has been added to it from its console. -/
inductive PlayersCame (framing : Framing) (peer : SocketAddress) (recent : List Event) :
    List Player → Prop
  | reply {players : List Player} :
    Came framing peer recent (.players players) → PlayersCame framing peer recent players
  | status {players : List Player} {output : String} {merged : Nat × List Player} :
    PlayersCame framing peer recent players →
    EngineSession.OutputCame framing peer recent output →
    StatusTable.merge players output = some merged → PlayersCame framing peer recent merged.2

/-- A time has been measured between a request for information to a peer and a reply from there. -/
def MeasuredOn (framing : Framing) (peer : SocketAddress) (recent : List Mark) (ping : Nat) :
    Prop :=
  ∃ later datagrams earlier reply,
    recent = later ++ .measured ping ::
      ((receptions peer datagrams ++ [Event.sent .udp peer (Request.info {}).bytes]).map .event ++
        earlier) ∧
      QueryChannel.replyIn { framing } datagrams = some reply

/-- All that a cache holds has come from a peer. -/
structure CacheCame (framing : Framing) (peer : SocketAddress) (recent : List Mark)
    (cache : ServerCache) : Prop where
  ping : ∀ ping, cache.ping = some ping → MeasuredOn framing peer recent ping
  info : ∀ info, cache.info = some info → Came framing peer (eventsOf recent) (.info info)
  rules : ∀ rules, cache.rules = some rules → Came framing peer (eventsOf recent) (.rules rules)
  players : ∀ players, cache.players = some players →
    PlayersCame framing peer (eventsOf recent) players
  challenge : ∀ number, cache.challenge = some number →
    Came framing peer (eventsOf recent) (.challenge number)

/-- Every challenge number that has been sent to a peer has come from there since the last rotation
before. -/
def NumbersCame (framing : Framing) (marks : List Mark) : Prop :=
  ∀ later earlier peer bytes number, marks = later ++ .event (.sent .udp peer bytes) :: earlier →
    CarriesNumber bytes number → number ≠ noChallenge →
    Came framing peer (eventsOf (sinceRotation earlier)) (.challenge number)

section Marks

variable {framing : Framing} {peer : SocketAddress} {recent marks : List Mark}

@[simp] theorem eventsOf_append (new marks : List Mark) :
    eventsOf (new ++ marks) = eventsOf new ++ eventsOf marks := List.filterMap_append

@[simp] theorem eventsOf_map (new : List Event) : eventsOf (new.map .event) = new := by
  rw [eventsOf, List.filterMap_map]
  exact List.filterMap_some

theorem sinceRotation_append {new : List Mark} (h : ∀ m ∈ new, m.isRotation = false)
    (marks : List Mark) : sinceRotation (new ++ marks) = new ++ sinceRotation marks := by
  refine List.takeWhile_append_of_pos fun m hm => ?_
  rw [h m hm]
  rfl

@[simp] theorem sinceRotation_map (new : List Event) (marks : List Mark) :
    sinceRotation (new.map .event ++ marks) = new.map .event ++ sinceRotation marks := by
  refine sinceRotation_append (fun m hm => ?_) marks
  obtain ⟨e, -, rfl⟩ := List.mem_map.1 hm
  rfl

theorem PlayersCame.append {players : List Player} {recent : List Event}
    (h : PlayersCame framing peer recent players) (new : List Event) :
    PlayersCame framing peer (new ++ recent) players := by
  induction h with
  | reply h => exact .reply (h.append new)
  | status _ houtput hmerge ih =>
    exact .status ih (EngineSession.OutputCame.append houtput new) hmerge

theorem MeasuredOn.append {ping : Nat} (h : MeasuredOn framing peer recent ping)
    (new : List Mark) : MeasuredOn framing peer (new ++ recent) ping := by
  obtain ⟨later, datagrams, earlier, reply, rfl, hreply⟩ := h
  exact ⟨new ++ later, datagrams, earlier, reply, (List.append_assoc ..).symm, hreply⟩

namespace CacheCame

variable {cache : ServerCache}

theorem empty : CacheCame framing peer recent {} where
  ping _ h := nomatch h
  info _ h := nomatch h
  rules _ h := nomatch h
  players _ h := nomatch h
  challenge _ h := nomatch h

theorem append (h : CacheCame framing peer recent cache) (new : List Mark) :
    CacheCame framing peer (new ++ recent) cache := by
  constructor
  · exact fun ping hping => (h.ping ping hping).append new
  · rw [eventsOf_append]
    exact fun info hinfo => (h.info info hinfo).append _
  · rw [eventsOf_append]
    exact fun rules hrules => (h.rules rules hrules).append _
  · rw [eventsOf_append]
    exact fun players hplayers => (h.players players hplayers).append _
  · rw [eventsOf_append]
    exact fun number hnumber => (h.challenge number hnumber).append _

/-- A reply from the peer may be kept. -/
theorem store {reply : Reply} (h : CacheCame framing peer recent cache)
    (hreply : Came framing peer (eventsOf recent) reply) :
    CacheCame framing peer recent (cache.store reply) := by
  cases reply with
  | info info =>
    refine ⟨h.ping, ?_, h.rules, h.players, h.challenge⟩
    rintro _ ⟨⟩
    exact hreply
  | rules rules =>
    refine ⟨h.ping, h.info, ?_, h.players, h.challenge⟩
    rintro _ ⟨⟩
    exact hreply
  | players players =>
    refine ⟨h.ping, h.info, h.rules, ?_, h.challenge⟩
    rintro _ ⟨⟩
    exact .reply hreply
  | challenge number =>
    refine ⟨h.ping, h.info, h.rules, h.players, ?_⟩
    rintro _ ⟨⟩
    exact hreply
  | console text => exact h
  | log line => exact h

end CacheCame

namespace NumbersCame

theorem cons (h : NumbersCame framing marks) {m : Mark}
    (hm : ∀ peer bytes number, m = .event (.sent .udp peer bytes) → CarriesNumber bytes number →
      number ≠ noChallenge →
      Came framing peer (eventsOf (sinceRotation marks)) (.challenge number)) :
    NumbersCame framing (m :: marks) := by
  intro later earlier peer bytes number hsplit
  cases later with
  | nil =>
    obtain ⟨rfl, rfl⟩ := List.cons.inj hsplit
    exact hm peer bytes number rfl
  | cons _ later =>
    obtain ⟨rfl, hmarks⟩ := List.cons.inj hsplit
    exact h later earlier peer bytes number hmarks

theorem append (h : NumbersCame framing marks) {new : List Event}
    (hfree : ∀ e ∈ new, e.IsNumberFree) : NumbersCame framing (new.map .event ++ marks) := by
  induction new with
  | nil => exact h
  | cons e new ih =>
    obtain ⟨he, hnew⟩ := List.forall_mem_cons.1 hfree
    refine (ih hnew).cons ?_
    rintro peer bytes number ⟨⟩ hcarries
    exact absurd hcarries (he peer bytes number rfl)

end NumbersCame

end Marks

/-! ## Steps -/

/-- A client knows of the active address what has come from there. -/
structure Grounded (framing : Framing) (marks : List Mark) (s : GameServer) : Prop where
  attached : ∃ own, s.IsAttached False s.endpoint framing own
  cache : CacheCame framing s.address (sinceRotation marks) s.cache
  numbers : NumbersCame framing marks

/-- After some more events what a client knows has still come from the active address. -/
def StaysGrounded (framing : Framing) (w v : GameServer × Network) : Prop :=
  ∀ marks, Grounded framing marks w.1 →
    ∃ new, v.2.history = new ++ w.2.history ∧ Grounded framing (new.map .event ++ marks) v.1

section Steps

variable {α : Type} {framing : Framing} {marks : List Mark} {s t : GameServer}
  {w v : GameServer × Network}

instance : Std.Refl (StaysGrounded framing) := ⟨fun _ _ h => ⟨[], rfl, h⟩⟩

instance : Trans (StaysGrounded framing) (StaysGrounded framing) (StaysGrounded framing) where
  trans h h' marks hmarks := by
    obtain ⟨new, hnew, hmarks⟩ := h marks hmarks
    obtain ⟨new', hnew', hmarks⟩ := h' _ hmarks
    refine ⟨new' ++ new, ?_, ?_⟩
    · rw [hnew', hnew, List.append_assoc]
    · rwa [List.map_append, List.append_assoc]

theorem ends_staysGrounded {d : Dialog GameServer α}
    (h : ∀ own, w.1.IsAttached False w.1.endpoint framing own →
      Ends d w fun _ v => StaysGrounded framing w v) :
    Ends d w fun _ v => StaysGrounded framing w v := by
  by_cases hattached : ∃ own, w.1.IsAttached False w.1.endpoint framing own
  · obtain ⟨own, hown⟩ := hattached
    exact h own hown
  · exact ends_of_forall fun _ _ marks hmarks => absurd hmarks.attached hattached

/-- The cache is as it was, and no number has been sent. -/
theorem Grounded.keeps {own : Option Nat} {new : List Event} (h : Grounded framing marks s)
    (hattached : t.IsAttached False s.endpoint framing own) (hcache : t.cache = s.cache)
    (hfree : ∀ e ∈ new, e.IsNumberFree) : Grounded framing (new.map .event ++ marks) t := by
  have haddress : t.address = s.address := hattached.address
  refine ⟨⟨own, hattached.endpoint ▸ hattached⟩, ?_, h.numbers.append hfree⟩
  rw [sinceRotation_map, haddress, hcache]
  exact h.cache.append _

theorem staysGrounded_onEngine {d : Dialog EngineSession α}
    (hd : ∀ peer own, Moves (Steady (EngineSession.IsAttached False framing peer own)) d) :
    Moves (StaysGrounded framing) (on enginePart d) := by
  refine fun w => ends_staysGrounded fun own hown => ?_
  refine Ends.on (p := enginePart) rfl ((hd w.1.address own (w.1.engine, w.2)).imp ?_)
  rintro r v hv marks hmarks
  obtain ⟨hengine, new, hnew, hfree⟩ := hv hown.engine
  exact ⟨new, hnew, hmarks.keeps ⟨hengine, rfl⟩ rfl hfree⟩

theorem isNumberFree_connected (peer : SocketAddress) (failure : Option Failure) :
    (Event.connected .udp peer failure).IsNumberFree := nofun

theorem isNumberFree_opening (peer : SocketAddress) (wasOpen : Bool) :
    ∀ e ∈ opening peer wasOpen, e.IsNumberFree := by
  cases wasOpen with
  | true => exact List.forall_mem_nil _
  | false => exact List.forall_mem_singleton.2 (isNumberFree_connected peer none)

theorem staysGrounded_ensureOpen : Moves (StaysGrounded framing) ensureOpen := by
  refine fun w => ends_staysGrounded fun own hown => (ensureOpen_ends hown w.2).imp ?_
  rintro r v ⟨hcache, -, hv⟩ marks hmarks
  split at hv
  · obtain ⟨-, rfl⟩ := hv
    exact ⟨[], rfl, hmarks⟩
  · obtain ⟨hattached, failure, -, hhistory, -⟩ := hv
    refine ⟨[_], hhistory, hmarks.keeps hattached hcache ?_⟩
    exact List.forall_mem_singleton.2 (isNumberFree_connected _ failure)

/-- A request has been sent, with a number that has come from the peer, if any, and its reply has
come from there too. -/
theorem Grounded.asked {r : Request} {wasOpen : Bool} {old history : List Event}
    {o : Except ClientError Reply} (h : Grounded framing marks s)
    (hr : ∀ number, r.number? = some number → number ≠ noChallenge →
      s.cache.challenge = some number)
    (hasked : Asked framing s.address r wasOpen old o history) :
    ∃ new, history = new ++ old ∧ NumbersCame framing (new.map .event ++ marks) ∧
      ∀ reply, o = .ok reply → ∃ datagrams,
        QueryChannel.replyIn { framing } datagrams = some reply ∧
        new = receptions s.address datagrams ++
          .sent .udp s.address r.bytes :: opening s.address wasOpen := by
  cases hasked with
  | unopened _ f =>
    refine ⟨[_], rfl, h.numbers.append ?_, fun _ h => nomatch h⟩
    exact List.forall_mem_singleton.2 (isNumberFree_connected _ _)
  | waited datagrams hwaited =>
    -- The number was in the cache before there were sockets to send it with.
    have hopening := h.numbers.append (isNumberFree_opening s.address wasOpen)
    have hsent : NumbersCame framing
        ((Event.sent .udp s.address r.bytes :: opening s.address wasOpen).map .event ++ marks) := by
      refine hopening.cons ?_
      rintro _ _ number ⟨⟩ hcarries hne
      have hchallenge := hr number (Request.number?_of_carriesNumber hcarries) hne
      rw [sinceRotation_map, eventsOf_append, eventsOf_map]
      exact (h.cache.challenge number hchallenge).append _
    have hsplit : ∀ later, later ++ .sent .udp s.address r.bytes ::
        (opening s.address wasOpen ++ old) =
        (later ++ .sent .udp s.address r.bytes :: opening s.address wasOpen) ++ old :=
      fun later => by rw [List.append_assoc, List.cons_append]
    have hlater : ∀ later, (∀ e ∈ later, e.IsNumberFree) → NumbersCame framing
        ((later ++ .sent .udp s.address r.bytes :: opening s.address wasOpen).map .event ++
          marks) := by
      intro later hfree
      rw [List.map_append, List.append_assoc]
      exact hsent.append hfree
    cases o with
    | ok reply =>
      obtain ⟨hreply, rfl⟩ := hwaited
      refine ⟨_, hsplit _, hlater _ ?_, ?_⟩
      · exact QueryChannel.isNumberFree_receptions datagrams
      · rintro _ ⟨⟩
        exact ⟨datagrams, hreply, rfl⟩
    | error e =>
      obtain ⟨later, rfl, hfree⟩ := hwaited.2.2.exists_new
      exact ⟨_, hsplit later, hlater later hfree, fun _ h => nomatch h⟩

theorem Grounded.stored {reply : Reply} {datagrams : List (List UInt8)}
    (h : Grounded framing marks s)
    (hreply : QueryChannel.replyIn { framing } datagrams = some reply) (before : List Event) :
    CacheCame framing s.address
      (sinceRotation ((receptions s.address datagrams ++ before).map .event ++ marks))
      (s.cache.store reply) := by
  rw [sinceRotation_map]
  refine (h.cache.append _).store ?_
  rw [eventsOf_append, eventsOf_map]
  exact Came.after ⟨[], datagrams, before, rfl, hreply⟩ _

theorem requestFor_number_cases {category : Category} {challenge number : Int32}
    {infoChallenge : Option Int32}
    (h : (requestFor category challenge infoChallenge).number? = some number)
    (hne : number ≠ noChallenge) : infoChallenge = some number ∨ challenge = number := by
  cases category with
  | ping | info => exact .inl h
  | rules | players => exact .inr (Option.some.inj h)
  | challenge => exact absurd (Option.some.inj h).symm hne

theorem exchange_grounded (category : Category) {infoChallenge : Option Int32}
    (h : ∀ number, infoChallenge = some number → w.1.cache.challenge = some number) :
    Ends (exchange category infoChallenge) w fun _ v => StaysGrounded framing w v := by
  refine ends_staysGrounded fun own hown => (exchange_ends category infoChallenge hown w.2).imp ?_
  rintro r v ⟨hv, o, hasked, ho⟩ marks hmarks
  have hnumber : ∀ number,
      (requestFor category (w.1.cache.challenge.getD noChallenge) infoChallenge).number? =
        some number → number ≠ noChallenge → w.1.cache.challenge = some number := by
    intro number hsome hne
    obtain hinfo | hcached := requestFor_number_cases hsome hne
    · exact h number hinfo
    · cases hchallenge : w.1.cache.challenge with
      | none =>
        rw [hchallenge] at hcached
        exact absurd hcached.symm hne
      | some kept =>
        rw [hchallenge] at hcached
        exact congrArg some hcached
  obtain ⟨new, hnew, hnumbers, hreply⟩ := hmarks.asked hnumber hasked
  have haddress : v.1.address = w.1.address := hv.address
  refine ⟨new, hnew, ⟨own, hv.endpoint ▸ hv⟩, ?_, hnumbers⟩
  rw [haddress]
  cases o with
  | error e =>
    rw [sinceRotation_map, ho.2]
    exact hmarks.cache.append _
  | ok reply =>
    obtain ⟨datagrams, hdatagrams, rfl⟩ := hreply reply rfl
    rw [ho.2.1]
    exact hmarks.stored hdatagrams _

/-- What the console tells of the players has come from the active address. -/
theorem staysGrounded_askStatus :
    Moves (StaysGrounded framing) (do mergeStatus (← execute "status")) := by
  intro w
  refine ends_staysGrounded fun own hown => ?_
  have hexecute := EngineSession.learns_execute "status" (w.1.engine, w.2) hown.engine
  refine Ends.bind (Q := fun r v => v.1.IsAttached False w.1.endpoint framing own ∧
    v.1.cache = w.1.cache ∧ ∃ new, v.2.history = new ++ w.2.history ∧
      (∀ e ∈ new, e.IsNumberFree) ∧ ∀ output, r = .ok output →
        EngineSession.OutputCame framing w.1.address new output) ?_ ?_ ?_
  · refine Ends.on (p := enginePart) rfl (hexecute.imp ?_)
    rintro r v ⟨hv, hlearned⟩
    exact ⟨⟨hv, rfl⟩, rfl, hlearned⟩
  · rintro output v ⟨hv, hcache, new, hnew, hfree, houtput⟩
    obtain h | ⟨rows, log, hrows, h⟩ := mergeStatus_cases output v
    · exact ends_of_error h fun marks hmarks => ⟨new, hnew, hmarks.keeps hv hcache hfree⟩
    · refine ends_of_ok h fun marks hmarks => ⟨new, hnew, ?_⟩
      obtain ⟨⟨own', hattached⟩, hkept, hnumbers⟩ := hmarks.keeps hv hcache hfree
      refine ⟨⟨own', hattached.engine, rfl⟩, ?_, hnumbers⟩
      refine ⟨hkept.ping, hkept.info, hkept.rules, ?_, hkept.challenge⟩
      intro players hplayers
      obtain ⟨before, hbefore, rfl⟩ := Option.map_eq_some_iff.1 hplayers
      have haddress : v.1.address = w.1.address := hv.address
      have hcame := EngineSession.OutputCame.after (houtput output rfl)
        (eventsOf (sinceRotation marks))
      rw [← eventsOf_map new, ← eventsOf_append, ← sinceRotation_map, ← haddress] at hcame
      have hmerge : StatusTable.merge before output =
          some (StatusTable.applyEntries (rows.filterMap StatusRow.entry?) before) := by
        rw [StatusTable.merge, StatusTable.parse, hrows]
        rfl
      exact .status (hkept.players before hbefore) hcame hmerge
  · rintro e v ⟨hv, hcache, new, hnew, hfree, -⟩ marks hmarks
    exact ⟨new, hnew, hmarks.keeps hv hcache hfree⟩

theorem carriesAnswers_staysGrounded : CarriesAnswers (StaysGrounded framing) where
  quiet _ _ _ _ hhistory _ h := ⟨[], hhistory, h⟩
  asks category _ := exchange_grounded category fun _ h => nomatch h
  asksAgain category _ := ends_state_bind (exchange_grounded category fun _ => id)
  logsIn password := staysGrounded_ensureOpen.bind fun _ =>
    staysGrounded_onEngine fun _ _ => EngineSession.steady_authenticate password
  commands command :=
    staysGrounded_onEngine fun _ _ => (EngineSession.learns_execute command).steady
  asksStatus := staysGrounded_askStatus

/-- A time that has been measured has been measured on the active address. -/
theorem updatePing_grounded (h : Grounded framing marks w.1) :
    Ends updatePing w fun r v => ∃ new, v.2.history = new ++ w.2.history ∧
      match r with
      | .ok ping => Grounded framing (.measured ping :: (new.map .event ++ marks)) v.1
      | .error _ => Grounded framing (new.map .event ++ marks) v.1 := by
  obtain ⟨own, hown⟩ := h.attached
  refine (updatePing_ends hown w.2).imp ?_
  rintro r v ⟨hv, o, hasked, ho⟩
  have hnumber : ∀ number, (Request.info {}).number? = some number → number ≠ noChallenge →
      w.1.cache.challenge = some number := fun _ h => nomatch h
  obtain ⟨new, hnew, hnumbers, hreply⟩ := h.asked hnumber hasked
  have haddress : v.1.address = w.1.address := hv.address
  refine ⟨new, hnew, ?_⟩
  cases o with
  | error e =>
    obtain ⟨rfl, hcache⟩ := ho
    refine ⟨⟨own, hv.endpoint ▸ hv⟩, ?_, hnumbers⟩
    rw [sinceRotation_map, haddress, hcache]
    exact h.cache.append _
  | ok reply =>
    obtain ⟨ping, rfl, hcache, -⟩ := ho
    obtain ⟨datagrams, hdatagrams, rfl⟩ := hreply reply rfl
    refine ⟨⟨own, hv.endpoint ▸ hv⟩, ?_, hnumbers.cons fun _ _ _ h => nomatch h⟩
    have hstored := (h.stored hdatagrams (.sent .udp w.1.address (Request.info {}).bytes ::
      opening w.1.address w.1.engine.isOpen)).append [.measured ping]
    rw [haddress, hcache]
    refine ⟨?_, hstored.info, hstored.rules, hstored.players, hstored.challenge⟩
    rintro _ ⟨⟩
    refine ⟨[], datagrams, (opening w.1.address w.1.engine.isOpen).map .event ++
      sinceRotation marks, reply, congrArg (Mark.measured ping :: ·) ?_, hdatagrams⟩
    exact (sinceRotation_map _ marks).trans (by simp)

end Steps

/-! ## Runs -/

/-- The marks of an operation tell what has happened in it, and what a client knows after it. -/
structure Operation.IsGrounded (framing : Framing) (marks : List Mark) (op : Operation)
    (w : GameServer × Network) : Prop where
  grounded : Grounded framing (op.marks w ++ marks) (op.after w).1
  events : (op.after w).2.history = eventsOf (op.marks w) ++ w.2.history

variable {framing : Framing} {happened : List Mark} {op : Operation} {w : GameServer × Network}

theorem isGrounded_of_staysGrounded (hfirst : op.firstMark = []) (hnot : op.measurement? w = none)
    (h : Ends op.perform w fun _ v => StaysGrounded framing w v)
    (hw : Grounded framing happened w.1) : op.IsGrounded framing happened w := by
  obtain ⟨new, hnew, hgrounded⟩ := Operation.after_of_ends h happened hw
  have hmarks : op.marks w = new.map .event := by
    rw [Operation.marks, hnot, hfirst, marksBetween, hnew, since_append, List.append_nil]
  refine ⟨hmarks ▸ hgrounded, ?_⟩
  rw [hmarks, eventsOf_map]
  exact hnew

/-- An operation that measures first. -/
theorem isGrounded_of_updatePing {f : Nat → Dialog GameServer Unit}
    (hfirst : op.firstMark = []) (hmeasures : op.measurement? w = measurement? w)
    (hperform : op.perform w = (updatePing >>= f) w)
    (hf : ∀ ping, Moves (StaysGrounded framing) (f ping))
    (hw : Grounded framing happened w.1) : op.IsGrounded framing happened w := by
  have hping := updatePing_grounded hw
  cases hupdate : updatePing w with
  | error e v =>
    obtain ⟨new, hnew, hgrounded⟩ := hping.of_eq_error hupdate
    have hafter : op.after w = v := by rw [Operation.after, hperform, bind_of_error hupdate]
    have hmarks : op.marks w = new.map .event := by
      rw [Operation.marks, hmeasures, measurement?, hupdate, hfirst, hafter, hnew]
      simp only [marksBetween, since_append, List.append_nil]
    constructor
    · rw [hmarks, hafter]
      exact hgrounded
    · rw [hmarks, hafter, eventsOf_map]
      exact hnew
  | ok ping v =>
    obtain ⟨new, hnew, hgrounded⟩ := hping.of_eq_ok hupdate
    have hrest : Ends op.perform w fun _ u => StaysGrounded framing v u := by
      rw [Ends, hperform, bind_of_ok hupdate]
      exact hf ping v
    obtain ⟨more, hmore, hgrounded⟩ := Operation.after_of_ends hrest _ hgrounded
    -- What is measured stands between the events of the exchange and those behind it.
    have hmarks : op.marks w = more.map .event ++ .measured ping :: new.map .event := by
      have hlater : since v.2.history (op.after w).2.history = more := by rw [hmore, since_append]
      have hearlier : since w.2.history v.2.history = new := by rw [hnew, since_append]
      rw [Operation.marks, hmeasures, measurement?, hupdate, hfirst]
      simp only [marksBetween, hlater, hearlier, List.append_nil]
    constructor
    · rw [hmarks, List.append_assoc]
      exact hgrounded
    · have hevents : eventsOf (.measured ping :: new.map .event) = new := eventsOf_map new
      rw [hmarks, hmore, hnew, eventsOf_append, eventsOf_map, hevents, List.append_assoc]

theorem isGrounded_rotate (hw : Grounded framing happened w.1) :
    Operation.rotate.IsGrounded framing happened w := by
  have hends : Ends (Operation.perform .rotate) w fun _ v => v.1.cache = {} ∧
      (∃ own, v.1.IsAttached False v.1.endpoint framing own) ∧
      ∃ new, v.2.history = new ++ w.2.history ∧ ∀ e ∈ new, e.IsNumberFree := by
    obtain ⟨own, hown⟩ := hw.attached
    refine Ends.discard ((rotate_opens w).imp ?_)
    rintro r v ⟨hendpoint, hcache, hbound, failure, ⟨closed, hclosed, -, -, hhistory⟩, -⟩
    rw [hown.engine.bound.framing_eq, ← hendpoint] at hbound
    refine ⟨hcache, ⟨_, ⟨hbound, False.elim⟩, rfl⟩, _ :: closed, hhistory, ?_⟩
    refine List.forall_mem_cons.2 ⟨isNumberFree_connected _ failure, fun e he => ?_⟩
    obtain ⟨peer, rfl⟩ := hclosed e he
    nofun
  obtain ⟨hcache, hattached, new, hnew, hfree⟩ := Operation.after_of_ends hends
  have hmarks : Operation.rotate.marks w = new.map .event ++ [.rotation] := by
    rw [Operation.marks, hnew]
    exact congrArg (·.map Mark.event ++ [Mark.rotation]) (since_append new _)
  -- The events of a rotation are behind its mark, and the cache has been cleared before them.
  have hrotation : NumbersCame framing (.rotation :: happened) :=
    hw.numbers.cons fun _ _ _ h => nomatch h
  refine ⟨⟨hattached, ?_, ?_⟩, ?_⟩
  · rw [hcache]
    exact .empty
  · rw [hmarks, List.append_assoc]
    exact hrotation.append hfree
  · rw [hmarks, hnew, eventsOf_append, eventsOf_map]
    exact congrArg (· ++ w.2.history) (List.append_nil new).symm

theorem isGrounded_of_manages (hop : op.Manages) (hw : Grounded framing happened w.1) :
    op.IsGrounded framing happened w := by
  obtain ⟨own, hown⟩ := hw.attached
  cases op with
  | rotate => exact isGrounded_rotate hw
  | setTimeout timeout =>
    refine isGrounded_of_staysGrounded rfl rfl (fun marks hmarks => ⟨[], rfl, ?_⟩) hw
    exact ⟨⟨timeout, hown.setTimeout timeout⟩, hmarks.cache, hmarks.numbers⟩
  | clearCache =>
    refine isGrounded_of_staysGrounded rfl rfl (fun marks hmarks => ⟨[], rfl, ?_⟩) hw
    exact ⟨⟨own, hown.engine, rfl⟩, .empty, hmarks.numbers⟩
  | disconnect =>
    refine isGrounded_of_staysGrounded rfl rfl ((disconnect_ends w hown).imp ?_) hw
    rintro r v ⟨hv, -, hcache, closed, hclosed, hhistory⟩ marks hmarks
    refine ⟨closed, hhistory, hmarks.keeps hv hcache fun e he => ?_⟩
    rw [hclosed e he]
    nofun
  | _ => exact hop.elim

theorem isGrounded_of_measures (hop : op.Measures) (hw : Grounded framing happened w.1) :
    op.IsGrounded framing happened w := by
  have hbasics : Moves (StaysGrounded framing) (do update .info; update .challenge) :=
    (carriesAnswers_staysGrounded.moves_update .info).bind fun _ =>
      carriesAnswers_staysGrounded.moves_update .challenge
  cases op with
  | updatePing =>
    exact isGrounded_of_updatePing (f := fun _ => pure ()) rfl rfl rfl (fun _ => moves_pure _) hw
  | updateBasics => exact isGrounded_of_updatePing rfl rfl rfl (fun _ => hbasics) hw
  | ping =>
    cases hping : w.1.cache.ping with
    | some ping =>
      refine isGrounded_of_staysGrounded rfl ?_ (Ends.discard (ends_state_bind ?_)) hw
      · rw [Operation.measurement?, hping]
        rfl
      · simp only [hping]
        exact moves_pure _ w
    | none =>
      refine isGrounded_of_updatePing (f := fun _ => pure ()) rfl ?_ ?_ (fun _ => moves_pure _) hw
      · rw [Operation.measurement?, hping]
        rfl
      · have hsame : ping w = updatePing w := by
          rw [ping, state_bind, hping]
        change EStateM.map _ ping w = EStateM.bind updatePing _ w
        simp only [EStateM.map, EStateM.bind, hsame]
        rfl
  | _ => exact hop.elim

theorem isGrounded_perform (op : Operation) (hw : Grounded framing happened w.1) :
    op.IsGrounded framing happened w := by
  by_cases hmanages : op.Manages
  · exact isGrounded_of_manages hmanages hw
  by_cases hmeasures : op.Measures
  · exact isGrounded_of_measures hmeasures hw
  have hmoves : Moves (StaysGrounded framing) op.perform :=
    carriesAnswers_staysGrounded.moves_perform_of_not_measures hmanages hmeasures
  refine isGrounded_of_staysGrounded ?_ ?_ (hmoves w) hw
  · cases op with
    | rotate => exact absurd trivial hmanages
    | _ => rfl
  · cases op with
    | updatePing | updateBasics | ping => exact absurd trivial hmeasures
    | _ => rfl

theorem grounded_run (ops : List Operation) (hw : Grounded framing happened w.1) :
    Grounded framing (marks ops w ++ happened) (run ops w).1 ∧
      (run ops w).2.history = eventsOf (marks ops w) ++ w.2.history := by
  induction ops generalizing w happened with
  | nil => exact ⟨hw, rfl⟩
  | cons op ops ih =>
    -- The operations that are left start from all that has happened by then.
    obtain ⟨hgrounded, hevents⟩ := isGrounded_perform op hw
    obtain ⟨hrun, hhistory⟩ := ih hgrounded
    constructor
    · rw [marks, List.append_assoc]
      exact hrun
    · rw [marks, eventsOf_append, List.append_assoc, ← hevents]
      exact hhistory

/-- Whatever a client has done, and whatever has failed: what it keeps has come from the active
address since the last rotation, and so has every challenge number that it has sent. A rotation
leaves nothing of the cache, whether or not a new socket can be opened. -/
theorem cache_comes_from_active_address {σ : Type} {endpoint : Endpoint} {engine : EngineSession}
    {start v : σ × Network} {server : GameServer}
    (h : connect endpoint engine start = .ok server v) (ops : List Operation) :
    let w := run ops (server, v.2)
    let happened := marks ops (server, v.2)
    w.2.history = eventsOf happened ++ v.2.history ∧
      CacheCame engine.framing w.1.address (sinceRotation happened) w.1.cache ∧
      NumbersCame engine.framing happened ∧ (Operation.rotate.after w).1.cache = {} := by
  obtain ⟨hattached, hcache⟩ := attached_of_connect h
  have hserver : Grounded engine.framing [] server := by
    refine ⟨⟨engine.timeout, hattached.endpoint ▸ hattached⟩, ?_, ?_⟩
    · rw [hcache]
      exact .empty
    · intro later earlier peer bytes number hnil
      exact absurd hnil.symm (List.append_ne_nil_of_right_ne_nil later (List.cons_ne_nil _ _))
  obtain ⟨hrun, hhistory⟩ := grounded_run (w := (server, v.2)) ops hserver
  rw [List.append_nil] at hrun
  refine ⟨hhistory, hrun.cache, hrun.numbers, ?_⟩
  have hrotate : Ends (Operation.perform .rotate) (run ops (server, v.2)) fun _ u =>
      u.1.cache = {} := Ends.discard ((rotate_opens _).imp fun _ _ hu => hu.2.1)
  exact Operation.after_of_ends hrotate

section Lonely

open MasterServer (mastersAt masterAddress)

/-- Only the first address can be reached. It tells its rules to whoever knows its number. -/
def lonelyWorld : World where
  connect _ _ peer := if peer = masterAddress 1 then none else some .refused
  react _ _ _ bytes := .ok [.data (requestStart ++
    if bytes = (Request.rules { challenge := 7 }).bytes then [0x45, 0, 0] else [0x41, 7, 0, 0, 0])]
  resolve _ := none
  sessionId _ := 7

def lonelyEndpoint : Endpoint := mastersAt (masterAddress 1) [masterAddress 2]

def lonelyStart : Unit × Network := ((), { world := lonelyWorld })

/-- The number of the first server is gone once the client has tried to go on to the second one. -/
theorem cache_comes_from_active_address_lonely : ∃ server v,
    connect lonelyEndpoint (.goldSrc {}) lonelyStart = .ok server v ∧
      let w := run [.update .rules] (server, v.2)
      let recent := sinceRotation (marks [.update .rules] (server, v.2))
      w.1.address = masterAddress 1 ∧ w.1.cache.challenge = some 7 ∧
        Came .goldSrc w.1.address (eventsOf recent) (.challenge 7) ∧
        (Operation.rotate.after w).1.address = masterAddress 2 ∧
        (Operation.rotate.after w).1.engine.isOpen = false ∧
        (Operation.rotate.after w).1.cache = {} := by
  refine ⟨_, _, rfl, ?_⟩
  have hconnect : connect lonelyEndpoint (.goldSrc {}) lonelyStart = .ok _ _ := rfl
  obtain ⟨-, hcame, -, hrotated⟩ := cache_comes_from_active_address hconnect [.update .rules]
  refine ⟨by decide +kernel, by decide +kernel, hcame.challenge 7 ?_, by decide +kernel,
    by decide +kernel, hrotated⟩
  decide +kernel

end Lonely

end GameServer

end GameQuery
