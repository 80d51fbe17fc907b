import GameQuery.Proofs.ServerCoherence

namespace GameQuery

/-!
# Requests that are sent once more

A server may answer a request with something else than what is asked for, a challenge number for
example. What it sends is kept in its own category, and the request is sent once more, with the
latest challenge number. A server that keeps one challenge number is understood at the second
request at the latest, whatever the client knew of it before.
-/

open Dialog

/-! ## Categories of the cache -/

namespace ServerCache

/-- The reply that is kept in a category. -/
def reply? (c : ServerCache) : Category → Option Reply
  | .ping => none
  | .info => c.info.map .info
  | .rules => c.rules.map .rules
  | .players => c.players.map .players
  | .challenge => c.challenge.map .challenge

theorem reply?_store (c : ServerCache) (r : Reply) (k : Category) :
    (c.store r).reply? k = if Category.ofReply r = some k then some r else c.reply? k := by
  cases r <;> cases k <;> rfl

theorem ping_store (c : ServerCache) (r : Reply) : (c.store r).ping = c.ping := by
  cases r <;> rfl

/-- What is kept in a category is the latest reply of this category. -/
theorem reply?_foldl_store (c : ServerCache) (replies : List Reply) (k : Category) :
    (replies.foldl store c).reply? k =
      (replies.filter fun r => Category.ofReply r = some k).getLast?.or (c.reply? k) := by
  induction replies using List.reverseRecOn with
  | nil => rfl
  | append_singleton replies r ih =>
    rw [List.foldl_append, List.foldl_cons, List.foldl_nil, reply?_store, ih, List.filter_append]
    by_cases hr : Category.ofReply r = some k
    · simp [hr]
    · simp [hr]

theorem ping_foldl_store (c : ServerCache) (replies : List Reply) :
    (replies.foldl store c).ping = c.ping := by
  induction replies using List.reverseRecOn with
  | nil => rfl
  | append_singleton replies r ih =>
    rw [List.foldl_append, List.foldl_cons, List.foldl_nil, ping_store, ih]

end ServerCache

/-! ## Turns -/

/-- A request and what has been taken after it. -/
structure Turn where
  request : Request
  datagrams : List (List UInt8)

namespace Turn

def events (peer : SocketAddress) (t : Turn) : List Event :=
  receptions peer t.datagrams ++ [.sent .udp peer t.request.bytes]

def reply? (framing : Framing) (t : Turn) : Option Reply :=
  QueryChannel.replyIn { framing } t.datagrams

end Turn

/-- The replies that some turns have brought. -/
def repliesOf (framing : Framing) (turns : List Turn) : List Reply :=
  turns.filterMap (Turn.reply? framing)

namespace GameServer

/-- Only in the last turn may waiting have ended with nothing. -/
def Followed (peer : SocketAddress) (turns : List Turn) (old history : List Event) : Prop :=
  ∃ silence, (silence = [] ∨ ∃ wait, silence = [.timedOut .udp peer wait]) ∧
    history = silence ++ ((turns.reverse.flatMap (Turn.events peer)) ++ old)

/-- What it comes to when a category is to be brought up to date: there are no sockets, or the turns
that have been taken, which are two at most. -/
structure Refreshed (category : Category) (framing : Framing) (w : GameServer × Network)
    (turns : List Turn) (r : Except ClientError Unit) (v : GameServer × Network) : Prop where
  history : turns = [] ∧ w.1.engine.isOpen = false ∧ (∃ f, r = .error (.ofFailure f) ∧
        v.2.history = .connected .udp w.1.address (some f) :: w.2.history) ∨
      turns ≠ [] ∧ Followed w.1.address turns
        (opening w.1.address w.1.engine.isOpen ++ w.2.history) v.2.history
  length_le : turns.length ≤ 2
  request : ∀ before t after, turns = before ++ t :: after →
    let cache := (repliesOf framing before).foldl ServerCache.store w.1.cache
    t.request = requestFor category (cache.challenge.getD noChallenge)
      (if before = [] then none else cache.challenge)
  kept : ∀ k, v.1.cache.reply? k =
    ((repliesOf framing turns).filter fun a => Category.ofReply a = some k).getLast?.or
      (w.1.cache.reply? k)
  ping : v.1.cache.ping = w.1.cache.ping
  ok_iff : r = .ok () ↔ ∃ a, (repliesOf framing turns).getLast? = some a ∧
    Category.ofReply a = some category
  unexpected_iff : r = .error .unexpected ↔ ∃ a b, repliesOf framing turns = [a, b] ∧
    Category.ofReply a ≠ some category ∧ Category.ofReply b ≠ some category

variable {needed : Prop} {endpoint : Endpoint} {framing : Framing} {own : Option Nat}
  {category : Category} {w v : GameServer × Network}

/-- One turn, or no sockets to take it with. -/
theorem exchange_turn (category : Category) (infoChallenge : Option Int32)
    (h : w.1.IsAttached needed endpoint framing own) :
    Ends (exchange category infoChallenge) w fun r v =>
      v.1.IsAttached needed endpoint framing own ∧
        ((w.1.engine.isOpen = false ∧ v.1.cache = w.1.cache ∧ ∃ f, r = .error (.ofFailure f) ∧
            v.2.history = .connected .udp endpoint.address (some f) :: w.2.history) ∨
          ∃ t : Turn, t.request =
              requestFor category (w.1.cache.challenge.getD noChallenge) infoChallenge ∧
            Followed endpoint.address [t]
              (opening endpoint.address w.1.engine.isOpen ++ w.2.history) v.2.history ∧
            match t.reply? framing with
            | some reply => r = .ok (Category.ofReply reply) ∧
                v.1.cache = w.1.cache.store reply ∧ v.1.engine.isOpen = true ∧
                v.2.history = t.events endpoint.address ++
                  (opening endpoint.address w.1.engine.isOpen ++ w.2.history)
            | none => (∃ e, r = .error e ∧ e ≠ .unexpected) ∧ v.1.cache = w.1.cache) := by
  refine (exchange_ends category infoChallenge h w.2).imp ?_
  rintro r v ⟨hv, o, hasked, ho⟩
  refine ⟨hv, ?_⟩
  generalize hhistory : v.2.history = history at hasked
  cases hasked with
  | unopened hwas f => exact .inl ⟨hwas, ho.2, f, ho.1, rfl⟩
  | waited datagrams hwaited =>
    let t : Turn := ⟨requestFor category (w.1.cache.challenge.getD noChallenge) infoChallenge,
      datagrams⟩
    have hevents : ∀ old, receptions endpoint.address datagrams ++
        .sent .udp endpoint.address t.request.bytes :: old = t.events endpoint.address ++ old :=
      fun old => List.append_cons ..
    have hsingle : [t].reverse.flatMap (Turn.events endpoint.address) = t.events endpoint.address :=
      List.append_nil _
    refine .inr ⟨t, rfl, ?_, ?_⟩
    · rw [Followed, hsingle]
      cases o with
      | ok reply => exact ⟨[], .inl rfl, hwaited.2.trans (hevents _)⟩
      | error e =>
        obtain ⟨-, -, hquiet | ⟨wait, hquiet⟩⟩ := hwaited
        · exact ⟨[], .inl rfl, hquiet.trans (hevents _)⟩
        · exact ⟨[_], .inr ⟨wait, rfl⟩, hquiet.trans (congrArg _ (hevents _))⟩
    · cases o with
      | ok reply =>
        have hreply : t.reply? framing = some reply := hwaited.1
        rw [hreply]
        exact ⟨ho.1, ho.2.1, ho.2.2, hwaited.2.trans (hevents _)⟩
      | error e =>
        have hreply : t.reply? framing = none := hwaited.1
        rw [hreply]
        exact ⟨⟨e, ho.1, hwaited.2.1⟩, ho.2⟩

theorem Refreshed.of_cache {turns : List Turn} {r : Except ClientError Unit}
    (history : turns = [] ∧ w.1.engine.isOpen = false ∧ (∃ f, r = .error (.ofFailure f) ∧
        v.2.history = .connected .udp w.1.address (some f) :: w.2.history) ∨
      turns ≠ [] ∧ Followed w.1.address turns
        (opening w.1.address w.1.engine.isOpen ++ w.2.history) v.2.history)
    (length_le : turns.length ≤ 2)
    (request : ∀ before t after, turns = before ++ t :: after →
      let cache := (repliesOf framing before).foldl ServerCache.store w.1.cache
      t.request = requestFor category (cache.challenge.getD noChallenge)
        (if before = [] then none else cache.challenge))
    (cache : v.1.cache = (repliesOf framing turns).foldl ServerCache.store w.1.cache)
    (ok_iff : r = .ok () ↔ ∃ a, (repliesOf framing turns).getLast? = some a ∧
      Category.ofReply a = some category)
    (unexpected_iff : r = .error .unexpected ↔ ∃ a b, repliesOf framing turns = [a, b] ∧
      Category.ofReply a ≠ some category ∧ Category.ofReply b ≠ some category) :
    Refreshed category framing w turns r v where
  history := history
  length_le := length_le
  request := request
  kept k := by rw [cache, ServerCache.reply?_foldl_store]
  ping := by rw [cache, ServerCache.ping_foldl_store]
  ok_iff := ok_iff
  unexpected_iff := unexpected_iff

/-- The first turn is the last one, if it brings nothing or what is asked for. -/
theorem refreshed_of_first {t : Turn} {r : Except ClientError Unit}
    (hrequest : t.request = requestFor category (w.1.cache.challenge.getD noChallenge) none)
    (hhistory : Followed w.1.address [t]
      (opening w.1.address w.1.engine.isOpen ++ w.2.history) v.2.history)
    (hreply : match t.reply? framing with
      | some reply => r = .ok () ∧ Category.ofReply reply = some category ∧
          v.1.cache = w.1.cache.store reply
      | none => (∃ e, r = .error e ∧ e ≠ .unexpected) ∧ v.1.cache = w.1.cache) :
    Refreshed category framing w [t] r v := by
  have hreplies : repliesOf framing [t] = (t.reply? framing).toList := by
    cases ht : t.reply? framing <;> simp [repliesOf, ht]
  refine Refreshed.of_cache (.inr ⟨List.cons_ne_nil _ _, hhistory⟩) (Nat.le_succ 1) ?_ ?_ ?_ ?_
  · intro before t' after hsplit
    cases before with
    | nil =>
      obtain ⟨rfl, -⟩ := List.cons.inj hsplit
      exact hrequest
    | cons t'' before => simp at hsplit
  all_goals
    rw [hreplies]
    cases ht : t.reply? framing with
    | none =>
      rw [ht] at hreply
      obtain ⟨⟨e, rfl, he⟩, hcache⟩ := hreply
      simp [hcache, he]
    | some reply =>
      rw [ht] at hreply
      obtain ⟨rfl, hcategory, hcache⟩ := hreply
      simp [hcache, hcategory]

/-- The second turn is the last one, whatever it brings. -/
theorem refreshed_of_second {t t' : Turn} {a : Reply} {r : Except ClientError Unit}
    (hrequest : t.request = requestFor category (w.1.cache.challenge.getD noChallenge) none)
    (ha : t.reply? framing = some a) (hother : Category.ofReply a ≠ some category)
    (hrequest' : t'.request = requestFor category
      ((w.1.cache.store a).challenge.getD noChallenge) (w.1.cache.store a).challenge)
    (hhistory : Followed w.1.address [t, t']
      (opening w.1.address w.1.engine.isOpen ++ w.2.history) v.2.history)
    (hreply : match t'.reply? framing with
      | some b => v.1.cache = (w.1.cache.store a).store b ∧
          r = if Category.ofReply b = some category then .ok () else .error .unexpected
      | none => (∃ e, r = .error e ∧ e ≠ .unexpected) ∧ v.1.cache = w.1.cache.store a) :
    Refreshed category framing w [t, t'] r v := by
  have hreplies : repliesOf framing [t, t'] = a :: (t'.reply? framing).toList := by
    cases ht' : t'.reply? framing <;> simp [repliesOf, ha, ht']
  refine Refreshed.of_cache (.inr ⟨List.cons_ne_nil _ _, hhistory⟩) (Nat.le_refl 2) ?_ ?_ ?_ ?_
  · intro before u after hsplit
    match before, hsplit with
    | [], hsplit =>
      obtain ⟨rfl, -⟩ := List.cons.inj hsplit
      exact hrequest
    | [_], hsplit =>
      obtain ⟨rfl, htail⟩ := List.cons.inj hsplit
      obtain ⟨rfl, -⟩ := List.cons.inj htail
      have hfirst : repliesOf framing [t] = [a] := by simp [repliesOf, ha]
      rw [hfirst]
      exact hrequest'
    | _ :: _ :: before, hsplit => simp at hsplit
  all_goals
    rw [hreplies]
    cases ht' : t'.reply? framing with
    | none =>
      rw [ht'] at hreply
      obtain ⟨⟨e, rfl, he⟩, hcache⟩ := hreply
      simp [hcache, he, hother]
    | some b =>
      rw [ht'] at hreply
      obtain ⟨hcache, rfl⟩ := hreply
      by_cases hb : Category.ofReply b = some category
      · simp [hcache, hb]
      · simp [hcache, hb, hother]

/-- What is left of an outcome when only one category will do. -/
def expect (category : Category) (r : Except ClientError (Option Category)) :
    Except ClientError Unit :=
  r.bind fun c => if c = some category then .ok () else .error .unexpected

theorem ends_expect {d : Dialog GameServer (Option Category)}
    {P : Except ClientError Unit → GameServer × Network → Prop}
    (h : Ends d w fun r v => P (expect category r) v) :
    Ends (do unless (← d) = some category do throw .unexpected) w P := by
  refine h.bind (fun c v hv => ?_) fun e v hv => hv
  change P (if c = some category then _ else _) v at hv
  split at hv
  · next hc =>
    rw [if_pos hc]
    exact ends_pure hv
  · next hc =>
    rw [if_neg hc]
    exact ends_throw hv

theorem followed_of_second {peer : SocketAddress} {t t' : Turn} {old history : List Event}
    (h : Followed peer [t'] (t.events peer ++ old) history) :
    Followed peer [t, t'] old history := by
  obtain ⟨silence, hsilence, hhistory⟩ := h
  refine ⟨silence, hsilence, hhistory.trans ?_⟩
  simp

theorem second_turn_refreshes {u : GameServer × Network} {t : Turn} {a : Reply}
    (h : w.1.IsAttached needed endpoint framing own)
    (hu : u.1.IsAttached needed endpoint framing own) (hopen : u.1.engine.isOpen = true)
    (hcache : u.1.cache = w.1.cache.store a)
    (hhistory : u.2.history = t.events endpoint.address ++
      (opening endpoint.address w.1.engine.isOpen ++ w.2.history))
    (hrequest : t.request = requestFor category (w.1.cache.challenge.getD noChallenge) none)
    (ha : t.reply? framing = some a) (hother : Category.ofReply a ≠ some category) :
    Ends (do unless (← exchange category u.1.cache.challenge) = some category do throw .unexpected)
      u fun r v => ∃ turns, Refreshed category framing w turns r v := by
  refine ends_expect ((exchange_turn category u.1.cache.challenge hu).imp ?_)
  rintro r v ⟨-, ⟨hclosed, -⟩ | ⟨t', hrequest', hfollowed, ht'⟩⟩
  · rw [hopen] at hclosed
    cases hclosed
  · rw [hcache] at hrequest'
    have hsame : opening endpoint.address u.1.engine.isOpen = [] := by
      rw [hopen]
      rfl
    rw [hsame, List.nil_append, hhistory, ← h.address] at hfollowed
    refine ⟨[t, t'], refreshed_of_second hrequest ha hother hrequest'
      (followed_of_second hfollowed) ?_⟩
    cases hreply : t'.reply? framing with
    | none =>
      rw [hreply, hcache] at ht'
      obtain ⟨⟨e, rfl, he⟩, hsame'⟩ := ht'
      exact ⟨⟨e, rfl, he⟩, hsame'⟩
    | some b =>
      rw [hreply, hcache] at ht'
      obtain ⟨rfl, hsame', -⟩ := ht'
      exact ⟨hsame', rfl⟩

/-- Whatever a server sends: a category is brought up to date in two turns at most. -/
theorem update_refreshes (category : Category) (h : w.1.IsAttached needed endpoint framing own) :
    Ends (update category) w fun r v => ∃ turns, Refreshed category framing w turns r v := by
  refine (exchange_turn category none h).bind ?_ ?_
  · rintro c u ⟨hu, ⟨-, -, f, hf, -⟩ | ⟨t, hrequest, hfollowed, ht⟩⟩
    · cases hf
    cases hreply : t.reply? framing with
    | none =>
      rw [hreply] at ht
      obtain ⟨⟨e, he, -⟩, -⟩ := ht
      cases he
    | some a =>
      rw [hreply] at ht
      obtain ⟨hc, hcache, hopen, hhistory⟩ := ht
      cases hc
      by_cases ha : Category.ofReply a = some category
      · rw [if_pos ha]
        rw [← h.address] at hfollowed
        refine ends_pure ⟨[t], refreshed_of_first hrequest hfollowed ?_⟩
        rw [hreply]
        exact ⟨rfl, ha, hcache⟩
      · rw [if_neg ha]
        refine ends_state_bind ?_
        exact second_turn_refreshes h hu hopen hcache hhistory hrequest hreply ha
  · rintro e u ⟨-, ⟨hclosed, hcache, f, hf, hhistory⟩ | ⟨t, hrequest, hfollowed, ht⟩⟩
    · cases hf
      rw [← h.address] at hhistory
      refine ⟨[], Refreshed.of_cache (.inl ⟨rfl, hclosed, f, rfl, hhistory⟩) (Nat.zero_le 2) ?_
        hcache ?_ ?_⟩
      · intro before t after hsplit
        simp at hsplit
      · simp [repliesOf]
      · simp [repliesOf, ClientError.ofFailure_ne_unexpected f]
    · rw [← h.address] at hfollowed
      refine ⟨[t], refreshed_of_first hrequest hfollowed ?_⟩
      cases hreply : t.reply? framing with
      | some a =>
        rw [hreply] at ht
        cases ht.1
      | none =>
        rw [hreply] at ht
        obtain ⟨⟨e', he, hplain⟩, hcache⟩ := ht
        cases he
        exact ⟨⟨e, rfl, hplain⟩, hcache⟩

end GameServer

/-! ## Replies that wait -/

namespace QueryChannel

variable {peer : SocketAddress} {framing : Framing} {own : Option Nat} {world : World}
  {history : List Event} {datagrams : List (List UInt8)} {answer : Reply} {c : QueryChannel}
  {n : Network}

/-- A reply that waits is taken, and all its datagrams with it. -/
theorem replyPasses_of_waiting (timeout : Option Nat)
    (hanswer : replyIn c.reassembler datagrams = some answer)
    (h : Waiting peer world history datagrams (c.socket, n)) :
    ∃ v, iterate (fun _ c => c.queue.length) (fun _ => replyPass timeout) replyPass_shortens ()
        (c, n) = .ok answer v ∧
      Waiting peer world (receptions peer datagrams ++ history) [] (v.1.socket, v.2) := by
  induction datagrams generalizing c n history with
  | nil => cases hanswer
  | cons datagram rest ih =>
    obtain ⟨v, hreceive, hv, -⟩ := DatagramChannel.receive_take_of_waiting timeout h
    let d : QueryChannel := { c with channel := v.1 }
    have hon : on channelPart (DatagramChannel.receive timeout) (c, n) =
        .ok (datagram.take maxDatagramSize) (d, v.2) := on_of_ok (p := channelPart) rfl hreceive
    have haccept := accept_eq (datagram.take maxDatagramSize) d v.2
    have hevents : receptions peer (datagram :: rest) ++ history =
        receptions peer rest ++ .received .udp peer datagram :: history := by
      simp [receptions]
    rw [hevents]
    simp only [replyIn] at hanswer
    have hsame : d.reassembler = c.reassembler := rfl
    rw [hsame] at haccept
    cases hdigest : digest c.reassembler (datagram.take maxDatagramSize) with
    | mk content r =>
      rw [hdigest] at hanswer haccept
      rcases content with e | _ | reply
      · cases hanswer
      · simp only at hanswer haccept
        have hpass : replyPass timeout (c, n) =
            .ok (.again ()) ({ d with reassembler := r }, v.2) := by
          rw [replyPass, bind_of_ok hon, bind_of_ok haccept]
          rfl
        rw [iterate_of_again replyPass_shortens hpass]
        exact ih hanswer hv
      · simp only at hanswer haccept
        cases hlog : isLogLine r.framing reply with
        | true =>
          rw [hlog] at hanswer
          have hpass : replyPass timeout (c, n) =
              .ok (.again ()) ({ d with reassembler := r }, v.2) := by
            rw [replyPass, bind_of_ok hon, bind_of_ok haccept]
            simp only [state_bind, hlog]
            rfl
          rw [iterate_of_again replyPass_shortens hpass]
          exact ih hanswer hv
        | false =>
          rw [hlog] at hanswer
          have hpass : replyPass timeout (c, n) =
              .ok (.done reply) ({ d with reassembler := r }, v.2) := by
            rw [replyPass, bind_of_ok hon, bind_of_ok haccept]
            simp only [state_bind, hlog]
            rfl
          by_cases hrest : rest = []
          · subst hrest
            cases hanswer
            exact ⟨_, iterate_of_done replyPass_shortens hpass, hv⟩
          · simp [hrest] at hanswer

/-- A request is sent and answered: the answer is taken, and nothing is left to be received. -/
theorem converse_of_answered {r : Request} {arrivals : List Arrival}
    (hr : ∀ line, r ≠ .console line) (hbound : c.IsBoundTo peer framing own)
    (hreact : world.react history .udp peer r.bytes = .ok arrivals)
    (harrivals : Arrival.datagrams arrivals = some datagrams)
    (hanswer : replyIn { framing } datagrams = some answer)
    (h : Waiting peer world history [] (c.socket, n)) :
    ∃ v, (do send r; reply none) (c, n) = .ok answer v ∧
      Waiting peer world (receptions peer datagrams ++ .sent .udp peer r.bytes :: history) []
        (v.1.socket, v.2) := by
  obtain ⟨u, hsend, hu⟩ := Socket.send_of_waiting hreact harrivals h
  have hchannel : DatagramChannel.sendRequest r.write (c.channel, n) =
      .ok () ({ c.channel with socket := u.1 }, u.2) := by
    rw [Request.write_eq, DatagramChannel.sendRequest_eq, if_pos (Request.length_bytes_le hr)]
    exact on_of_ok (p := DatagramChannel.socketPart) rfl hsend
  let d : QueryChannel := { c with channel := { c.channel with socket := u.1 } }
  have hsent : send r (c, n) = .ok () (d, u.2) := on_of_ok (p := channelPart) rfl hchannel
  let d' : QueryChannel := { d with reassembler := d.reassembler.clear }
  have hclear : replyIn d'.reassembler datagrams = some answer := by
    have hreassembler : d'.reassembler = { framing } := by
      rw [← hbound.framing]
      rfl
    rwa [hreassembler]
  obtain ⟨v, hreply, hv⟩ := replyPasses_of_waiting (c := d') none hclear hu
  refine ⟨v, ?_, hv⟩
  rw [bind_of_ok hsent, reply, modifyState_bind]
  exact hreply

end QueryChannel

/-! ## Responsive servers -/

/-- What a server has to tell of itself. -/
structure Payload where
  info : ServerInfo
  players : List Player
  rules : Rules

def Payload.reply? (p : Payload) : Category → Option Reply
  | .info => some (.info p.info)
  | .players => some (.players p.players)
  | .rules => some (.rules p.rules)
  | .ping | .challenge => none

/-- What a request asks for. -/
def Request.category? : Request → Option Category
  | info _ => some .info
  | players _ => some .players
  | rules _ => some .rules
  | console _ => none

/-- From some moment on, a server keeps one challenge number and answers every request with what is
asked for, only that it may answer one without the number with the number. -/
def Responsive (framing : Framing) (peer : SocketAddress) (number : Int32) (p : Payload)
    (world : World) (old : List Event) : Prop :=
  ∀ new (r : Request) category reply, r.category? = some category → p.reply? category = some reply →
    ∃ arrivals datagrams answer, world.react (new ++ old) .udp peer r.bytes = .ok arrivals ∧
      Arrival.datagrams arrivals = some datagrams ∧
      QueryChannel.replyIn { framing } datagrams = some answer ∧
      (answer = reply ∨ r.number? ≠ some number ∧ answer = .challenge number)

namespace GameServer

variable {endpoint : Endpoint} {framing : Framing} {own : Option Nat} {world : World}
  {old : List Event} {w : GameServer × Network} {number : Int32} {p : Payload}

/-- Nothing waits to be received, and sockets can be opened if there are none. -/
structure Ready (endpoint : Endpoint) (framing : Framing) (own : Option Nat) (world : World)
    (old : List Event) (w : GameServer × Network) : Prop where
  attached : w.1.IsAttached False endpoint framing own
  world : w.2.world = world
  history : ∃ new, w.2.history = new ++ old
  queue : ∀ c, EngineSession.queryPart.get? w.1.engine = some c →
    Arrival.datagrams c.queue = some []
  connects : w.1.engine.isOpen = false →
    w.2.world.connect w.2.history .udp endpoint.address = none

theorem ensureOpen_of_ready (h : Ready endpoint framing own world old w) :
    ∃ u, ensureOpen w = .ok () u ∧ Ready endpoint framing own world old u ∧
      u.1.IsAttached True endpoint framing own ∧ u.1.cache = w.1.cache := by
  have hends := ensureOpen_ends h.attached w.2
  cases hopen : w.1.engine.isOpen with
  | true =>
    have hrun : ensureOpen w = .ok () w := by
      rw [ensureOpen, state_bind, hopen]
      rfl
    exact ⟨w, hrun, h, ⟨⟨h.attached.engine.bound, fun _ => hopen⟩, h.attached.endpoint⟩, rfl⟩
  | false =>
    rw [hopen] at hends
    simp only [Bool.false_eq_true, if_false] at hends
    have hconnects := h.connects hopen
    obtain ⟨new, hnew⟩ := h.history
    have hready : Ends ensureOpen w fun r u => r = .ok () ∧
        Ready endpoint framing own world old u ∧ u.1.IsAttached True endpoint framing own ∧
        u.1.cache = w.1.cache := by
      refine hends.imp ?_
      rintro r u ⟨hcache, hworld, hattached, failure, rfl, hhistory, hr, hquery⟩
      rw [hconnects] at hhistory hr hquery
      have hisOpen : u.1.engine.isOpen = true := by
        rw [EngineSession.isOpen, hquery]
        rfl
      refine ⟨hr, ⟨hattached, hworld.trans h.world,
        ⟨.connected .udp endpoint.address none :: new, ?_⟩, ?_, ?_⟩,
        ⟨⟨hattached.engine.bound, fun _ => hisOpen⟩, hattached.endpoint⟩, hcache⟩
      · rw [hhistory, hnew]
        rfl
      · intro c hc
        rw [hquery] at hc
        cases hc
        rfl
      · intro hclosed
        rw [hisOpen] at hclosed
        cases hclosed
    cases hrun : ensureOpen w with
    | ok _ u => exact ⟨u, rfl, (hready.of_eq_ok hrun).2⟩
    | error e u => cases (hready.of_eq_error hrun).1

theorem converse_of_responsive {r : Request} {category : Category} {reply : Reply}
    (hserver : Responsive framing endpoint.address number p world old)
    (hr : r.category? = some category) (hreply : p.reply? category = some reply)
    (h : Ready endpoint framing own world old w)
    (hopen : w.1.IsAttached True endpoint framing own) :
    ∃ answer v, on enginePart (EngineSession.converse r) w = .ok answer v ∧
      Ready endpoint framing own world old v ∧ v.1.cache = w.1.cache ∧
      (answer = reply ∨ r.number? ≠ some number ∧ answer = .challenge number) := by
  have hline : ∀ line, r ≠ .console line := by
    rintro line rfl
    cases hr
  obtain ⟨c, hc⟩ := Option.isSome_iff_exists.1 (hopen.engine.isOpen trivial)
  have hbound := hopen.engine.bound.query hc
  obtain ⟨new, hnew⟩ := h.history
  obtain ⟨arrivals, datagrams, answer, hreact, harrivals, hanswer, hcases⟩ :=
    hserver new r category reply hr hreply
  rw [← hnew] at hreact
  obtain ⟨v, hrun, hv⟩ := QueryChannel.converse_of_answered hline hbound hreact harrivals hanswer
    ⟨hbound.transport, hbound.peer, h.world, rfl, h.queue c hc⟩
  have hconverse : EngineSession.converse r (w.1.engine, w.2) =
      .ok answer (EngineSession.queryPart.put v.1 w.1.engine, v.2) := by
    rw [EngineSession.converse_eq]
    exact on_of_ok hc hrun
  have hon : on enginePart (EngineSession.converse r) w =
      .ok answer (enginePart.put (EngineSession.queryPart.put v.1 w.1.engine) w.1, v.2) :=
    on_of_ok (p := enginePart) rfl hconverse
  obtain ⟨hattached, -⟩ := (converse_ends hline hopen w.2).of_eq_ok hon
  refine ⟨answer, _, hon, ⟨hattached.imp False.elim, hv.world, ?_, ?_, ?_⟩, rfl, hcases⟩
  · rw [hv.history, hnew]
    exact ⟨_, (List.append_assoc (receptions endpoint.address datagrams)
      (.sent .udp endpoint.address r.bytes :: new) old).symm⟩
  · intro c' hc'
    have hput := EngineSession.queryPart_get?_put v.1 w.1.engine
    cases hc'.symm.trans hput
    exact hv.datagrams
  · intro hclosed
    exact absurd (hattached.engine.isOpen trivial) (Bool.eq_false_iff.1 hclosed)

theorem exchange_of_responsive {category : Category} {infoChallenge : Option Int32} {reply : Reply}
    (hserver : Responsive framing endpoint.address number p world old)
    (hreply : p.reply? category = some reply) (h : Ready endpoint framing own world old w) :
    Ends (exchange category infoChallenge) w fun r v => ∃ answer,
      r = .ok (Category.ofReply answer) ∧ Ready endpoint framing own world old v ∧
      v.1.cache = w.1.cache.store answer ∧
      (answer = reply ∨ (requestFor category (w.1.cache.challenge.getD noChallenge)
        infoChallenge).number? ≠ some number ∧ answer = .challenge number) := by
  have hcategory : (requestFor category (w.1.cache.challenge.getD noChallenge)
      infoChallenge).category? = some category := by
    cases category with
    | info | players | rules => rfl
    | ping | challenge => cases hreply
  obtain ⟨u, hopen, hu, hattached, hcache⟩ := ensureOpen_of_ready h
  obtain ⟨answer, v, hconverse, hv, hsame, hcases⟩ :=
    converse_of_responsive hserver hcategory hreply hu hattached
  refine ends_state_bind (ends_bind_of_ok hopen ?_)
  rw [converse_bind]
  refine ends_bind_of_ok hconverse (ends_modifyState_bind (ends_pure
    ⟨answer, rfl, ⟨⟨hv.attached.engine, hv.attached.endpoint⟩, hv.world, hv.history, hv.queue,
      hv.connects⟩, ?_, hcases⟩))
  rw [store, hsame, hcache]

theorem Payload.ofReply_of_reply? {category : Category} {reply : Reply}
    (h : p.reply? category = some reply) : Category.ofReply reply = some category := by
  cases category <;> cases h <;> rfl

/-- The number that a server has sent is in the request that is sent once more. -/
theorem number?_requestFor {category : Category} {reply : Reply} {cache : ServerCache}
    (hreply : p.reply? category = some reply) (hcache : cache.challenge = some number) :
    (requestFor category (cache.challenge.getD noChallenge) cache.challenge).number? =
      some number := by
  rw [hcache]
  cases category with
  | info | players | rules => rfl
  | ping | challenge => cases hreply

theorem update_of_responsive {category : Category} {reply : Reply}
    (hserver : Responsive framing endpoint.address number p world old)
    (hreply : p.reply? category = some reply) (h : Ready endpoint framing own world old w) :
    Ends (update category) w fun r v => r = .ok () ∧ v.1.cache.reply? category = some reply := by
  have hkind := Payload.ofReply_of_reply? hreply
  have hkept : ∀ cache : ServerCache, (cache.store reply).reply? category = some reply := by
    intro cache
    rw [ServerCache.reply?_store, if_pos hkind]
  refine (exchange_of_responsive hserver hreply h).bind ?_ ?_
  · rintro c u ⟨answer, hc, hu, hcache, rfl | ⟨-, rfl⟩⟩
    · cases hc
      rw [if_pos hkind]
      refine ends_pure ⟨rfl, ?_⟩
      rw [hcache]
      exact hkept _
    · cases hc
      have hother : Category.ofReply (.challenge number) ≠ some category := by
        rintro ⟨⟩
        cases hreply
      rw [if_neg hother]
      have hnumber : u.1.cache.challenge = some number := by
        rw [hcache]
        rfl
      refine ends_state_bind (ends_expect ((exchange_of_responsive hserver hreply hu).imp ?_))
      rintro r v ⟨answer, rfl, -, hcache', rfl | ⟨hunequal, -⟩⟩
      · rw [hcache']
        exact ⟨if_pos hkind, hkept _⟩
      · exact absurd (number?_requestFor hreply hnumber) hunequal
  · rintro e u ⟨answer, he, -⟩
    cases he

/-! ## What is brought up to date -/

/-- What a client asks a server for, to have it in the cache. -/
inductive Refresh where
  | info
  | rules
  | players

def Refresh.category : Refresh → Category
  | info => .info
  | rules => .rules
  | players => .players

def Refresh.perform : Refresh → Dialog GameServer Unit
  | info => update .info
  | rules => update .rules
  | players => updatePlayers none

theorem Refresh.perform_eq (x : Refresh) : x.perform = update x.category := by
  cases x with
  | info => rfl
  | rules => rfl
  | players =>
    change (update .players >>= fun _ => pure ()) = update .players
    exact bind_pure _

theorem Refresh.exists_reply? (x : Refresh) (p : Payload) :
    ∃ reply, p.reply? x.category = some reply := by
  cases x <;> exact ⟨_, rfl⟩

/-- How many requests, and other bytes, a client sends. -/
def sentSince (new : List Event) : Nat :=
  new.countP fun e => match e with
    | .sent .. => true
    | _ => false

theorem sentSince_append (new old : List Event) :
    sentSince (new ++ old) = sentSince new + sentSince old := List.countP_append

theorem sentSince_events (peer : SocketAddress) (t : Turn) : sentSince (t.events peer) = 1 := by
  have hreceptions : sentSince (receptions peer t.datagrams) = 0 := by
    refine List.countP_eq_zero.2 fun e he => ?_
    obtain ⟨datagram, -, rfl⟩ := List.mem_map.1 (List.mem_reverse.1 he)
    exact Bool.false_ne_true
  rw [Turn.events, sentSince_append, hreceptions]
  rfl

theorem sentSince_turns (peer : SocketAddress) (turns : List Turn) :
    sentSince (turns.reverse.flatMap (Turn.events peer)) = turns.length := by
  induction turns with
  | nil => rfl
  | cons t turns ih =>
    rw [List.reverse_cons, List.flatMap_append, sentSince_append, ih, List.flatMap_singleton,
      sentSince_events, List.length_cons]

/-- A request is sent for each turn, and nothing else is sent. -/
theorem Refreshed.sentSince_le {category : Category} {turns : List Turn}
    {r : Except ClientError Unit} {v : GameServer × Network}
    (h : Refreshed category framing w turns r v) :
    ∃ new, v.2.history = new ++ w.2.history ∧ sentSince new ≤ 2 := by
  obtain ⟨-, -, f, -, hhistory⟩ | ⟨-, silence, hsilence, hhistory⟩ := h.history
  · exact ⟨[_], hhistory, Nat.zero_le 2⟩
  · rw [← List.append_assoc, ← List.append_assoc] at hhistory
    refine ⟨_, hhistory, ?_⟩
    have hquiet : sentSince silence = 0 := by
      rcases hsilence with rfl | ⟨wait, rfl⟩
      · rfl
      · rfl
    have hopening : ∀ peer wasOpen, sentSince (opening peer wasOpen) = 0 := by
      intro peer wasOpen
      cases wasOpen with
      | true => rfl
      | false => rfl
    rw [sentSince_append, sentSince_append, sentSince_turns, hquiet, hopening]
    have hlength := h.length_le
    omega

/-- Whatever a server sends when it is asked for its information, its rules or its players, at most
two requests are sent, each reply is kept in its own category, and it fails as unexpected exactly if
both replies are of other categories. A server that keeps one challenge number is understood. -/
theorem perform_refreshes (x : Refresh)
    (h : w.1.engine.IsBoundTo w.1.engine.framing w.1.address own) :
    (Ends x.perform w fun r v =>
      (∃ turns, Refreshed x.category w.1.engine.framing w turns r v) ∧
        ∃ new, v.2.history = new ++ w.2.history ∧ sentSince new ≤ 2) ∧
      ∀ number p, Responsive w.1.engine.framing w.1.address number p w.2.world w.2.history →
        (∀ c, EngineSession.queryPart.get? w.1.engine = some c → c.queue = []) →
        (w.1.engine.isOpen = false → w.2.world.connect w.2.history .udp w.1.address = none) →
        Ends x.perform w fun r v => r = .ok () ∧
          v.1.cache.reply? x.category = p.reply? x.category ∧
          ∃ new, v.2.history = new ++ w.2.history ∧ sentSince new ≤ 2 := by
  have hattached : w.1.IsAttached False w.1.endpoint w.1.engine.framing own :=
    ⟨⟨h, False.elim⟩, rfl⟩
  have hall : Ends x.perform w fun r v =>
      (∃ turns, Refreshed x.category w.1.engine.framing w turns r v) ∧
        ∃ new, v.2.history = new ++ w.2.history ∧ sentSince new ≤ 2 := by
    rw [x.perform_eq]
    refine (update_refreshes x.category hattached).imp ?_
    rintro r v ⟨turns, hturns⟩
    exact ⟨⟨turns, hturns⟩, hturns.sentSince_le⟩
  refine ⟨hall, ?_⟩
  intro number p hserver hqueue hconnect
  obtain ⟨reply, hreply⟩ := x.exists_reply? p
  have hready : Ready w.1.endpoint w.1.engine.framing own w.2.world w.2.history w := by
    refine ⟨hattached, rfl, ⟨[], rfl⟩, ?_, hconnect⟩
    intro c hc
    rw [hqueue c hc]
    rfl
  have hupdate := update_of_responsive hserver hreply hready
  rw [← x.perform_eq] at hupdate
  refine (hall.and hupdate).imp ?_
  rintro r v ⟨⟨-, hsent⟩, hr, hkept⟩
  exact ⟨hr, hkept.trans hreply.symm, hsent⟩

section Stale

def stalePayload : Payload where
  info := { protocol := 17, appId := 10, maxPlayers := 2, serverType := .dedicated, os := .linux }
  players := []
  rules := .ofList []

/-- Tells its rules only to clients that know its number. -/
def staleAnswer (bytes : List UInt8) : List UInt8 :=
  requestStart ++
    match (bytes[4]? : Option UInt8) with
    | some 0x54 => [0x49, 17, 0, 0, 0, 0, 10, 0, 0, 2, 0, 0x64, 0x6C, 0, 0, 0]
    | some 0x55 => [0x44, 0]
    | _ =>
      if bytes = (Request.rules { challenge := 7 }).bytes then [0x45, 0, 0]
      else [0x41, 7, 0, 0, 0]

def staleWorld : World where
  connect _ _ _ := none
  react _ _ _ bytes := .ok [.delay 20, .data (staleAnswer bytes)]
  resolve _ := none
  sessionId _ := 7

theorem responsive_stale (peer : SocketAddress) (old : List Event) :
    Responsive .goldSrc peer 7 stalePayload staleWorld old := by
  have hread : ∀ r : Request, r.bytes[4]? = some r.kind := by
    intro r
    obtain ⟨rest, hbytes⟩ := r.exists_bytes_eq
    rw [hbytes]
    rfl
  intro new r category reply hr hreply
  have hanswers : ∀ datagram answer, staleAnswer r.bytes = datagram →
      QueryChannel.replyIn { framing := .goldSrc } [datagram] = some answer →
      (answer = reply ∨ r.number? ≠ some 7 ∧ answer = .challenge 7) →
      ∃ arrivals datagrams answer,
        staleWorld.react (new ++ old) .udp peer r.bytes = .ok arrivals ∧
        Arrival.datagrams arrivals = some datagrams ∧
        QueryChannel.replyIn { framing := .goldSrc } datagrams = some answer ∧
        (answer = reply ∨ r.number? ≠ some 7 ∧ answer = .challenge 7) := by
    rintro _ answer rfl hdatagram hcases
    exact ⟨_, _, answer, rfl, rfl, hdatagram, hcases⟩
  have hkind := hread r
  cases r with
  | info request =>
    cases hr
    cases hreply
    refine hanswers (requestStart ++ [0x49, 17, 0, 0, 0, 0, 10, 0, 0, 2, 0, 0x64, 0x6C, 0, 0, 0])
      (.info stalePayload.info) ?_ (by decide +kernel) (.inl rfl)
    rw [staleAnswer, hkind]
    rfl
  | players request =>
    cases hr
    cases hreply
    refine hanswers (requestStart ++ [0x44, 0]) (.players []) ?_ (by decide) (.inl rfl)
    rw [staleAnswer, hkind]
    rfl
  | rules request =>
    cases hr
    cases hreply
    by_cases hknown : (Request.rules request).bytes = (Request.rules { challenge := 7 }).bytes
    · refine hanswers (requestStart ++ [0x45, 0, 0]) (.rules (.ofList [])) ?_ rfl (.inl rfl)
      rw [staleAnswer, hkind, if_pos hknown]
      rfl
    · refine hanswers (requestStart ++ [0x41, 7, 0, 0, 0]) (.challenge 7) ?_ (by decide)
        (.inr ⟨?_, rfl⟩)
      · rw [staleAnswer, hkind, if_neg hknown]
        rfl
      · intro hnumber
        obtain ⟨challenge⟩ := request
        have hchallenge : challenge = 7 := Option.some.inj hnumber
        rw [hchallenge] at hknown
        exact hknown rfl
  | console line => cases hr

/-- The client has an old number, and no sockets. -/
def staleClient : GameServer × Network :=
  ({ connection := ⟨MasterServer.mastersAt (MasterServer.masterAddress 1) [], .goldSrc {}⟩
     cache := { challenge := some 5 } }, { world := staleWorld })

theorem perform_refreshes_stale :
    Ends Refresh.rules.perform staleClient fun r v => r = .ok () ∧
      v.1.cache.reply? .rules = some (.rules stalePayload.rules) ∧
      ∃ new, v.2.history = new ++ staleClient.2.history ∧ sentSince new ≤ 2 := by
  have hbound : staleClient.1.engine.IsBoundTo staleClient.1.engine.framing
      staleClient.1.address none := ⟨rfl, nofun, rfl⟩
  obtain ⟨-, hresponsive⟩ := perform_refreshes .rules hbound
  exact hresponsive 7 stalePayload (responsive_stale _ _) nofun fun _ => rfl

end Stale

end GameServer

end GameQuery
