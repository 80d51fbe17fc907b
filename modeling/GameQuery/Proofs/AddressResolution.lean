import GameQuery.Proofs.EndpointAddresses
import GameQuery.Proofs.Ipv6Text
import GameQuery.Proofs.ServerListing
import GameQuery.Proofs.ServerPeers

namespace GameQuery

/-!
# Addresses that are printed and resolved

The text of an address with a port denotes the address and its port, and the text of an IP address
denotes it without a port. Since an IP address is read back from its text, what has been printed
resolves to the address that was there, and to no other. So each server that a discovery lists is
asked at the address that was found.
-/

/-! ## The texts of addresses -/

/-- The address has no zone, which only a link-local IPv6 address has. -/
def SocketAddress.HasNoZone : SocketAddress → Prop
  | v4 _ => True
  | v6 a => a.scope = 0

theorem SocketAddress.HasNoZone.eq_withPort {a : SocketAddress} (h : a.HasNoZone) :
    ∃ ip : IpAddress, a = ip.withPort a.port := by
  cases a with
  | v4 a => exact ⟨.v4 a.ip, rfl⟩
  | v6 a =>
    obtain ⟨ip, port, scope⟩ := a
    cases h
    exact ⟨.v6 ip, rfl⟩

variable {default port : UInt16}

theorem denotes_withPort_text (ip : IpAddress) (port : UInt16) :
    Denotes default (ip.withPort port).text ip.text port := by
  have hport := Text.isPort_decimal port
  cases ip with
  | v4 ip => exact .withPort (IpAddress.head?_text_ne (.v4 ip)) ip.colon_notMem_text hport
  | v6 ip =>
    have htext : (IpAddress.withPort port (.v6 ip)).text =
        '[' :: (ip.text ++ ']' :: ':' :: Text.decimal port.toNat) := by
      simp [IpAddress.withPort, SocketAddress.text, SocketAddressV6.text]
    rw [htext]
    exact .bracketedWithPort (IpAddress.bracket_notMem_text (.v6 ip)).2 hport

theorem denotes_text (ip : IpAddress) : Denotes default ip.text ip.text default :=
  .bare ip.head?_text_ne ip.count_text_ne_one

theorem lookUp_text (names : String → Option (List HostAddress)) (ip : IpAddress) :
    lookUp names ip.text = [ip.unzoned] := by
  rw [lookUp, ip.parse?_text]

namespace Endpoint

variable {names : String → Option (List HostAddress)} {text host : List Char}

/-! ## Resolving one host -/

/-- A text resolves to the addresses of a host with a port: to an endpoint with each of them at its
first place, or to an error if there are none. -/
def ResolvesTo (names : String → Option (List HostAddress)) (default : UInt16)
    (text host : List Char) (port : UInt16) : Prop :=
  if lookUp names host = [] then
    resolve names (String.ofList text) default = .error (.noAddress (String.ofList text))
  else ∃ e, resolve names (String.ofList text) default = .ok e ∧ e.host = String.ofList text ∧
    AreFirstsOf ((lookUp names host).map (·.withPort port)) e.addresses ∧ e.active = 0

/-- A text resolves to exactly one address. -/
def ResolvesToOne (names : String → Option (List HostAddress)) (default : UInt16) (text : List Char)
    (a : SocketAddress) : Prop :=
  ∃ e, resolve names (String.ofList text) default = .ok e ∧ e.host = String.ofList text ∧
    e.addresses = [a]

theorem resolve_of_denotes (h : Denotes default text host port) :
    resolve names (String.ofList text) default =
      ofAddresses (String.ofList text) ((lookUp names host).map (·.withPort port)).eraseDups := by
  have hall : DenoteAll default [String.ofList text] [(host, port)] := by
    refine .cons ?_ .nil
    rwa [String.toList_ofList]
  have hresolve : resolveAll names _ default = _ := resolveAll_of_denoteAll hall
  rw [resolve, hresolve, allAddresses, List.flatMap_singleton]
  rfl

theorem resolvesTo_of_denotes (h : Denotes default text host port) :
    ResolvesTo names default text host port := by
  have hresolve : resolve names _ default = _ := resolve_of_denotes h
  unfold ResolvesTo
  split
  · next hempty => rw [hresolve, hempty, List.map_nil, ofAddresses_eraseDups_nil]
  · next hsome =>
    have hne : (lookUp names host).map (·.withPort port) ≠ [] := List.map_eq_nil_iff.not.2 hsome
    obtain ⟨e, he, hhost, hfirsts, hactive⟩ := ofAddresses_eraseDups hne (String.ofList text)
    exact ⟨e, hresolve.trans he, hhost, hfirsts, hactive⟩

theorem resolvesToOne_of_denotes {ip : IpAddress} (h : Denotes default text ip.text port) :
    ResolvesToOne names default text (ip.withPort port) := by
  have hresolve : resolve names _ default = _ := resolve_of_denotes h
  rw [lookUp_text, List.map_singleton, ip.withPort_unzoned] at hresolve
  exact ⟨_, hresolve, rfl, rfl⟩

end Endpoint

open Dialog Endpoint

/-! ## Asking a server that has been listed -/

/-- What happens when a server is asked for its information at one address: there is no socket to
it, or the request goes out, and whatever follows happens there too. -/
def IsQueryOf (peer : SocketAddress) (events : List Event) : Prop :=
  (∃ f, events = [.connected .udp peer (some f)]) ∨
    ∃ later, events = later ++ [.sent .udp peer (Request.info {}).bytes, .connected .udp peer none] ∧
      ∀ e ∈ later, e.peer = peer

namespace Job

variable {j : Job} {peers : List SocketAddress} {framing : Framing} {own : Option Nat}

theorem fetchInfo_asks {w : GameServer × Network} (hw : w.1.IsAmong peers framing own)
    (hopen : w.1.engine.isOpen = true) (hcache : w.1.cache = {}) :
    Ends fetchInfo w fun _ v => GameServer.AmongSince peers framing own
      (.sent .udp w.1.endpoint.address (Request.info {}).bytes :: w.2.history) v := by
  have hinfo : Moves (GameServer.StaysAmong peers framing own) GameServer.info :=
    GameServer.moves_fetch (GameServer.carriesRequests_staysAmong.moves_update .info) _ _
  have hrest : ∀ ping : Nat, Moves (GameServer.StaysAmong peers framing own) (do
      let info ← GameServer.info
      return (ping, info)) := fun _ => hinfo.bind fun _ => moves_pure _
  have hping : Moves (GameServer.StaysAmong peers framing own) GameServer.ping :=
    GameServer.moves_ping GameServer.staysAmong_updatePing
  apply ends_state_bind
  apply GameServer.tryAddresses_among (hping.bind hrest)
  apply (GameServer.ping_asks hw hopen hcache).bind
  · exact fun ping v hv => GameServer.ends_of_staysAmong (hrest ping) hv
  · exact fun _ _ hv => hv

theorem holdsSocket_session (engine : Engine) : engine.session.holdsSocket = false := by
  cases engine <;> rfl

/-- A client that has just been connected asks a server, and leaves it. -/
theorem asking_among {server : GameServer} {n : Network}
    (hserver : server.IsAmong peers framing own) (hopen : server.engine.isOpen = true)
    (hcache : server.cache = {}) :
    Ends (do
      let r ← Dialog.outcome fetchInfo
      let s ← state
      GameServer.disconnect
      return (s.address, ← Dialog.ofExcept r)) (server, n) fun _ v =>
        GameServer.AmongSince peers framing own
          (.sent .udp server.endpoint.address (Request.info {}).bytes :: n.history) v := by
  refine (fetchInfo_asks hserver hopen hcache).outcome_bind fun r v hv => ?_
  apply ends_state_bind
  apply (GameServer.ends_of_staysAmong GameServer.staysAmong_disconnect hv).bind
  · intro _ u hu
    cases r with
    | ok a => exact ends_bind_of_ok rfl (ends_pure hu)
    | error e => exact ends_throw hu
  · exact fun _ _ hu => hu

/-- A visit to a host of one address happens between the tool and this address. -/
theorem visit_isQueryOf {host : String} {peer : SocketAddress} {w : Unit × Network} {e : Endpoint}
    (he : Endpoint.resolve w.2.world.resolve host gamePort = .ok e) (hpeer : e.addresses = [peer]) :
    Ends (j.visit host fetchInfo) w fun _ v =>
      ∃ events, v.2.history = events ++ w.2.history ∧ IsQueryOf peer events := by
  have haddress : e.address = peer := by
    have hmem := e.address_mem
    rw [hpeer] at hmem
    exact List.mem_singleton.1 hmem
  apply ends_network_bind
  rw [he]
  refine ends_bind_of_ok rfl ?_
  apply (GameServer.connect_opens (holdsSocket_session j.arguments.engine) w).bind
  · rintro server v ⟨-, failure, hhistory, rfl, hcache, hattached⟩
    rw [haddress] at hhistory
    have hserver : server.IsAmong [peer] j.arguments.engine.session.framing
        j.arguments.engine.session.timeout := by
      have hendpoint := hattached.endpoint
      refine ⟨?_, hendpoint ▸ hpeer⟩
      rw [hendpoint]
      exact hattached.imp fun _ => trivial
    apply Ends.within
    refine (asking_among hserver (hattached.engine.isOpen trivial) hcache).imp fun r u hu => ?_
    obtain ⟨-, later, hlater, hpeers⟩ := hu
    rw [hattached.endpoint, haddress, hhistory] at hlater
    refine ⟨_, hlater.trans (List.append_assoc later [_, _] _).symm, .inr ⟨later, rfl, fun e he => ?_⟩⟩
    exact List.mem_singleton.1 (hpeers e he)
  · rintro e v ⟨-, failure, hhistory, hfailure⟩
    obtain ⟨f, rfl⟩ := Option.isSome_iff_exists.1 hfailure
    rw [haddress] at hhistory
    exact ⟨[_], hhistory, .inl ⟨f, rfl⟩⟩

theorem reportOn_isQueryOf (a : SocketAddressV4) (w : Unit × Network) :
    Ends (j.reportOn a.printed) w fun r v => r.isOk = true ∧
      ∃ events, v.2.history = events ++ w.2.history ∧ IsQueryOf (.v4 a) events := by
  have hone : ResolvesToOne w.2.world.resolve gamePort a.text (.v4 a) :=
    resolvesToOne_of_denotes (denotes_withPort_text (.v4 a.ip) a.port)
  obtain ⟨e, he, -, hpeer⟩ := hone
  refine (visit_isQueryOf (j := j) he hpeer).outcome_bind fun r v hv => ?_
  split
  · exact ends_pure ⟨rfl, hv⟩
  · exact ends_pure ⟨rfl, hv⟩
  · exact ends_pure ⟨rfl, hv⟩

/-- The servers are asked one after another, each at its own address. -/
theorem reports_areQueriesOf (servers : List SocketAddressV4) (w : Unit × Network) :
    Ends ((servers.map SocketAddressV4.printed).mapM j.reportOn) w fun r v => r.isOk = true ∧
      ∃ queries : List (List Event), v.2.history = queries.reverse.flatten ++ w.2.history ∧
        List.Forall₂ (fun a events => IsQueryOf (.v4 a) events) servers queries := by
  induction servers generalizing w with
  | nil => exact ends_pure ⟨rfl, [], rfl, .nil⟩
  | cons a servers ih =>
    rw [List.map_cons, List.mapM_cons]
    apply (reportOn_isQueryOf a w).bind
    · rintro report v ⟨-, events, hhistory, hevents⟩
      apply (ih v).bind
      · rintro reports u ⟨-, queries, hqueries, hall⟩
        refine ends_pure ⟨rfl, events :: queries, ?_, .cons hevents hall⟩
        rw [hqueries, hhistory, List.reverse_cons, List.flatten_append, List.flatten_singleton,
          List.append_assoc]
      · exact fun _ _ hu => nomatch hu.1
    · exact fun _ _ hv => nomatch hv.1

/-- What a discovery has found, be it all servers or those there were until it gave up. -/
def HasFound (servers : List SocketAddressV4)
    (found : Except ClientError (Except ClientError (List SocketAddressV4))) : Prop :=
  found = .ok (.ok servers) ∨ ∃ attempts, found = .ok (.error (.exhausted attempts servers))

theorem HasFound.listed {servers : List SocketAddressV4}
    {found : Except ClientError (Except ClientError (List SocketAddressV4))}
    (h : HasFound servers found) : found.bind listed = .ok (listing servers.toFinset) := by
  rcases h with rfl | ⟨attempts, rfl⟩
  · rfl
  · rfl

/-- Without hosts on the command line, the servers that are listed are asked. -/
theorem perform_info_ends {servers : Finset SocketAddressV4} {w u : Unit × Network}
    (h : j.fetchServers w = .ok (listing servers) u) :
    Ends (j.perform (.info [])) w fun _ v => ∃ queries : List (List Event),
      v.2.history = queries.reverse.flatten ++ u.2.history ∧
        List.Forall₂ (fun a events => IsQueryOf (.v4 a) events) (servers.sort (· ≤ ·)) queries := by
  have hperform : Ends (do
      let hosts ← j.fetchServers
      let reports ← hosts.mapM j.reportOn
      return (.ok (.servers j.config.timeout (sortByHost (·.host) reports)) :
        Except CommandError Report)) w fun _ v => ∃ queries : List (List Event),
      v.2.history = queries.reverse.flatten ++ u.2.history ∧
        List.Forall₂ (fun a events => IsQueryOf (.v4 a) events) (servers.sort (· ≤ ·)) queries := by
    apply ends_bind_of_ok h
    apply (reports_areQueriesOf (servers.sort (· ≤ ·)) u).bind
    · exact fun reports v hv => ends_pure hv.2
    · exact fun _ _ hv => hv.2
  exact hperform

end Job

/-- What is printed of an address resolves to this address: with its own port if there is one in
the text, and with the port that stands for a missing one otherwise. Any other host without a colon
resolves to its own addresses, with the port behind it or with that port. So when the servers that a
discovery has found are listed and asked, each of them is asked at its own address. -/
theorem addresses_survive_text (names : String → Option (List HostAddress)) (default : UInt16) :
    (∀ a : SocketAddress, a.HasNoZone → ResolvesToOne names default a.text a) ∧
    (∀ ip : IpAddress, ResolvesToOne names default ip.text (ip.withPort default)) ∧
    (∀ host : List Char, ':' ∉ host → host.head? ≠ some '[' →
      (∀ port : UInt16,
        ResolvesTo names default (host ++ ':' :: Text.decimal port.toNat) host port) ∧
      ResolvesTo names default host host default) ∧
    ∀ (j : Job) (w : Unit × Network), Ends j.discover w fun found _ =>
      ∀ servers, Job.HasFound servers found → Ends j.fetchServers w fun listed u =>
        listed = .ok (listing servers.toFinset) ∧
        Ends (j.perform (.info [])) w fun _ v => ∃ queries : List (List Event),
          v.2.history = queries.reverse.flatten ++ u.2.history ∧
          List.Forall₂ (fun a events => IsQueryOf (.v4 a) events)
            (servers.toFinset.sort (· ≤ ·)) queries := by
  refine ⟨fun a ha => ?_, fun ip => resolvesToOne_of_denotes (denotes_text ip), ?_, ?_⟩
  · obtain ⟨ip, hip⟩ := ha.eq_withPort
    rw [hip]
    exact resolvesToOne_of_denotes (denotes_withPort_text ip a.port)
  · intro host hcolon hstart
    constructor
    · exact fun port => resolvesTo_of_denotes (.withPort hstart hcolon (Text.isPort_decimal port))
    · apply resolvesTo_of_denotes
      exact .bare hstart (by simp [List.count_eq_zero_of_not_mem hcolon])
  · intro j w
    refine (j.fetchServers_listed w).imp fun found _ hfetch servers hfound => ?_
    rw [hfound.listed] at hfetch
    cases hrun : j.fetchServers w with
    | ok hosts u =>
      have hhosts := hfetch.of_eq_ok hrun
      cases hhosts
      exact ends_of_ok hrun ⟨rfl, Job.perform_info_ends hrun⟩
    | error e u => exact nomatch hfetch.of_eq_error hrun

section Listed

def listedPage : List SocketAddressV4 :=
  [⟨⟨10, 0, 0, 10⟩, 27016⟩, ⟨⟨10, 0, 0, 9⟩, gamePort⟩, ⟨⟨10, 0, 0, 10⟩, 27016⟩, sentinel]

def listedJob : Job :=
  ⟨{ engine := .goldSrc }, { masters := ["192.0.2.1"] }, 9⟩

def listedStart : Unit × Network :=
  ((), { world := .ofPages (fun _ => [some listedPage]) [] })

-- Runs are evaluated by the kernel only.
attribute [local irreducible] Dialog.Ends

theorem addresses_survive_text_listed :
    ResolvesToOne mirrorNames gamePort "[2001:db8::1]:27016".toList
      (.v6 ⟨⟨#v[0x2001, 0xDB8, 0, 0, 0, 0, 0, 1]⟩, 27016, 0⟩) ∧
    (':' ∉ "mirror".toList ∧ "mirror".toList.head? ≠ some '[' ∧
      ResolvesTo mirrorNames gamePort "mirror:27016".toList "mirror".toList 27016) ∧
    ∃ found v listed u, Dialog.outcome listedJob.discover listedStart = .ok found v ∧
      Job.HasFound (listedPage.take 3) found ∧
      Dialog.outcome listedJob.fetchServers listedStart = .ok (.ok listed) u ∧
      listed = listing (listedPage.take 3).toFinset ∧
      Ends (listedJob.perform (.info [])) listedStart fun _ v => ∃ queries : List (List Event),
        v.2.history = queries.reverse.flatten ++ u.2.history ∧
        List.Forall₂ (fun a events => IsQueryOf (.v4 a) events)
          ((listedPage.take 3).toFinset.sort (· ≤ ·)) queries := by
  obtain ⟨htext, -, hhost, hjob⟩ := addresses_survive_text mirrorNames gamePort
  have hstart : ':' ∉ "mirror".toList ∧ "mirror".toList.head? ≠ some '[' := by decide
  have hone := htext (.v6 ⟨⟨#v[0x2001, 0xDB8, 0, 0, 0, 0, 0, 1]⟩, 27016, 0⟩) rfl
  have hprinted : (SocketAddress.v6 ⟨⟨#v[0x2001, 0xDB8, 0, 0, 0, 0, 0, 1]⟩, 27016, 0⟩).text =
      "[2001:db8::1]:27016".toList := by decide +kernel
  have hport : "mirror".toList ++ ':' :: Text.decimal (27016 : UInt16).toNat =
      "mirror:27016".toList := by decide +kernel
  have hmirror := (hhost "mirror".toList hstart.1 hstart.2).1 27016
  rw [hprinted] at hone
  rw [hport] at hmirror
  have hdiscover : Ends listedJob.discover listedStart fun found _ =>
      found = .ok (.ok (listedPage.take 3)) := by decide +kernel
  obtain ⟨found, v, hrun, hfound⟩ := hdiscover.exists_outcome
  have hall := (hjob listedJob listedStart).of_outcome hrun (listedPage.take 3) (.inl hfound)
  obtain ⟨listed, u, hfetch, hlisted, hqueries⟩ := hall.exists_outcome
  rw [hlisted] at hfetch
  exact ⟨hone, ⟨hstart.1, hstart.2, hmirror⟩, found, v, _, u, hrun, .inl hfound, hfetch, rfl, hqueries⟩

end Listed

end GameQuery
