import GameQuery.ClientError
import GameQuery.Net.AddressText
import GameQuery.Text.Blank

namespace GameQuery

/-!
# Endpoints

A host is written as a name or an IP address, with or without a port. An endpoint holds all
addresses of some hosts, exactly one of which is active.
-/

/-- The port of game servers. -/
def gamePort : UInt16 := 27015

/-- The port of master servers. -/
def masterPort : UInt16 := 27011

/-- A host and a port that stands after a colon. -/
def withPortText (host port : List Char) : Option (List Char × UInt16) :=
  (Text.readUInt16 port).map fun port => (host, port)

/-- The host and the port in an address. An IPv6 address with a port stands in brackets; what has
more than one colon is an IPv6 address without a port. -/
def splitHost (address : List Char) (defaultPort : UInt16) : Option (List Char × UInt16) :=
  match address with
  | '[' :: rest =>
    match Text.splitOnce ']' rest with
    | none => none
    | some (host, []) => some (host, defaultPort)
    | some (host, ':' :: port) => withPortText host port
    | some _ => none
  | _ =>
    match Text.splitOnce ':' address with
    | some (host, port) =>
      if ':' ∈ port then some (address, defaultPort) else withPortText host port
    | none => some (address, defaultPort)

/-- The addresses of a host: an IP address stands for itself, and no name has a NUL in it. -/
def lookUp (resolve : String → Option (List HostAddress)) (host : List Char) : List HostAddress :=
  match IpAddress.parse? host with
  | some ip => [ip.unzoned]
  | none => if '\x00' ∈ host then [] else (resolve (String.ofList host)).getD []

/-- Addresses of a host, one of which is active. -/
structure Endpoint where
  host : String
  addresses : List SocketAddress
  active : Nat
  active_lt : active < addresses.length

namespace Endpoint

/-- An endpoint with given addresses, the first of which is active. -/
def ofAddresses (host : String) (addresses : List SocketAddress) : Except ClientError Endpoint :=
  if h : 0 < addresses.length then .ok ⟨host, addresses, 0, h⟩ else .error (.noAddress host)

/-- The hosts and ports in a list of addresses, or the first address that has none. -/
def splitHosts (defaultPort : UInt16) :
    List String → Except ClientError (List (List Char × UInt16))
  | [] => .ok []
  | address :: rest =>
    match splitHost address.toList defaultPort with
    | none => .error (.noAddress address)
    | some host => (splitHosts defaultPort rest).map (host :: ·)

/-- All addresses of some hosts, each address once. -/
def addressesOf (resolve : String → Option (List HostAddress)) (hosts : List (List Char × UInt16)) :
    List SocketAddress :=
  (hosts.flatMap fun (host, port) => (lookUp resolve host).map (·.withPort port)).eraseDups

/-- The endpoint of a list of hosts. -/
def resolveAll (resolve : String → Option (List HostAddress)) (hosts : List String)
    (defaultPort : UInt16) : Except ClientError Endpoint :=
  match splitHosts defaultPort hosts with
  | .error e => .error e
  | .ok split => ofAddresses (String.intercalate "," hosts) (addressesOf resolve split)

/-- The endpoint of a host. -/
def resolve (names : String → Option (List HostAddress)) (host : String) (defaultPort : UInt16) :
    Except ClientError Endpoint :=
  resolveAll names [host] defaultPort

/-- The active address. -/
def address (e : Endpoint) : SocketAddress := e.addresses.get ⟨e.active, e.active_lt⟩

/-- Makes the next address active; the first comes after the last. -/
def next (e : Endpoint) : Endpoint where
  host := e.host
  addresses := e.addresses
  active := (e.active + 1) % e.addresses.length
  active_lt := Nat.mod_lt _ (Nat.zero_lt_of_lt e.active_lt)

/-- Whether the first address is active. -/
def atFirst (e : Endpoint) : Bool := e.active = 0

instance : ToString Endpoint := ⟨fun e => e.host ++ " (" ++ toString e.address ++ ")"⟩

theorem getElem?_active (e : Endpoint) : e.addresses[e.active]? = some e.address :=
  List.getElem?_eq_getElem e.active_lt

theorem address_mem (e : Endpoint) : e.address ∈ e.addresses :=
  List.mem_of_getElem? e.getElem?_active

@[simp] theorem addresses_next (e : Endpoint) : e.next.addresses = e.addresses := rfl

@[simp] theorem host_next (e : Endpoint) : e.next.host = e.host := rfl

@[simp] theorem active_next (e : Endpoint) :
    e.next.active = (e.active + 1) % e.addresses.length := rfl

end Endpoint

end GameQuery
