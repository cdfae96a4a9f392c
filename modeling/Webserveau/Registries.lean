import Webserveau.Arenas
import Webserveau.Clients

/-!
Hosts, listen servers and clients as objects that refer to each other.
A host is registered on a server for each of its ports, under each of its names. What
goes through a pointer to an object that is gone, or an iterator that is no longer valid,
has no defined outcome and is a fault here. Sockets are known through whether the calls
that open and accept them succeed.
-/
namespace Webserveau.Registries

open ByteStrings OrderedMaps Formats Requests Arenas

inductive Fault
  | dangling
  | endIterator
  | invalidated
  | outOfRange
  deriving DecidableEq

abbrev Ran (α : Type) := Except Fault α

def deref {α : Type} (object : Option α) : Ran α :=
  match object with
  | none => .error .dangling
  | some v => .ok v

/-- A host as its block of the configuration gives it; the ports are a set. -/
structure HostConfig where
  host : Host
  addr : Bytes
  ports : List Bytes
  ports_sorted : ports.Pairwise fun p q => byteLess p q = true

/-- A host of the host list, with its clients and the servers it is registered on. -/
structure HostNode extends HostConfig where
  clients : List Address := []
  listenServers : List Address := []

namespace HostNode

def server_names (h : HostNode) : List Bytes := h.host.server_names

def addListenServer (h : HostNode) (server : Address) : HostNode :=
  { h with listenServers := h.listenServers.insert server }

def removeListenServer (h : HostNode) (server : Address) : HostNode :=
  { h with listenServers := h.listenServers.filter (· ≠ server) }

def addClient (h : HostNode) (client : Address) : HostNode :=
  { h with clients := h.clients ++ [client] }

def removeClient (h : HostNode) (client : Address) : HostNode :=
  { h with clients := h.clients.filter (· ≠ client) }

end HostNode

/-- A listen server: the hosts of its names, and its clients. -/
structure ServerNode where
  ip : Bytes
  port : Bytes
  hostMap : OrderedMap Bytes Address byteLess := OrderedMap.empty
  nbrHost : ℤ := 0
  orphanClients : List Address := []
  connectedClients : List Address := []

namespace ServerNode

/-- The names of a host are added where they are not present. -/
def assignHost (s : ServerNode) (host : Address) (names : List Bytes) : ServerNode :=
  { s with
    hostMap := names.foldl (fun map name =>
      if (map.find? name).isNone then map.insert name host else map) s.hostMap
    nbrHost := s.nbrHost + 1 }

/-- The names of a host are erased, and its clients are no longer counted as connected. -/
def unassignHost (s : ServerNode) (clients : List Address) (names : List Bytes) : ServerNode :=
  { s with
    hostMap := names.foldl OrderedMap.erase s.hostMap
    nbrHost := s.nbrHost - 1
    connectedClients := s.connectedClients.filter (· ∉ clients) }

def addClient (s : ServerNode) (client : Address) : ServerNode :=
  { s with
    connectedClients := s.connectedClients ++ [client]
    orphanClients := s.orphanClients ++ [client] }

def adopt (s : ServerNode) (client : Address) : ServerNode :=
  { s with orphanClients := s.orphanClients.filter (· ≠ client) }

def removeClient (s : ServerNode) (client : Address) : ServerNode :=
  { s with
    orphanClients := s.orphanClients.filter (· ≠ client)
    connectedClients := s.connectedClients.filter (· ≠ client) }

end ServerNode

/-- The entries at which an iterator stops that passes over the values it has seen. -/
def uniqueValues (seen : List Address) : List (Bytes × Address) → List (Bytes × Address)
  | [] => []
  | e :: es => if e.2 ∈ seen then uniqueValues seen es else e :: uniqueValues (e.2 :: seen) es

/-- A client refers to the server that accepted it, and to its host once it has one. -/
structure ClientNode where
  server : Address
  host : Option Address := none

/-- The server list, the host list and the client list. -/
structure Registry where
  servers : Arena ServerNode
  hosts : Arena HostNode
  clients : Arena ClientNode

inductive ConfigError
  | missingToken (token : String)
  | duplicateServerName
  deriving DecidableEq

namespace Registry

def empty : Registry := ⟨Arena.empty, Arena.empty, Arena.empty⟩

def findServer (r : Registry) (ip port : Bytes) : Option Address :=
  r.servers.search fun s => s.ip = ip ∧ s.port = port

/-- Whether none of the names is known to a server of the address and the ports. -/
def checkServerNames (r : Registry) (addr : Bytes) (ports names : List Bytes) : Bool :=
  ports.all fun port =>
    ((r.findServer addr port).bind r.servers.get?).all fun s =>
      names.all fun name => (s.hostMap.find? name).isNone

/-- The error pages of a host that gives none are the default ones. -/
def withErrorPages (default_error_pages : Bytes) (config : HostConfig) : HostConfig :=
  if config.host.dir_errors = [] then
    { config with host := { config.host with dir_errors := default_error_pages } }
  else config

/-- The host with its defaults, unless something is missing or a name is taken. -/
def checkHost (default_error_pages : Bytes) (r : Registry) (config : HostConfig) :
    Except ConfigError HostConfig :=
  if config.addr = [] then .error (.missingToken "host address")
  else if config.ports = [] then .error (.missingToken "listen")
  else
    let config := withErrorPages default_error_pages config
    if config.host.server_names = [] then .error (.missingToken "server_name")
    else if (config.host.locationMap.find? (ascii "*")).isNone then
      .error (.missingToken "host default location `*`")
    else if r.checkServerNames config.addr config.ports config.host.server_names = false then
      .error .duplicateServerName
    else .ok config

/-- A host and a server refer to each other from here on. -/
def link (r : Registry) (server host : Address) (names : List Bytes) : Registry :=
  { r with
    servers := r.servers.update server fun s => s.assignHost host names
    hosts := r.hosts.update host fun h => h.addListenServer server }

/-- A server without hosts at the end of the server list. -/
def allocServer (r : Registry) (ip port : Bytes) : Registry :=
  { r with servers := r.servers.alloc { ip := ip, port := port } }

/-- `registerHost` for one port; `opens` tells whether a socket could be bound to it. -/
def registerPort (r : Registry) (host : Address) (config : HostConfig) (port : Bytes)
    (opens : Bool) : ℤ × Registry :=
  match r.findServer config.addr port with
  | some server => (0, r.link server host config.host.server_names)
  | none =>
    if opens then
      (0, (r.allocServer config.addr port).link r.servers.next host config.host.server_names)
    else (1, r)

/-- `registerHost` for all ports; 1 when at least one server could not be opened. -/
def registerHost (r : Registry) (host : Address) (config : HostConfig) (opens : Bytes → Bool) :
    ℤ × Registry :=
  config.ports.foldl (fun out port =>
    let (res, r) := out.2.registerPort host config port (opens port)
    (if res ≠ 0 then 1 else out.1, r)) (0, r)

def addHost (r : Registry) (config : HostConfig) (opens : Bytes → Bool) : ℤ × Registry :=
  ({ r with hosts := r.hosts.alloc { config with } } : Registry).registerHost r.hosts.next config
    opens

/-- The clients of the host found under the first name are dropped, then all names. -/
def unassignHost (r : Registry) (server host : Address) : Ran Registry := do
  let s ← deref (r.servers.get? server)
  let h ← deref (r.hosts.get? host)
  match h.server_names with
  | [] => .error .outOfRange
  | first :: _ =>
    match s.hostMap.find? first with
    | none => return r
    | some mapped =>
      let m ← deref (r.hosts.get? mapped)
      return { r with
        servers := r.servers.update server fun s => s.unassignHost m.clients h.server_names
        hosts := r.hosts.update host fun h => h.removeListenServer server }

/-- The host of an entry is unassigned, as long as an iterator can stand at the entry. -/
def unassignEntry (server : Address) (r : Registry) (e : Bytes × Address) : Ran Registry := do
  let s ← deref (r.servers.get? server)
  if s.hostMap.find? e.1 = some e.2 then r.unassignHost server e.2
  else .error .invalidated

/-- The client leaves its host, when it has one. -/
def leaveHost (r : Registry) (client : Address) (host : Option Address) : Ran Registry := do
  match host with
  | none => return r
  | some host =>
    let _ ← deref (r.hosts.get? host)
    return { r with hosts := r.hosts.update host fun h => h.removeClient client }

/-- `Client::terminate`. -/
def terminate (r : Registry) (client : Address) : Ran Registry := do
  let c ← deref (r.clients.get? client)
  let r ← r.leaveHost client c.host
  let _ ← deref (r.servers.get? c.server)
  return { r with
    servers := r.servers.update c.server fun s => s.removeClient client
    clients := r.clients.free client }

/-- The iterator has passed a client before it is terminated. -/
def terminateAll (r : Registry) (clients : List Address) : Ran Registry :=
  clients.foldlM terminate r

def removeServer (r : Registry) (server : Address) : Ran Registry := do
  let s ← deref (r.servers.get? server)
  let r ← r.terminateAll s.orphanClients
  let s ← deref (r.servers.get? server)
  let r ← r.terminateAll s.connectedClients
  let s ← deref (r.servers.get? server)
  let r ← (uniqueValues [] s.hostMap.entries).foldlM (unassignEntry server) r
  return { r with servers := r.servers.free server }

/-- `Host::removeHost`; the loop of `shutdown` advances an iterator after the client it
stands at has been taken off the list. -/
def shutdownHost (r : Registry) (host : Address) : Ran Registry := do
  let h ← deref (r.hosts.get? host)
  if h.clients ≠ [] then .error .invalidated
  else return { r with hosts := r.hosts.free host }

/-- A server without hosts is removed. -/
def removeEmpty (r : Registry) (server : Address) : Ran Registry := do
  let s ← deref (r.servers.get? server)
  if s.hostMap.entries = [] then r.removeServer server else return r

/-- `unregisterHost` at a server; a host without servers is removed. -/
def unregisterAt (r : Registry) (host server : Address) : Ran Registry := do
  let r ← r.unassignHost server host
  let r ← r.removeEmpty server
  let h ← deref (r.hosts.get? host)
  if h.listenServers = [] then r.shutdownHost host else return r

def unregisterHost (r : Registry) (host : Address) (port : Bytes) : Ran Registry := do
  let h ← deref (r.hosts.get? host)
  match r.findServer h.addr port with
  | none => return r
  | some server => r.unregisterAt host server

/-- `ListenServer::removeHost`; 1 when the name is not known. -/
def removeHost (r : Registry) (server : Address) (name : Bytes) : Ran (ℤ × Registry) := do
  let s ← deref (r.servers.get? server)
  match s.hostMap.find? name with
  | none => return (1, r)
  | some host => return (0, ← r.unregisterHost host s.port)

def removeServers (r : Registry) : Ran Registry :=
  (r.servers.objects.map Prod.fst).foldlM removeServer r

/-- A connection is refused when there are too many clients or `accept` fails. -/
def acceptConnection (r : Registry) (server : Address) (accepts : Bool) : Ran Registry := do
  let s ← deref (r.servers.get? server)
  if toInt s.connectedClients.length ≥ INT32_MAX ∨ accepts = false then return r
  else return { r with
    servers := r.servers.update server fun s => s.addClient r.clients.next
    clients := r.clients.alloc { server := server } }

/-- The host of a name, or the one of the first name. -/
def bindTarget (s : ServerNode) (name : Bytes) : Ran Address :=
  match s.hostMap.find? name with
  | some host => .ok host
  | none =>
    match s.hostMap.entries with
    | [] => .error .endIterator
    | entry :: _ => .ok entry.2

def bindClient (r : Registry) (client server : Address) (name : Bytes) : Ran Registry := do
  let s ← deref (r.servers.get? server)
  let host ← bindTarget s name
  let _ ← deref (r.hosts.get? host)
  return { r with
    servers := r.servers.update server fun s => s.adopt client
    hosts := r.hosts.update host fun h => h.addClient client
    clients := r.clients.update client fun c => { c with host := some host } }

/-- `Client::setHost`; a client stays with a host that has the name. -/
def setHost (r : Registry) (client : Address) (name : Bytes) : Ran Registry := do
  let c ← deref (r.clients.get? client)
  let known ← match c.host with
    | none => pure false
    | some host => do
      let h ← deref (r.hosts.get? host)
      pure (h.host.checkServerName name)
  if known then return r
  else
    let r ← r.leaveHost client c.host
    r.bindClient client c.server name

end Registry

/-- What can happen to the registry; servers are named by address and port. -/
inductive Command
  | addHost (config : HostConfig) (opens : Bytes → Bool)
  | removeHost (ip port name : Bytes)
  | removeServer (ip port : Bytes)
  | removeServers
  | accept (ip port : Bytes) (accepts : Bool)
  | setHost (client : Address) (name : Bytes)
  | terminate (client : Address)

/-- A host is added when it passes the checks; clients and servers that are gone get no
more commands. -/
def step (default_error_pages : Bytes) (r : Registry) : Command → Ran Registry
  | .addHost config opens =>
    match r.checkHost default_error_pages config with
    | .error _ => .ok r
    | .ok config => .ok (r.addHost config opens).2
  | .removeHost ip port name =>
    match r.findServer ip port with
    | none => .ok r
    | some server => do
      let (_, r) ← r.removeHost server name
      return r
  | .removeServer ip port =>
    match r.findServer ip port with
    | none => .ok r
    | some server => r.removeServer server
  | .removeServers => r.removeServers
  | .accept ip port accepts =>
    match r.findServer ip port with
    | none => .ok r
    | some server => r.acceptConnection server accepts
  | .setHost client name =>
    match r.clients.get? client with
    | none => .ok r
    | some _ => r.setHost client name
  | .terminate client =>
    match r.clients.get? client with
    | none => .ok r
    | some _ => r.terminate client

end Webserveau.Registries
