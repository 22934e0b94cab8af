import Hnatsd.Misc.Assoc
import Hnatsd.Misc.Threads
import Hnatsd.Server.ClientArgs

/-!
# The connections of a server

How connections of all kinds are created, registered and removed, and how the server's clients hear
of new URLs. The goroutines are threads that take turns at the granularity of the lock regions of
`s.mu`, `c.mu` and `s.grMu`. A read loop processes the commands of its connection one after the
other; any goroutine may close any connection at any time. What the peers send, what the decoder
makes of a CONNECT, what `checkAuth` says and the order in which Go goes through a map is up to the
run. The server is running throughout, and writes to an open connection succeed.
-/

namespace Hnatsd.Server
open Misc

/-- What a client is sent, as far as INFO is concerned. An INFO is given by its
`ClientConnectURLs`. -/
inductive ClientLine where
  | info (urls : List Bytes)
  | pong
  deriving DecidableEq

/-- The read loop of a connection: its goroutine is not started yet, is started, runs as a thread,
or has returned. -/
inductive ReadLoop where
  | unstarted
  | started
  | reading (t : Nat)
  | returned
  deriving DecidableEq

/-- The fields of `clientOpts` that the server goes by (`client.go:168-179`). -/
structure ConnectOpts where
  protocol : Int := 0
  name : Bytes := []
  lang : Bytes := []
  deriving DecidableEq

/-- The options ask for INFO updates (`ClientProtoInfo`, `client.go:29-37`). -/
def ConnectOpts.wantsInfo (opts : ConnectOpts) : Prop := 1 ≤ opts.protocol

instance (opts : ConnectOpts) : Decidable opts.wantsInfo := inferInstanceAs (Decidable (1 ≤ _))

/-- A connection (`client.go:87-121`): `c.nc` is not nil, the flags, the route object, and what has
been sent. -/
structure Connection where
  typ : ClientKind := .client
  nc : Bool := false
  opts : ConnectOpts := {}
  connectReceived : Bool := false
  firstPongSent : Bool := false
  infoUpdated : Bool := false
  route : Option Nat := none
  readLoop : ReadLoop := .unstarted
  out : List ClientLine := []

/-- The part of `route` (`route.go:30-40`) that the registry goes by: connections may share it.
`url` says that the URL is known. -/
structure RouteObject where
  remoteID : Bytes := []
  didSolicit : Bool := false
  url : Bool := false

/-- The server (`server.go:44-90`). `s.clients`, `s.routes` and `s.grTmpClients` are given by their
keys. -/
structure Registry where
  gcid : Nat := 0
  conn : Nat → Connection := fun _ => {}
  route : Nat → RouteObject := fun _ => {}
  /-- `s.info.ClientConnectURLs` -/
  urls : List Bytes := []
  cproto : Int := 0
  clients : List Nat := []
  grTmpClients : List Nat := []
  routes : List Nat := []
  remotes : List (Bytes × Nat) := []

/-- The options of the server, and `s.info.ID`. -/
structure RegistryConfig where
  id : Bytes
  maxConn : Int
  noAdvertise : Bool

/-- What a thread still has to do. -/
inductive RegistryTask where
  /-- `createClient` behind its first region -/
  | greet (internal : Bool) (info : List Bytes)
  /-- `createClient` at "Register with the server" -/
  | register (cid : Nat)
  /-- `createClient` behind the registration -/
  | startReadLoop (cid : Nat)
  /-- `createRoute` behind the TLS handshake -/
  | handshaken (cid : Nat)
  /-- `processConnect` at `srv.cproto++` -/
  | countProto
  /-- `processConnect` at "Grab connection name of remote route" -/
  | setRemoteID (cid : Nat)
  /-- `processPing` at `proto := srv.infoJSON` -/
  | fetchInfo (cid : Nat)
  /-- `processPing` at `c.sendInfo(proto)` -/
  | sendInfo (cid : Nat) (info : List Bytes)
  | updateServerINFO (urls : List Bytes)
  | sendAsyncInfoToClients
  /-- the loop of `sendAsyncInfoToClients` for one client -/
  | asyncInfo (cid : Nat) (info : List Bytes)
  | addRoute (cid : Nat) (urls : List Bytes)
  /-- `addRoute` with the server's lock -/
  | registerRoute (cid : Nat) (id : Bytes) (urls : List Bytes)
  /-- `addRoute` at "upgrade to solicited?" -/
  | upgrade (remote cid : Nat)
  | closeConnection (cid : Nat)
  | removeClient (cid : Nat)
  /-- `removeClient` with the server's lock -/
  | unregister (cid : Nat) (updateProtoInfoCount : Bool) (rID : Option Bytes)
  deriving DecidableEq

/-- What a goroutine can set out to do. -/
inductive RegistryOp where
  | createClient (internal : Bool)
  | createRoute (didSolicit tls : Bool)
  | readLoop (cid : Nat)
  /-- CONNECT: what `c.opts` holds behind `json.Unmarshal`, whether that succeeded, and what
  `checkAuth` says -/
  | connect (cid : Nat) (opts : ConnectOpts) (decoded authorized : Bool)
  | ping (cid : Nat)
  /-- INFO: its ID, whether `url.Parse` accepts its address, and its `ClientConnectURLs` -/
  | info (cid : Nat) (id : Bytes) (parses : Bool) (urls : List Bytes)
  | close (cid : Nat)

namespace Registry

def setConn (r : Registry) (cid : Nat) (c : Connection) : Registry :=
  { r with conn := Function.update r.conn cid c }

/-- `c.route.remoteID`. -/
def remoteID (r : Registry) (cid : Nat) : Option Bytes :=
  (r.conn cid).route.map fun i => (r.route i).remoteID

/-- Writes to `c.route`. -/
def setRoute (r : Registry) (cid : Nat) (f : RouteObject → RouteObject) : Registry :=
  match (r.conn cid).route with
  | none => r
  | some i => { r with route := Function.update r.route i (f (r.route i)) }

/-- `createClient` with the client's lock (`server.go:600-616`). -/
def greet (r : Registry) (internal : Bool) (info : List Bytes) : Registry × List RegistryTask :=
  let cid := r.gcid + 1
  let c : Connection :=
    { typ := if internal then .internalCli else .client, nc := true, out := [.info info] }
  ({ r.setConn cid c with gcid := cid }, [.register cid])

/-- `createClient` at its registration (`server.go:618-636`). -/
def register (cfg : RegistryConfig) (r : Registry) (cid : Nat) : Registry × List RegistryTask :=
  if 0 < cfg.maxConn ∧ cfg.maxConn ≤ r.clients.length then (r, [.closeConnection cid])
  else ({ r with clients := r.clients.insert cid }, [.startReadLoop cid])

/-- `createClient` behind its registration (`server.go:638-689`). -/
def startReadLoop (r : Registry) (cid : Nat) : Registry :=
  let c := r.conn cid
  if c.nc then r.setConn cid { c with readLoop := .started } else r

/-- `createRoute` with the client's lock, up to the TLS handshake if there is one
(`route.go:309-366`), and behind it (`route.go:367-404`). -/
def createRoute (r : Registry) (didSolicit tls : Bool) : Registry × List RegistryTask :=
  let cid := r.gcid + 1
  let c : Connection := { typ := .router, nc := true, route := some cid }
  let r := { r with
    gcid := cid
    route := Function.update r.route cid { didSolicit := didSolicit, url := didSolicit } }
  if tls then (r.setConn cid c, [.handshaken cid])
  else
    ({ r.setConn cid { c with readLoop := .started } with
        grTmpClients := r.grTmpClients.insert cid }, [])

/-- `createRoute` behind the TLS handshake (`route.go:367-404`). -/
def handshaken (r : Registry) (cid : Nat) : Registry :=
  let c := r.conn cid
  if c.nc then
    { r.setConn cid { c with readLoop := .started } with
      grTmpClients := r.grTmpClients.insert cid }
  else r

/-- The start of `readLoop` (`client.go:258-270`). -/
def readLoop (r : Registry) (t cid : Nat) : Registry :=
  let c := r.conn cid
  r.setConn cid { c with readLoop := if c.nc then .reading t else .returned }

/-- What `processConnect` does behind its first region (`client.go:459-495`): whether it returns an
error, and its tasks. -/
def connected (c : Connection) (cid : Nat) (authorized : Bool) : Bool × List RegistryTask :=
  let count := if c.opts.wantsInfo then [.countProto] else []
  if c.typ ≠ .internalCli ∧ authorized = false then (true, count ++ [.closeConnection cid])
  else if c.typ = .client ∧ (c.opts.protocol < 0 ∨ 1 < c.opts.protocol) then
    (true, count ++ [.closeConnection cid])
  else if c.typ = .router ∧ c.opts.lang ≠ [] then (true, count ++ [.closeConnection cid])
  else (false, count ++ if c.typ = .router ∧ c.route ≠ none then [.setRemoteID cid] else [])

/-- `processConnect` (`client.go:419-457`), the auth timer apart. An error ends the read loop, which
closes the connection if `processConnect` has not. -/
def processConnect (r : Registry) (cid : Nat) (opts : ConnectOpts) (decoded authorized : Bool) :
    Registry × List RegistryTask :=
  let c := { r.conn cid with opts := opts }
  if decoded then
    let c := { c with connectReceived := true }
    match connected c cid authorized with
    | (true, tasks) => (r.setConn cid { c with readLoop := .returned }, tasks)
    | (false, tasks) => (r.setConn cid c, tasks)
  else (r.setConn cid { c with readLoop := .returned }, [.closeConnection cid])

/-- `processPing` (`client.go:574-600`). -/
def processPing (r : Registry) (cid : Nat) : Registry × List RegistryTask :=
  let c := r.conn cid
  if c.nc = false then (r, [])
  else
    let c := { c with out := c.out ++ [.pong] }
    if c.firstPongSent then (r.setConn cid c, [])
    else
      (r.setConn cid { c with firstPongSent := true, infoUpdated := false },
        if c.opts.wantsInfo ∧ c.infoUpdated then [.fetchInfo cid] else [])

/-- `sendInfo` (`client.go:553-555`). -/
def sendInfo (r : Registry) (cid : Nat) (info : List Bytes) : Registry :=
  let c := r.conn cid
  if c.nc then r.setConn cid { c with out := c.out ++ [.info info] } else r

/-- The loop of `updateServerINFO`. -/
def addURLs (known : List Bytes) : List Bytes → List Bytes
  | [] => known
  | url :: rest => addURLs (if url ∈ known then known else known ++ [url]) rest

/-- `updateServerINFO` (`server.go:705-728`) with what its caller does (`route.go:160-162`). -/
def updateServerINFO (cfg : RegistryConfig) (r : Registry) (urls : List Bytes) :
    Registry × List RegistryTask :=
  if cfg.noAdvertise then (r, [])
  else if ∀ url ∈ urls, url ∈ r.urls then (r, [])
  else ({ r with urls := addURLs r.urls urls }, [.sendAsyncInfoToClients])

/-- The loop of `sendAsyncInfoToClients` for one client (`route.go:195-212`). -/
def asyncInfo (r : Registry) (cid : Nat) (info : List Bytes) : Registry :=
  let c := r.conn cid
  if c.connectReceived = false then r.setConn cid { c with infoUpdated := true }
  else if c.opts.wantsInfo then
    if c.firstPongSent then r.sendInfo cid info
    else r.setConn cid { c with infoUpdated := true }
  else r

/-- `processRouteInfo` (`route.go:83-138`). An INFO about another server leads to a new connection at
most. -/
def processRouteInfo (cfg : RegistryConfig) (r : Registry) (cid : Nat) (id : Bytes) (parses : Bool)
    (urls : List Bytes) : Registry × List RegistryTask :=
  let c := r.conn cid
  match c.route with
  | none => (r, [])
  | some i =>
      if c.nc = false then (r, [])
      else if (r.route i).remoteID ≠ [] ∧ (r.route i).remoteID ≠ id then (r, [])
      else
        let r := r.setRoute cid fun o => { o with remoteID := id }
        if id = cfg.id then (r, [.closeConnection cid])
        else if (r.route i).url = false ∧ parses = false then (r, [.closeConnection cid])
        else (r.setRoute cid fun o => { o with url := true }, [.addRoute cid urls])

/-- `addRoute` with the server's lock (`route.go:498-528`), with what its caller does. -/
def registerRoute (r : Registry) (cid : Nat) (id : Bytes) (urls : List Bytes) :
    Registry × List RegistryTask :=
  match r.remotes.lookup id with
  | none =>
      ({ r with
          grTmpClients := r.grTmpClients.erase cid
          routes := r.routes.insert cid
          remotes := assocSet r.remotes id cid }, [.updateServerINFO urls])
  | some remote => (r, [.upgrade remote cid, .closeConnection cid])

/-- `addRoute` at "upgrade to solicited?" (`route.go:530-539`). Both connections have a route
object: the source would fail on a nil one. -/
def upgrade (r : Registry) (remote cid : Nat) : Registry :=
  match (r.conn cid).route, (r.conn remote).route with
  | some i, some _ =>
      if (r.route i).didSolicit then r.setConn remote { r.conn remote with route := some i } else r
  | _, _ => r

/-- The first region of `closeConnection` (`client.go:1297-1329`). -/
def closeConnection (r : Registry) (cid : Nat) : Registry × List RegistryTask :=
  let c := r.conn cid
  if c.nc then (r.setConn cid { c with nc := false }, [.removeClient cid]) else (r, [])

/-- The first region of `removeClient` (`server.go:826-839`). -/
def removeClient (r : Registry) (cid : Nat) : List RegistryTask :=
  let c := r.conn cid
  [.unregister cid (c.typ = .client ∧ c.opts.wantsInfo) (r.remoteID cid)]

/-- The second region of `removeClient` (`server.go:841-859`). -/
def unregister (r : Registry) (cid : Nat) (updateProtoInfoCount : Bool) (rID : Option Bytes) :
    Registry :=
  match (r.conn cid).typ with
  | .client =>
      { r with
        clients := r.clients.erase cid
        cproto := if updateProtoInfoCount then r.cproto - 1 else r.cproto }
  | .router =>
      let r := { r with routes := r.routes.erase cid }
      match rID with
      | none => r
      | some id =>
          if r.remotes.lookup id = some cid then { r with remotes := assocErase r.remotes id } else r
  | .internalCli => r

/-- The first region of an operation. -/
def start (cfg : RegistryConfig) (r : Registry) (t : Nat) :
    RegistryOp → Option (Registry × List RegistryTask)
  | .createClient internal => some (r, [.greet internal r.urls])
  | .createRoute didSolicit tls => some (r.createRoute didSolicit tls)
  | .readLoop cid =>
      if (r.conn cid).readLoop = .started then some (r.readLoop t cid, []) else none
  | .connect cid opts decoded authorized =>
      if (r.conn cid).readLoop = .reading t then some (r.processConnect cid opts decoded authorized)
      else none
  | .ping cid => if (r.conn cid).readLoop = .reading t then some (r.processPing cid) else none
  | .info cid id parses urls =>
      if (r.conn cid).readLoop = .reading t ∧ (r.conn cid).typ = .router then
        some (r.processRouteInfo cfg cid id parses urls)
      else none
  | .close cid => some (r, [.closeConnection cid])

/-- A task. `order` is the order in which Go goes through `s.clients`. -/
def run (cfg : RegistryConfig) (r : Registry) (order : List Nat) :
    RegistryTask → Option (Registry × List RegistryTask)
  | .greet internal info => some (r.greet internal info)
  | .register cid => some (r.register cfg cid)
  | .startReadLoop cid => some (r.startReadLoop cid, [])
  | .handshaken cid => some (r.handshaken cid, [])
  | .countProto => some ({ r with cproto := r.cproto + 1 }, [])
  | .setRemoteID cid =>
      some (r.setRoute cid fun o => { o with remoteID := (r.conn cid).opts.name }, [])
  | .fetchInfo cid => some (r, [.sendInfo cid r.urls])
  | .sendInfo cid info => some (r.sendInfo cid info, [])
  | .updateServerINFO urls => some (r.updateServerINFO cfg urls)
  | .sendAsyncInfoToClients =>
      -- `route.go:171-192`: the clients are copied with the lock held
      if r.cproto = 0 then some (r, [])
      else if order.Perm r.clients then some (r, order.map fun cid => .asyncInfo cid r.urls)
      else none
  | .asyncInfo cid info => some (r.asyncInfo cid info, [])
  | .addRoute cid urls => some (r, [.registerRoute cid ((r.remoteID cid).getD []) urls])
  | .registerRoute cid id urls => some (r.registerRoute cid id urls)
  | .upgrade remote cid => some (r.upgrade remote cid, [])
  | .closeConnection cid => some (r.closeConnection cid)
  | .removeClient cid => some (r, r.removeClient cid)
  | .unregister cid updateProtoInfoCount rID => some (r.unregister cid updateProtoInfoCount rID, [])

/-- The server's goroutines. -/
def program (cfg : RegistryConfig) :
    ThreadProgram Registry RegistryTask RegistryOp (List Nat) where
  start := start cfg
  run := run cfg

end Registry

/-- The server and its goroutines. -/
abbrev RegistryState := Threaded Registry RegistryTask

abbrev RegistryAction := ThreadAction RegistryOp (List Nat)

/-- One step of one goroutine. -/
def RegistryState.step (cfg : RegistryConfig) (s : RegistryState) (a : RegistryAction) :
    Option RegistryState :=
  Threaded.step (Registry.program cfg) s a

/-- A server with no connections. -/
def RegistryState.initial (urls : List Bytes) : RegistryState := ⟨{ urls := urls }, []⟩

end Hnatsd.Server
