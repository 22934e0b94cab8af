import Hnatsd.Misc.Int64
import Hnatsd.Misc.Runs
import Hnatsd.Server.ClientArgs
import Hnatsd.Server.RouteLines

/-!
# Subscriptions, deliveries and the interest sent to a route

A server with its clients' subscription tables and its sublist, and one route to another server.
Read loops, publishers and goroutines that close connections are threads that take turns at the
granularity of the code's lock regions: what a thread still has to do after a region is its list of
tasks. The commands of a client are processed by its read loop, one after the other; a delivery may
use any subscription that a lookup has ever returned.

The registration of the route takes the server's lock while it goes through the clients, so the
tasks that need this lock wait. The lines written to the route are read by the other server in
order. What a client sends, what its permissions say and how a write ends is up to the run.
-/

namespace Hnatsd.Server
open Misc Function

/-- A client as its subscriptions see it (`client.go:87-121`), with the thread of its read loop. -/
structure Subscriber where
  typ : ClientKind
  nc : Bool
  subs : List (Bytes × Subscription)
  reader : Nat

/-- What a thread still has to do. -/
inductive Task where
  /-- `unsubscribe` -/
  | unsubscribe (sub : Subscription)
  /-- `broadcastSubscribe` before `numRoutes` -/
  | broadcastSubscribe (sub : Subscription)
  /-- `broadcastUnSubscribe` before `numRoutes` -/
  | broadcastUnSubscribe (sub : Subscription)
  /-- `broadcastUnSubscribe` before it makes up `maxStr` -/
  | makeUnsub (sub : Subscription)
  /-- `broadcastInterestToRoutes` -/
  | broadcastInterestToRoutes (line : RouteLine)
  /-- `closeConnection` -/
  | closeConnection (cid : Nat)
  /-- `removeClient` -/
  | removeClient (cid : Nat)
  /-- `sl.Remove` in `closeConnection` -/
  | remove (sub : Subscription)
  deriving DecidableEq

/-- The route: not in `s.routes`, added to it, its first lines being collected with the server's
lock held, collected, and written. -/
inductive RouteAt where
  | absent
  | added
  | collecting (left : List Nat) (buf : List RouteLine)
  | collected (buf : List RouteLine)
  | ready
  deriving DecidableEq

/-- The server. The counters `nm` and `max` of a subscription are kept by its address. Recorded
besides: `live`, the subscriptions that are in the sublist; `known`, those that have ever been;
`attempts` and `written`, the deliveries attempted and made; and `limits`, each time an UNSUB found
a subscription, the `max` it set and the number of messages written by then. -/
structure Interest where
  sl : Sublist := .newSublist
  live : List Subscription := []
  known : List Subscription := []
  gcid : Nat := 0
  client : Nat → Subscriber := fun _ => ⟨.client, false, [], 0⟩
  nm : Nat → Int := fun _ => 0
  max : Nat → Int := fun _ => 0
  attempts : Nat → Nat := fun _ => 0
  written : Nat → Nat := fun _ => 0
  limits : List (Nat × Int × Nat) := []
  threads : List (List Task) := []
  /-- the keys of `s.clients` -/
  clients : List Nat := []
  route : RouteAt := .absent
  /-- the lines written to the route that the other server has not read -/
  wire : List RouteLine := []
  /-- `c.subs` of the route at the other server -/
  peer : List (Bytes × Bytes × Option Bytes) := []

/-- How a write to a connection ends. -/
inductive WriteOutcome where
  | ok
  | failed
  | timedOut
  deriving DecidableEq

namespace Interest

def setTasks (s : Interest) (t : Nat) (tasks : List Task) : Interest :=
  { s with threads := s.threads.set t tasks }

def setSubs (s : Interest) (cid : Nat) (subs : List (Bytes × Subscription)) : Interest :=
  { s with client := update s.client cid { s.client cid with subs := subs } }

/-- Tasks of clients only: routes do not forward what they hear from routes. -/
def forward (s : Interest) (cid : Nat) (tasks : List Task) : List Task :=
  if (s.client cid).typ = .router then [] else tasks

/-- `processSub` (`client.go:749-818`) up to the end of its lock region, with what follows. -/
def processSub (g : Grow) (s : Interest) (cid : Nat) (subject : Bytes) (queue : Option Bytes)
    (sid : Bytes) (permitted : Bool) : Interest × List Task :=
  let c := s.client cid
  if c.nc = false then (s, [])
  else if permitted = false then (s, [])
  else
    match c.subs.lookup sid with
    | some _ => (s, [])
    | none =>
        let sub : Subscription := ⟨s.known.length, subject, queue, cid, sid⟩
        match s.sl.insert g sub with
        | (sl, some _) => ({ s with sl := sl }, [])
        | (sl, none) =>
            (setSubs { s with sl := sl, live := sub :: s.live, known := s.known ++ [sub] } cid
              (assocSet c.subs sid sub), s.forward cid [.broadcastSubscribe sub])

/-- `sl.Remove`, whose error nobody looks at. -/
def remove (g : Grow) (s : Interest) (sub : Subscription) : Interest :=
  match s.sl.remove g sub with
  | (sl, none) => { s with sl := sl, live := s.live.erase sub }
  | (sl, some _) => { s with sl := sl }

/-- `unsubscribe` (`client.go:820-834`). -/
def unsubscribe (g : Grow) (s : Interest) (sub : Subscription) : Interest :=
  if 0 < s.max sub.ptr ∧ s.nm sub.ptr < s.max sub.ptr then s
  else (s.setSubs sub.client (assocErase (s.client sub.client).subs sub.sid)).remove g sub

/-- `processUnsub` (`client.go:836-885`) up to the end of its lock region, with what follows. -/
def processUnsub (s : Interest) (cid : Nat) (sid : Bytes) (max : Int) : Interest × List Task :=
  match (s.client cid).subs.lookup sid with
  | none => (s, [])
  | some sub =>
      let max := if 0 < max then max else 0
      ({ s with
          max := update s.max sub.ptr max
          limits := s.limits ++ [(sub.ptr, max, s.written sub.ptr)] },
        .unsubscribe sub :: s.forward cid [.broadcastUnSubscribe sub])

/-- `deliverMsg` (`client.go:903-1003`) up to the end of its lock region, with what follows. -/
def deliverMsg (s : Interest) (sub : Subscription) (outcome : WriteOutcome) :
    Interest × List Task :=
  let c := s.client sub.client
  let nm := wrap64 (s.nm sub.ptr + 1)
  let max := s.max sub.ptr
  let s := { s with
    nm := update s.nm sub.ptr nm
    attempts := update s.attempts sub.ptr (s.attempts sub.ptr + 1) }
  let unsub := .unsubscribe sub :: s.forward sub.client [.broadcastUnSubscribe sub]
  if 0 < max ∧ max < nm then (s, unsub)
  else
    let deferred := if 0 < max ∧ nm = max then unsub else []
    if c.nc = false then (s, deferred)
    else
      match outcome with
      | .ok =>
          ({ s with written := update s.written sub.ptr (s.written sub.ptr + 1) },
            deferred)
      | .failed => (s, deferred)
      | .timedOut => (s, .closeConnection sub.client :: deferred)

/-- The lock region of `closeConnection` (`client.go:1297-1325`), with what follows
(`client.go:1327-1341`). -/
def closeConnection (s : Interest) (cid : Nat) : Interest × List Task :=
  let c := s.client cid
  if c.nc = false then (s, [])
  else
    ({ s with client := update s.client cid { c with nc := false } },
      .removeClient cid :: c.subs.flatMap fun (_, sub) =>
        .remove sub :: s.forward cid [.broadcastUnSubscribe sub])

/-- `removeClient` (`server.go:825-859`) as far as `s.clients` goes. -/
def removeClient (s : Interest) (cid : Nat) : Interest :=
  if (s.client cid).typ = .client then { s with clients := s.clients.filter (· ≠ cid) } else s

/-- `s.mu` is free. -/
def unlocked (s : Interest) : Bool :=
  match s.route with
  | .collecting _ _ => false
  | _ => true

/-- `numRoutes() == 0`. -/
def noRoutes (s : Interest) : Bool := s.route = .absent

/-- The first task of thread `t`, with the tasks that take its place. -/
def runTask (g : Grow) (s : Interest) : Task → Option (Interest × List Task)
  | .unsubscribe sub => some (s.unsubscribe g sub, [])
  | .broadcastSubscribe sub =>
      if s.unlocked then
        some (s, if s.noRoutes then [] else [.broadcastInterestToRoutes (subLine sub)])
      else none
  | .broadcastUnSubscribe sub =>
      if s.unlocked then some (s, if s.noRoutes then [] else [.makeUnsub sub]) else none
  | .makeUnsub sub =>
      some (s, [.broadcastInterestToRoutes (unsubLine sub (s.nm sub.ptr) (s.max sub.ptr))])
  | .broadcastInterestToRoutes line =>
      if s.unlocked then
        some (if s.noRoutes then s else { s with wire := s.wire ++ [line] }, [])
      else none
  | .closeConnection cid => some (s.closeConnection cid)
  | .removeClient cid => if s.unlocked then some (s.removeClient cid, []) else none
  | .remove sub => some (s.remove g sub, [])

/-- The other server reads a line: `processSub` (`client.go:795-810`) and `processUnsub` for a
route, none of whose subscriptions has had a delivery. -/
def peerReads (peer : List (Bytes × Bytes × Option Bytes)) :
    RouteLine → List (Bytes × Bytes × Option Bytes)
  | .sub subject queue rsid =>
      match peer.lookup rsid with
      | some _ => peer
      | none => assocSet peer rsid (subject, queue)
  | .unsub rsid max => if 0 < max.getD 0 then peer else assocErase peer rsid

end Interest

inductive InterestAction where
  | accept (typ : ClientKind)
  | spawn
  | sub (cid : Nat) (subject : Bytes) (queue : Option Bytes) (sid : Bytes) (permitted : Bool)
  | unsub (cid : Nat) (sid : Bytes) (max : Int)
  | deliver (t : Nat) (sub : Subscription) (outcome : WriteOutcome)
  | close (t cid : Nat)
  | run (t : Nat)
  | addRoute
  | collect (order : List Nat)
  | collectClient
  | collected
  | sendLocalSubs
  | peer
  deriving DecidableEq

/-- An idle thread does the lock region of `p` and has its tasks left. -/
def Interest.startOn (s : Interest) (t : Nat) (p : Interest × List Task) : Option Interest :=
  if s.threads[t]? = some [] then some (p.1.setTasks t p.2) else none

/-- One step of the server. -/
def Interest.step (g : Grow) (s : Interest) : InterestAction → Option Interest
  | .accept typ =>
      let cid := s.gcid + 1
      some { s with
        gcid := cid
        client := update s.client cid ⟨typ, true, [], s.threads.length⟩
        threads := s.threads ++ [[]]
        clients := if typ = .router then s.clients else s.clients ++ [cid] }
  | .spawn => some { s with threads := s.threads ++ [[]] }
  | .sub cid subject queue sid permitted =>
      s.startOn (s.client cid).reader (s.processSub g cid subject queue sid permitted)
  | .unsub cid sid max => s.startOn (s.client cid).reader (s.processUnsub cid sid max)
  | .deliver t sub outcome =>
      if sub ∈ s.known then s.startOn t (s.deliverMsg sub outcome) else none
  | .close t cid => s.startOn t (s, [.closeConnection cid])
  | .run t =>
      match s.threads[t]? with
      | some (task :: rest) =>
          (s.runTask g task).map fun (s, tasks) => s.setTasks t (tasks ++ rest)
      | _ => none
  | .addRoute => if s.route = .absent then some { s with route := .added } else none
  | .collect order =>
      if s.route = .added ∧ order.Perm s.clients then
        some { s with route := .collecting order [] }
      else none
  | .collectClient =>
      match s.route with
      | .collecting (cid :: left) buf =>
          some { s with
            route := .collecting left (buf ++ (s.client cid).subs.map fun e => subLine e.2) }
      | _ => none
  | .collected =>
      match s.route with
      | .collecting [] buf => some { s with route := .collected buf }
      | _ => none
  | .sendLocalSubs =>
      match s.route with
      | .collected buf => some { s with route := .ready, wire := s.wire ++ buf }
      | _ => none
  | .peer =>
      match s.wire with
      | line :: wire => some { s with wire := wire, peer := Interest.peerReads s.peer line }
      | [] => none

end Hnatsd.Server
