import Hnatsd.Health.Membership

/-!
# The health agent and its connection

`Start`, the heartbeat loop and `setupNatsClient` with the connections they use. A connection is a
number: the first is 0. Each loop round publishes the call on `m.nc`, sleeps until the heartbeat or a
notice that the connection is lost, in which case `setupNatsClient` is called again, and then takes
the collected replies and publishes what has changed on `nc`, which `start` has read once.

What the connection, the server and the clock do is given with each action. Locations are taken to
be encodable: their times lie in the years that JSON has. Logging is left out.
-/

namespace Hnatsd.Health
open Misc

namespace Ranktree

/-- `deleteSloc` (`btree.go:58-62`). -/
def deleteSloc (t : Ranktree) (j : AgentLoc) : Ranktree :=
  ⟨t.items.filter fun loc => agentLocLessThan loc j || agentLocLessThan j loc,
    List.Pairwise.sublist List.filter_sublist t.sorted⟩

/-- `setDiff` (`btree.go:120-136`). -/
def setDiff (a b : Ranktree) : Ranktree :=
  (b.items.filter fun loc => agentLocLessThan loc {}).foldl deleteSloc a.clone

/-- `setsEqual` (`btree.go:138-163`). -/
def setsEqual (a b : Ranktree) : Bool :=
  a.items.length = b.items.length &&
    (a.items.filter fun loc => agentLocLessThan loc {}).all b.has

end Ranktree

/-- `nats.ServerLoc`, with the rank that `getNatsServerLocation` fills in left out. -/
structure ServerLoc where
  id : Bytes
  host : Bytes
  natsPort : Int
  deriving DecidableEq

/-- What the agent publishes. -/
inductive Report where
  | allcall (lead : AgentLoc)
  | pong (loc : AgentLoc)
  | lost (mem : Ranktree)
  | added (mem : Ranktree)
  | list (mem : Ranktree) (leadID : Bytes)
  deriving DecidableEq

/-- The panics of `setMyLoc` (`health.go:150-152`) and of the handler of calls
(`health.go:840-847`). -/
inductive AgentPanic where
  | doubleSet
  | changedLocations
  deriving DecidableEq

/-- Where the agent's goroutine is. -/
inductive LoopPlace where
  | unstarted
  | calling
  | asleep
  | awake
  | stopped
  deriving DecidableEq

/-- A `Membership` with its connection. `nc` is `m.nc` and `loopNc` the copy of it that `start`
makes; `connections` counts the connections that were made, and `subscribed` are those on which the
handlers are. -/
structure Agent where
  m : Membership
  myRank : Int
  pid : Int
  deaf : Bool
  nc : Option Nat
  loopNc : Option Nat
  connections : Nat
  subscribed : List Nat
  myLocHasBeenSet : Bool
  prevMember : Ranktree
  place : LoopPlace
  published : List (Nat × Report)
  panicked : Option AgentPanic

/-- What `nats.Connect` and then `ServerLocation` return in a call of `setupNatsClient`. -/
inductive Dialed where
  | refused
  | unlocated
  | connected (loc : ServerLoc)
  deriving DecidableEq

namespace Agent

/-- `NewMembership` (`health.go:106-117`). -/
def newAgent (cfg : MembershipCfg) (myRank pid : Int) (deaf : Bool) : Agent where
  m := .newMembership cfg {}
  myRank := myRank
  pid := pid
  deaf := deaf
  nc := none
  loopNc := none
  connections := 0
  subscribed := []
  myLocHasBeenSet := false
  prevMember := .newRanktree
  place := .unstarted
  published := []
  panicked := none

/-- `m.nc.Publish`; nothing is published on a nil connection. -/
def publish (a : Agent) (nc : Option Nat) (r : Report) : Agent :=
  match nc with
  | some nc => { a with published := a.published ++ [(nc, r)] }
  | none => a

/-- A publication that is made under a condition, and not by a deaf agent. -/
def publishIf (a : Agent) (condition : Bool) (nc : Option Nat) (r : Report) : Agent :=
  if condition && !a.deaf then a.publish nc r else a

/-- `setLoc` and `setMyLoc` (`health.go:918-927`, `health.go:148-157`). -/
def setLoc (a : Agent) (b : ServerLoc) : Agent :=
  let a := { a with m := { a.m with myLoc := { a.m.myLoc with
    id := b.id
    rank := a.myRank
    natsHost := b.host
    natsClientPort := b.natsPort
    pid := a.pid } } }
  if a.myLocHasBeenSet then { a with panicked := some .doubleSet }
  else { a with myLocHasBeenSet := true }

/-- `m.nc = nc` with the connection that `nats.Connect` has made. -/
def connect (a : Agent) : Agent :=
  { a with nc := some a.connections, connections := a.connections + 1 }

/-- The subscriptions of the handlers, on the connection made last. -/
def subscribe (a : Agent) : Agent := { a with subscribed := a.subscribed ++ a.nc.toList }

/-- `setupNatsClient` (`health.go:760-898`), and whether it returns without an error. -/
def setupNatsClient (a : Agent) : Dialed → Agent × Bool
  | .refused => (a, false)
  | .unlocated => (a.connect, false)
  | .connected loc => ((a.connect.setLoc loc).subscribe, true)

/-- `locDifferent` (`health.go:900-916`); both ranks are the configured one. -/
def locDifferent (a : Agent) (b : ServerLoc) : Bool :=
  b.id ≠ a.m.myLoc.id || a.myRank ≠ a.m.myLoc.rank || b.host ≠ a.m.myLoc.natsHost ||
    b.natsPort ≠ a.m.myLoc.natsClientPort

/-- `getMyLocWithAnyLease` (`health.go:68-78`). -/
def getMyLocWithAnyLease (a : Agent) : AgentLoc :=
  if slocEqualIgnoreLease a.m.elec.sloc a.m.myLoc then
    { a.m.myLoc with leaseExpires := a.m.elec.sloc.leaseExpires }
  else a.m.myLoc

/-- The handler of calls that `setupNatsClient` subscribes on a connection (`health.go:828-864`). -/
def receiveAllcall (a : Agent) (nc : Nat) (loc : Option ServerLoc) : Agent :=
  if a.deaf then a
  else
    match loc with
    | none => a
    | some loc =>
        if a.locDifferent loc then { a with panicked := some .changedLocations }
        else a.publish (some nc) (.pong a.getMyLocWithAnyLease)

/-- What a round publishes about its members (`health.go:483-534`). -/
def report (a : Agent) (curMember : Ranktree) (expired : Bool) (curLead : AgentLoc) : Agent :=
  let lost := a.prevMember.setDiff curMember
  let gained := curMember.setDiff a.prevMember
  let same := a.prevMember.setsEqual curMember
  let a := a.publishIf (!same && !lost.items.isEmpty) a.loopNc (.lost lost)
  let a := a.publishIf (!same && !gained.items.isEmpty) a.loopNc (.added gained)
  let a := a.publishIf expired a.loopNc (.list curMember curLead.id)
  { a with prevMember := curMember }

inductive Action where
  | start (dialed : Dialed)
  | allcall (sent : Bool)
  | wake
  | reconnect (dialed : Dialed)
  | stop
  | receivePong (loc : AgentLoc)
  | clone
  | clear
  | reseed
  | elect (now : Int)
  | receiveAllcall (nc : Nat) (loc : Option ServerLoc)

/-- A part of `getSetAndClear`. -/
def collect (a : Agent) (part : Membership.Action) : Option Agent :=
  if a.place = .awake then (a.m.step part).map fun m => { a with m := m } else none

/-- One step; none is possible after a panic. -/
def step (a : Agent) (action : Action) : Option Agent :=
  if a.panicked.isSome then none
  else
    match action with
    | .start dialed =>
        if a.place = .unstarted then
          let (a, ok) := a.setupNatsClient dialed
          some { a with loopNc := a.nc, place := if ok then .calling else .stopped }
        else none
    | .allcall sent =>
        if a.place = .calling then
          if sent then some { a.publish a.nc (.allcall a.m.elec.sloc) with place := .asleep }
          else some { a with place := .stopped }
        else none
    | .wake => if a.place = .asleep then some { a with place := .awake } else none
    | .reconnect dialed =>
        if a.place = .asleep then
          let (a, ok) := a.setupNatsClient dialed
          some { a with place := if ok then .awake else .stopped }
        else none
    | .stop => if a.place = .asleep then some { a with place := .stopped } else none
    | .receivePong loc =>
        if a.subscribed = [] then none
        else if a.deaf then some a
        else some { a with m := a.m.insert loc }
    | .clone => a.collect .clone
    | .clear => a.collect .clear
    | .reseed => a.collect .reseed
    | .elect now =>
        match a.place, a.m.place with
        | .awake, .seeded mem =>
            let (expired, curLead) :=
              leaderLeaseCheck mem now a.m.cfg.leaseTime a.m.lastSeenLead a.m.cfg.maxClockSkew
            let curLead := if expired then (a.m.elec.setLeader curLead now).2.2 else curLead
            (a.m.step (.elect now)).map fun m =>
              { ({ a with m := m } : Agent).report mem expired curLead with place := .calling }
        | _, _ => none
    | .receiveAllcall nc loc =>
        if nc ∈ a.subscribed then some (a.receiveAllcall nc loc) else none

end Agent

end Hnatsd.Health
