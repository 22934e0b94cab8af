import Hnatsd.Health.AgentLoc
import Hnatsd.Misc.Runs

/-!
# The health agent

A `Membership` collects the replies to its calls and, every heartbeat, takes the set it collected
and checks the leader's lease against it. The replies come in through a handler of their own, so
`getSetAndClear` is three steps, between which replies may arrive.

A run has no reconnection, and it ends where the process would: `receivePong` panics on a reply
that is not JSON, and the loop returns when an allcall fails or a stop is asked for. What the loop
publishes about lost and gained members is left out.
-/

namespace Hnatsd.Health
open Misc

/-- The part of `MembershipCfg` (`config.go:22-57`) that the loop reads. -/
structure MembershipCfg where
  maxClockSkew : Int
  leaseTime : Int
  historyCount : Nat := 0
  durations : Fits64 maxClockSkew ∧ Fits64 leaseTime := by decide

/-- `leadHolder` (`health.go:123-135`). `history` is what the ring holds, `histsz` its size. -/
structure LeadHolder where
  sloc : AgentLoc
  history : List AgentLoc
  histsz : Nat
  deriving DecidableEq

namespace LeadHolder

/-- `newLeadHolder` (`health.go:137-146`). -/
def newLeadHolder (histsz : Nat) : LeadHolder :=
  { sloc := {}, history := [], histsz := if histsz = 0 then 100 else histsz }

/-- `history.Append` (`rbuf.go:127-139`), whose error is ignored when the ring is full. -/
def append (e : LeadHolder) (sloc : AgentLoc) : LeadHolder :=
  if e.histsz ≤ e.history.length then e else { e with history := e.history ++ [sloc] }

/-- `e.sloc = sloc`, with the entry in the history that follows at the end of `setLeader`. -/
def accept (e : LeadHolder) (sloc : AgentLoc) : LeadHolder := { e with sloc := sloc }.append sloc

@[simp] theorem accept_sloc (e : LeadHolder) (sloc : AgentLoc) :
    (e.accept sloc).sloc = sloc := by
  unfold accept append
  split <;> rfl

/-- `setLeader` (`health.go:186-263`): `slocWon` and `alt`. -/
def setLeader (e : LeadHolder) (sloc : AgentLoc) (now : Int) : LeadHolder × Bool × AgentLoc :=
  if sloc.id = [] then (e, false, e.sloc)
  else
    let nowu := unixNano now
    let cure := unixNano e.sloc.leaseExpires
    let newe := unixNano sloc.leaseExpires
    let curExpired : Bool := cure ≤ nowu
    let newExpired : Bool := newe ≤ nowu
    if curExpired && newExpired then (e, false, e.sloc)
    else if !curExpired && !newExpired then
      let newWon := agentLocLessThan sloc e.sloc
      let oldWon := agentLocLessThan e.sloc sloc
      if !newWon && !oldWon then
        if e.sloc.leaseExpires < sloc.leaseExpires then (e.accept sloc, true, sloc)
        else (e, false, e.sloc)
      else if newWon then (e.accept sloc, true, sloc)
      else (e, false, e.sloc)
    else if newExpired then (e, false, e.sloc)
    else (e.accept sloc, true, sloc)

end LeadHolder

/-- `leaderLeaseCheck` (`health.go:666-692`): `expired` and `lead`. -/
def leaderLeaseCheck (mems : Ranktree) (now leaseLen : Int) (prevLead : AgentLoc)
    (maxClockSkew : Int) : Bool × AgentLoc :=
  if now < prevLead.leaseExpires + maxClockSkew then (false, prevLead)
  else
    match mems.minrank with
    | none => (false, prevLead)
    | some lead => (true, { lead with leaseExpires := now + leaseLen })

/-- What a heartbeat does with its member set and its reading of the clock
(`health.go:377-403`). -/
def heartbeat (cfg : MembershipCfg) (lastSeenLead : AgentLoc) (e : LeadHolder) (mems : Ranktree)
    (now : Int) : LeadHolder :=
  let (expired, curLead) := leaderLeaseCheck mems now cfg.leaseTime lastSeenLead cfg.maxClockSkew
  if expired then (e.setLeader curLead now).1 else e

/-- Where the loop is: asleep between two heartbeats, or in `getSetAndClear` with the set it will
return. -/
inductive Place where
  | beat
  | cloned (mem : Ranktree)
  | cleared (mem : Ranktree)
  | seeded (mem : Ranktree)
  deriving DecidableEq

/-- One heartbeat that has ended: the set it collected and its reading. -/
structure Round where
  members : Ranktree
  now : Int
  deriving DecidableEq

/-- `Membership` (`health.go:31-58`) with its pong collector and the variables of its loop. `rounds`
records the heartbeats that have ended. -/
structure Membership where
  cfg : MembershipCfg
  myLoc : AgentLoc
  fromNoTime : Ranktree
  elec : LeadHolder
  place : Place
  lastSeenLead : AgentLoc
  rounds : List Round

namespace Membership

/-- `NewMembership` (`health.go:106-117`) on a connection that has told its location. -/
def newMembership (cfg : MembershipCfg) (myLoc : AgentLoc) : Membership where
  cfg := cfg
  myLoc := myLoc
  fromNoTime := .newRanktree
  elec := .newLeadHolder cfg.historyCount
  place := .beat
  lastSeenLead := {}
  rounds := []

/-- `pongCollector.insert` (`health.go:588-594`). -/
def insert (m : Membership) (sloc : AgentLoc) : Membership :=
  { m with fromNoTime := m.fromNoTime.insert sloc.withZeroLease }

inductive Action where
  | receivePong (loc : AgentLoc)
  | clone
  | clear
  | reseed
  | elect (now : Int)

/-- One step: a reply (`health.go:597-612`), a part of `getSetAndClear` (`health.go:623-645`), or the
rest of the heartbeat. The reading of the held leader goes with the clone: only the loop changes
it. -/
def step (m : Membership) : Action → Option Membership
  | .receivePong loc => some (m.insert loc)
  | .clone =>
      match m.place with
      | .beat =>
          some { m with lastSeenLead := m.elec.sloc, place := .cloned m.fromNoTime.clone }
      | _ => none
  | .clear =>
      match m.place with
      | .cloned mem => some { m with fromNoTime := .newRanktree, place := .cleared mem }
      | _ => none
  | .reseed =>
      match m.place with
      | .cleared mem => some { m.insert m.myLoc with place := .seeded mem }
      | _ => none
  | .elect now =>
      match m.place with
      | .seeded mem =>
          some { m with
            elec := heartbeat m.cfg m.lastSeenLead m.elec mem now
            place := .beat
            rounds := m.rounds ++ [⟨mem, now⟩] }
      | _ => none

end Membership

end Hnatsd.Health
