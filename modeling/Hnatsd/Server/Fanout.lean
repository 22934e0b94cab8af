import Hnatsd.Server.Interest

/-!
# Fan-out of a message

How `processMsg` delivers a message once it has the result of its lookup (`client.go:1102-1192`),
with nothing else running: each `deliverMsg` is done with all that follows from it before the next
one. What `c.route.remoteID` is of each connection, how each write ends and what the random numbers
are is given.

A MSG from a route may name a queue subscription of this server by its sid at the other server, which
`routeSidQueueSubscriber` takes apart with a regular expression (`route.go:445-481`).
-/

namespace Hnatsd.Server
open Misc

section Sids

/-- `\d`. -/
def isDecimalDigit (b : UInt8) : Bool := 48 ≤ b && b ≤ 57

/-- `\s`: tab, line feed, form feed, carriage return and blank. -/
def isRegexpSpace (b : UInt8) : Bool := b = 9 || b = 10 || b = 12 || b = 13 || b = 32

/-- A match of `QRSID:(\d+):([^\s]+)` at the start of the text: its two groups. All bytes that are
not ASCII are in `[^\s]`, alone or as part of a rune. -/
def qrsidAt (text : Bytes) : Option (Bytes × Bytes) :=
  (text.dropPrefix? (bytesOf "QRSID:")).bind fun rest =>
    let digits := rest.takeWhile isDecimalDigit
    match rest.dropWhile isDecimalDigit with
    | 58 :: rest =>
        let sid := rest.takeWhile fun b => !isRegexpSpace b
        if digits = [] ∨ sid = [] then none else some (digits, sid)
    | _ => none

/-- `qrsidRe.FindSubmatch` (`route.go:458`): the leftmost match. -/
def findQrsid : Bytes → Option (Bytes × Bytes)
  | [] => none
  | b :: rest => (qrsidAt (b :: rest)).or (findQrsid rest)

/-- `uint64(n)`. -/
def toUint64 (n : Int) : Nat := (n % 2 ^ 64).toNat

/-- `routeSidQueueSubscriber` (`route.go:460-481`). -/
def Interest.routeSidQueueSubscriber (s : Interest) (rsid : Bytes) : Option Subscription × Bool :=
  if !(bytesOf "QRSID").isPrefixOf rsid then (none, false)
  else
    match findQrsid rsid with
    | none => (none, false)
    | some (digits, sid) =>
        let cid := toUint64 (parseInt64 digits)
        if cid ∈ s.clients then ((s.client cid).subs.lookup sid, true) else (none, true)

end Sids

/-- The tasks of a thread, each with what follows from it before the next. Tasks that follow from
tasks nest no deeper than four times. -/
def Interest.finish (g : Grow) : Nat → Interest → List Task → Interest
  | 0, s, _ => s
  | depth + 1, s, tasks =>
      tasks.foldl (fun s task =>
        match s.runTask g task with
        | some (s, more) => finish g depth s more
        | none => s) s

/-- What is given with a delivery: the `remoteID` of each connection that has a route object, how
each write ends, and the random number for each queue group. -/
structure FanoutEnv where
  remoteID : Nat → Option Bytes
  outcome : Nat → WriteOutcome
  random : Nat → Nat

/-- A delivery under way: the server, the calls of `deliverMsg` so far, and the keys of `rmap`. -/
structure Fanout where
  srv : Interest
  calls : List Subscription := []
  rmap : List Bytes := []

namespace Fanout

/-- `c.deliverMsg(sub, mh, msg)`. -/
def deliver (g : Grow) (env : FanoutEnv) (f : Fanout) (sub : Subscription) : Fanout :=
  let (srv, tasks) := f.srv.deliverMsg sub (env.outcome f.calls.length)
  { f with srv := srv.finish g 4 tasks, calls := f.calls ++ [sub] }

/-- The loop body over `r.psubs` (`client.go:1141-1171`). -/
def plain (g : Grow) (env : FanoutEnv) (isRoute : Bool) (f : Fanout) (sub : Subscription) :
    Fanout :=
  let c := f.srv.client sub.client
  if c.typ = .router then
    if isRoute then f
    else
      match env.remoteID sub.client with
      | none => f
      | some id =>
          if c.nc = false ∨ id = [] then f
          else if id ∈ f.rmap then f
          else deliver g env { f with rmap := f.rmap ++ [id] } sub
  else deliver g env f sub

/-- The loop body over `r.qsubs` (`client.go:1181-1189`), for the `i`-th group. `Intn` panics on an
empty group. -/
def queued (g : Grow) (env : FanoutEnv) (i : Nat) (f : Fanout) (qsubs : Slice) : Option Fanout :=
  if qsubs.len = 0 then none
  else
    match (f.srv.sl.heap.read qsubs)[env.random i % qsubs.len]? with
    | some (some sub) => some (deliver g env f sub)
    | _ => some f

/-- The loop over `r.qsubs`, from the `i`-th group on. -/
def queues (g : Grow) (env : FanoutEnv) : Nat → Fanout → List Slice → Option Fanout
  | _, f, [] => some f
  | i, f, qsubs :: rest => (queued g env i f qsubs).bind fun f => queues g env (i + 1) f rest

end Fanout

/-- The delivery of a message from connection `cid` with result `r` (`client.go:1119-1192`); `sid` is
`c.pa.sid`. -/
def Interest.processMsg (g : Grow) (env : FanoutEnv) (s : Interest) (cid : Nat) (sid : Bytes)
    (r : SublistResult) : Option Fanout :=
  let isRoute : Bool := (s.client cid).typ = .router
  if isRoute then
    match s.routeSidQueueSubscriber sid with
    | (some sub, true) => some (Fanout.deliver g env ⟨s, [], []⟩ sub)
    | (none, true) => some ⟨s, [], []⟩
    | (_, false) => some (r.psubs.foldl (Fanout.plain g env isRoute) ⟨s, [], []⟩)
  else Fanout.queues g env 0 (r.psubs.foldl (Fanout.plain g env isRoute) ⟨s, [], []⟩) r.qsubs

end Hnatsd.Server
