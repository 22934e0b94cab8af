import Hnatsd.Misc.Runs
import Hnatsd.Server.Sublist

/-!
# The result cache of a client

`processMsg` keeps the results of lookups by subject, under the generation of the sublist it loaded
when it started the cache afresh (`client.go:1072-1100`). The cache belongs to the client's read
loop; other connections insert and remove between its steps. `Match` is taken to return what the
sublist holds at that instant as a value nobody changes.
-/

namespace Hnatsd.Server
open Misc

/-- `maxResultCacheSize` and `pruneSize` (`client.go:130-132`). -/
def maxResultCacheSize : Nat := 512
def pruneSize : Nat := 16

/-- A result read out: the plain subscriptions and the members of each queue group. -/
abbrev Answer := List Subscription × List (List (Option Subscription))

/-- What `Match` returns for the sublist as it is. -/
def Sublist.answer (g : Grow) (s : Sublist) (subject : Bytes) : Answer :=
  let (h, r) := s.lookup g subject
  (r.psubs, r.qsubs.map h.read)

/-- Where `processMsg` is: not running, before `Match`, or with its result. Recorded are the states
the sublist has been in since `genid` was loaded. -/
inductive MsgStage where
  | idle
  | missed (subject : Bytes) (since : List Sublist)
  | found (subject : Bytes) (r : Answer) (since : List Sublist)

/-- A result that was used for delivery, with the states of the sublist from the load of `genid` to
the use. -/
structure UsedResult where
  subject : Bytes
  r : Answer
  since : List Sublist

/-- The server's sublist and the client's cache. `changes` counts the calls that changed the
sublist. -/
structure ResultCache where
  sl : Sublist := .newSublist
  changes : Nat := 0
  genid : UInt64 := 0
  results : Option (List (Bytes × Answer)) := none
  stage : MsgStage := .idle
  used : List UsedResult := []

inductive CacheAction where
  | insert (sub : Subscription)
  | remove (sub : Subscription)
  | evict (subject : Bytes)
  | load (subject : Bytes)
  | matchSubject (order : List Bytes)
  | use

namespace ResultCache

/-- Another connection's `Insert` or `Remove` has returned. -/
def setSublist (s : ResultCache) (call : Sublist × Option SublistError) : ResultCache :=
  { s with
    sl := call.1
    changes := if call.2 = none then s.changes + 1 else s.changes
    stage := match s.stage with
      | .idle => .idle
      | .missed subject since => .missed subject (since ++ [call.1])
      | .found subject r since => .found subject r (since ++ [call.1]) }

/-- The start of the lookup (`client.go:1075-1083`). -/
def load (s : ResultCache) (subject : Bytes) : ResultCache :=
  let reset := { s with
    results := some []
    genid := s.sl.genid
    stage := .missed subject [s.sl] }
  match s.results with
  | some results =>
      if s.sl.genid = s.genid then
        match results.lookup subject with
        | some r => { s with stage := .found subject r [s.sl] }
        | none => { s with stage := .missed subject [s.sl] }
      else reset
  | none => reset

/-- The pruning of the results in the order the map is gone through (`client.go:1089-1099`). -/
def prune (results : List (Bytes × Answer)) (order : List Bytes) : List (Bytes × Answer) :=
  if maxResultCacheSize < results.length then
    (order.take (pruneSize + 1)).foldl assocErase results
  else results

/-- One step. The permission check before a lookup may delete entries of the results, when it means
to prune its own cache (`client.go:1045-1055`). -/
def step (g : Grow) (s : ResultCache) : CacheAction → Option ResultCache
  | .insert sub => some (s.setSublist (s.sl.insert g sub))
  | .remove sub => some (s.setSublist (s.sl.remove g sub))
  | .evict subject =>
      match s.stage with
      | .idle => some { s with results := s.results.map (assocErase · subject) }
      | _ => none
  | .load subject =>
      match s.stage with
      | .idle => some (s.load subject)
      | _ => none
  | .matchSubject order =>
      match s.stage with
      | .missed subject since =>
          let r := s.sl.answer g subject
          let results := assocSet (s.results.getD []) subject r
          if order.Perm (results.map Prod.fst) then
            some { s with
              results := some (prune results order)
              stage := .found subject r since }
          else none
      | _ => none
  | .use =>
      match s.stage with
      | .found subject r since =>
          some { s with stage := .idle, used := s.used ++ [⟨subject, r, since⟩] }
      | _ => none

end ResultCache

end Hnatsd.Server
