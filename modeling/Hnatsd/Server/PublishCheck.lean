import Hnatsd.Server.AuthTimer
import Hnatsd.Server.ResultCache

/-!
# The caches of a publishing client

The part of `processMsg` before the delivery (`client.go:1003-1100`): the subjects that are reserved,
the permission check with its cache of decisions, and the lookup with the cache of results. Other
connections change the server's sublist, so each message comes with the sublist as it is when the
generation is loaded and as it is when `Match` is called.
-/

namespace Hnatsd.Server
open Misc

/-- `maxPermCacheSize` (`client.go:131`). -/
def maxPermCacheSize : Nat := 32

/-- The order in which `range` goes through a map. -/
structure RangeOrder where
  arrange : List Bytes → List Bytes
  perm : ∀ keys, (arrange keys).Perm keys

/-- The order of the list. -/
def RangeOrder.asListed : RangeOrder := ⟨id, fun _ => .refl _⟩

/-- A published message and what it meets. `c.pa.subject` is a token of the PUB line. -/
structure Publication where
  subject : Bytes
  nonempty : subject ≠ []
  pick : Nat
  permOrder : RangeOrder
  loaded : Sublist
  matched : Sublist
  resultOrder : RangeOrder

/-- The part of a client that `processMsg` reads and writes before the delivery. -/
structure PubClient where
  perms : Option Permissions
  served : Bool := true
  genid : UInt64 := 0
  results : Option (List (Bytes × Answer)) := none

/-- How far a message gets: it is refused because its subject is reserved or not permitted, let
through in a client without a server, or looked up. -/
inductive PubOutcome where
  | reserved
  | violation
  | unserved
  | found (r : Answer)
  deriving DecidableEq

def PubOutcome.letThrough : PubOutcome → Bool
  | .reserved | .violation => false
  | .unserved | .found _ => true

/-- The first entries of a map, as many as a pruning loop deletes. -/
def pruned (order : RangeOrder) (keys : List Bytes) : List Bytes :=
  (order.arrange keys).take (pruneSize + 1)

namespace PubClient

/-- The permission check (`client.go:1028-1061`). Where a new decision makes the cache of decisions
too large, the loop over it deletes from the results. -/
def checkPub (g : Grow) (c : PubClient) (m : Publication) : PubClient × Bool :=
  let cached := (c.perms.bind fun p => p.pcache.lookup m.subject).isSome
  let (perms, allowed) := checkPubPermission g c.perms m.subject m.pick
  let keys := (perms.map fun p => p.pcache.map Prod.fst).getD []
  let results :=
    if !cached && maxPermCacheSize < keys.length then
      c.results.map ((pruned m.permOrder keys).foldl assocErase ·)
    else c.results
  ({ c with perms := perms, results := results }, allowed)

/-- The start of the lookup (`client.go:1075-1083`): the results there are for this generation. -/
def loadResults (c : PubClient) (m : Publication) : List (Bytes × Answer) :=
  if m.loaded.genid = c.genid then c.results.getD [] else []

/-- The lookup (`client.go:1072-1100`). -/
def findResult (g : Grow) (c : PubClient) (m : Publication) : PubClient × Answer :=
  let results := c.loadResults m
  match results.lookup m.subject with
  | some r => ({ c with genid := m.loaded.genid, results := some results }, r)
  | none =>
      let r := m.matched.answer g m.subject
      let results := assocSet results m.subject r
      let results :=
        ResultCache.prune results (m.resultOrder.arrange (results.map Prod.fst))
      ({ c with genid := m.loaded.genid, results := some results }, r)

/-- `processMsg` up to the delivery. -/
def processMsg (g : Grow) (c : PubClient) (m : Publication) : PubClient × PubOutcome :=
  if isReserved m.subject then (c, .reserved)
  else
    match c.checkPub g m with
    | (c, false) => (c, .violation)
    | (c, true) =>
        if c.served then
          let (c, r) := c.findResult g m
          (c, .found r)
        else (c, .unserved)

/-- The client after a number of messages. -/
def processMsgs (g : Grow) (c : PubClient) (msgs : List Publication) : PubClient :=
  msgs.foldl (fun c m => (c.processMsg g m).1) c

/-- `len(c.perms.pcache)`. -/
def pcacheSize (c : PubClient) : Nat := (c.perms.map fun p => p.pcache.length).getD 0

/-- `len(c.cache.results)`. -/
def resultsSize (c : PubClient) : Nat := (c.results.getD []).length

end PubClient

end Hnatsd.Server
