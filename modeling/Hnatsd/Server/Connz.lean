import Hnatsd.Misc.Bytes
import Hnatsd.Misc.Int64

/-!
# The listing of connections

`HandleConnz` (`monitor.go:67-248`): the clients with the value they are sorted by, the page that
the offset and the limit of the request select, and what is told of each client on it. The sort is
given as a permutation that orders by the value. Times are nanoseconds since the Unix epoch; a
duration is not yet written out as text. A slice expression out of range panics.
-/

namespace Hnatsd.Server
open Misc

/-- `SortOpt` (`monitor_sort_opts.go:8-19`); `uptime` and no option stand for `cid`. -/
inductive SortOpt where
  | byCid
  | bySubs
  | byPending
  | byOutMsgs
  | byInMsgs
  | byOutBytes
  | byInBytes
  | byLast
  | byIdle
  deriving DecidableEq

/-- The names of the options. -/
def SortOpt.names : List (Bytes × SortOpt) :=
  [([], .byCid), (bytesOf "uptime", .byCid), (bytesOf "cid", .byCid), (bytesOf "subs", .bySubs),
    (bytesOf "pending", .byPending), (bytesOf "msgs_to", .byOutMsgs),
    (bytesOf "msgs_from", .byInMsgs), (bytesOf "bytes_to", .byOutBytes),
    (bytesOf "bytes_from", .byInBytes), (bytesOf "last", .byLast), (bytesOf "idle", .byIdle)]

/-- The option a request names, if it is valid (`monitor.go:68-77`). -/
def SortOpt.ofText (text : Bytes) : Option SortOpt := SortOpt.names.lookup text

/-- A client as it is when the listing reads it. -/
structure ConnClient where
  cid : Nat
  start : Int
  last : Int
  subs : List Bytes
  pending : Int
  inMsgs : Int
  outMsgs : Int
  inBytes : Int
  outBytes : Int
  name : Bytes := []
  lang : Bytes := []
  version : Bytes := []
  username : Bytes := []
  tls : Option (Bytes × Bytes) := none
  remote : Option (Bytes × Int) := none
  deriving DecidableEq

/-- `ConnInfo` (`monitor.go:38-59`). -/
structure ConnInfo where
  cid : Nat
  ip : Bytes
  port : Int
  start : Int
  lastActivity : Int
  uptime : Int
  idle : Int
  pending : Int
  inMsgs : Int
  outMsgs : Int
  inBytes : Int
  outBytes : Int
  numSubs : Nat
  name : Bytes
  lang : Bytes
  version : Bytes
  tlsVersion : Bytes
  tlsCipher : Bytes
  authorizedUser : Bytes
  subs : List Bytes
  deriving DecidableEq

/-- `Connz` (`monitor.go:28-35`). -/
structure Connz where
  now : Int
  numConns : Int
  total : Int
  offset : Int
  limit : Int
  conns : List ConnInfo
  deriving DecidableEq

/-- `Pair` (`monitor_sort_opts.go:31-34`). -/
structure Pair where
  key : ConnClient
  val : Int
  deriving DecidableEq

/-- `DefaultConnListSize` (`monitor.go:62`). -/
def defaultConnListSize : Int := 1024

/-- `Time.Sub`, which stays within a duration. -/
def timeSub (t u : Int) : Int := max (-(2 ^ 63)) (min (2 ^ 63 - 1) (t - u))

/-- The value a client is sorted by (`monitor.go:105-124`). -/
def SortOpt.value (opt : SortOpt) (now : Int) (client : ConnClient) : Int :=
  match opt with
  | .byCid => wrap64 client.cid
  | .bySubs => client.subs.length
  | .byPending => client.pending
  | .byOutMsgs => client.outMsgs
  | .byInMsgs => client.inMsgs
  | .byOutBytes => client.outBytes
  | .byInBytes => client.inBytes
  | .byLast => wrap64 client.last
  | .byIdle => timeSub now client.last

/-- `sort.Sort` of the pairs, or of their reverse. -/
structure PairsSort where
  sort : Bool → List Pair → List Pair
  perm : ∀ reverse pairs, (sort reverse pairs).Perm pairs
  ascending : ∀ pairs, (sort false pairs).Pairwise fun p q => p.val ≤ q.val
  descending : ∀ pairs, (sort true pairs).Pairwise fun p q => q.val ≤ p.val

/-- A request. The numbers are what `Atoi` makes of the query: any 64-bit integers. -/
structure ConnzQuery where
  sort : Bytes := []
  auth : Int := 0
  subs : Int := 0
  offset : Int := 0
  limit : Int := 0
  fits : Fits64 offset ∧ Fits64 limit

/-- `c.Limit` (`monitor.go:87-89`). -/
def ConnzQuery.limitOrDefault (q : ConnzQuery) : Int :=
  if q.limit = 0 then defaultConnListSize else q.limit

/-- `minoff` and `maxoff` (`monitor.go:140-149`). -/
def pageBounds (offset limit totalClients : Int) : Int × Int :=
  let minoff := offset
  let maxoff := wrap64 (offset + limit)
  (if minoff > totalClients then totalClients else minoff,
    if maxoff > totalClients then totalClients else maxoff)

/-- `pairs[minoff:maxoff]`. -/
def slicePairs (pairs : List Pair) (minoff maxoff : Int) : Option (List Pair) :=
  if 0 ≤ minoff ∧ minoff ≤ maxoff ∧ maxoff ≤ pairs.length then
    some ((pairs.drop minoff.toNat).take (maxoff - minoff).toNat)
  else none

/-- What a listing tells of a client (`monitor.go:158-239`); the field that was sorted by is the
value that was sorted by. -/
def connInfo (q : ConnzQuery) (opt : SortOpt) (now : Int) (tlsRequired : Bool) (pair : Pair) :
    ConnInfo :=
  let client := pair.key
  let tls := if tlsRequired then client.tls.getD ([], []) else ([], [])
  let remote := client.remote.getD ([], 0)
  let ci : ConnInfo := {
    cid := client.cid
    ip := remote.1
    port := remote.2
    start := client.start
    lastActivity := client.last
    uptime := timeSub now client.start
    idle := timeSub now client.last
    pending := client.pending
    inMsgs := client.inMsgs
    outMsgs := client.outMsgs
    inBytes := client.inBytes
    outBytes := client.outBytes
    numSubs := client.subs.length % 2 ^ 32
    name := client.name
    lang := client.lang
    version := client.version
    tlsVersion := tls.1
    tlsCipher := tls.2
    authorizedUser := if q.auth = 1 then client.username else []
    subs := if q.subs = 1 then client.subs else [] }
  match opt with
  | .byCid => ci
  | .bySubs => { ci with numSubs := (pair.val % 2 ^ 32).toNat }
  | .byPending => { ci with pending := pair.val }
  | .byOutMsgs => { ci with outMsgs := pair.val }
  | .byInMsgs => { ci with inMsgs := pair.val }
  | .byOutBytes => { ci with outBytes := pair.val }
  | .byInBytes => { ci with inBytes := pair.val }
  | .byLast => { ci with lastActivity := pair.val }
  | .byIdle => { ci with idle := pair.val }

/-- The clients in the order of the listing (`monitor.go:101-138`). -/
def sortedPairs (order : PairsSort) (opt : SortOpt) (now : Int) (clients : List ConnClient) :
    List Pair :=
  let pairs := clients.map fun client => ⟨client, opt.value now client⟩
  if 0 < clients.length then order.sort (opt ≠ .byCid) pairs else pairs

/-- The answer to a request. -/
inductive ConnzResponse where
  | badRequest (text : Bytes)
  | listed (c : Connz)
  deriving DecidableEq

/-- `HandleConnz` (`monitor.go:67-248`); `none` is a panic. -/
def handleConnz (order : PairsSort) (now : Int) (tlsRequired : Bool) (clients : List ConnClient)
    (q : ConnzQuery) : Option ConnzResponse :=
  match SortOpt.ofText q.sort with
  | none => some (.badRequest (bytesOf "Invalid sorting option: " ++ q.sort))
  | some opt =>
      let totalClients : Int := clients.length
      let (minoff, maxoff) := pageBounds q.offset q.limitOrDefault totalClients
      (slicePairs (sortedPairs order opt now clients) minoff maxoff).map fun pairs =>
        .listed {
          now := now
          numConns := pairs.length
          total := totalClients
          offset := q.offset
          limit := q.limitOrDefault
          conns := pairs.map (connInfo q opt now tlsRequired) }

end Hnatsd.Server
