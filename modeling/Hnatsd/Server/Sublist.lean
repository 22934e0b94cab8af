import Hnatsd.Misc.Assoc
import Hnatsd.Misc.Bytes
import Hnatsd.Misc.Slice

/-!
# The subject routing trie

`server/sublist.go`. The trie is kept as a value: each node is reached through one parent only,
so the pointer comparisons of `pruneNode` say which of the three kinds of child the node is. The
queue groups of a node are slices over `Sublist.heap`, because lookups hand them out and append
to them; the `psubs` of a node never leave it and are kept as lists. Statistics that nothing here
reads (`matches`, `cacheHits`) are left out.
-/

namespace Hnatsd.Server
open Misc

/-- `pwc`, `fwc` and `btsep` (`sublist.go:18-23`). -/
def pwc : UInt8 := 42
def fwc : UInt8 := 62
def btsep : UInt8 := 46

/-- `slCacheMax` (`sublist.go:32`). -/
def slCacheMax : Nat := 1024

/-- `subscription` (`client.go:164-171`), less the counters `nm` and `max`. `ptr` is the address
of the object: `==` on `*subscription` is equality here. -/
structure Subscription where
  ptr : Nat
  subject : Bytes
  queue : Option Bytes := none
  client : Nat := 0
  sid : Bytes := []
  deriving DecidableEq

inductive SublistError where
  | invalidSubject
  | notFound
  deriving DecidableEq

/-- The memory of queue groups; a cell holds a `*subscription` or nil. -/
abbrev SubHeap := Heap (Option Subscription)

/-- `SublistResult` (`sublist.go:35-38`). -/
structure SublistResult where
  psubs : List Subscription := []
  qsubs : List Slice := []

/- `node` and `level` (`sublist.go:54-65`). -/
mutual
inductive Node where
  | mk (next : Option Level) (psubs : List Subscription) (qsubs : List Slice)
inductive Level where
  | mk (nodes : List (Bytes × Node)) (pwc fwc : Option Node)
end

namespace Node

def next : Node → Option Level
  | mk next _ _ => next

def psubs : Node → List Subscription
  | mk _ psubs _ => psubs

def qsubs : Node → List Slice
  | mk _ _ qsubs => qsubs

/-- `n.next = l`. -/
def setNext (n : Node) (l : Level) : Node := mk (some l) n.psubs n.qsubs

/-- `newNode` (`sublist.go:68`). -/
def newNode : Node := mk none [] []

end Node

/-- The child a token selects: `switch t[0]` in `Insert` and `Remove`. -/
inductive Key where
  | pwc
  | fwc
  | lit (token : Bytes)
  deriving DecidableEq

def Key.ofToken (t : Bytes) : Key :=
  if t.head? = some Server.pwc then .pwc
  else if t.head? = some Server.fwc then .fwc
  else .lit t

namespace Level

def nodes : Level → List (Bytes × Node)
  | mk nodes _ _ => nodes

def pwc : Level → Option Node
  | mk _ pwc _ => pwc

def fwc : Level → Option Node
  | mk _ _ fwc => fwc

/-- `newLevel` (`sublist.go:74`). -/
def newLevel : Level := mk [] none none

def get (l : Level) : Key → Option Node
  | .pwc => l.pwc
  | .fwc => l.fwc
  | .lit t => l.nodes.lookup t

def set (l : Level) (k : Key) (n : Node) : Level :=
  match k with
  | .pwc => mk l.nodes (some n) l.fwc
  | .fwc => mk l.nodes l.pwc (some n)
  | .lit t => mk (assocSet l.nodes t n) l.pwc l.fwc

/-- `pruneNode` (`sublist.go:379-390`). -/
def pruneNode (l : Level) (k : Key) : Level :=
  match k with
  | .pwc => mk l.nodes none l.fwc
  | .fwc => mk l.nodes l.pwc none
  | .lit t => mk (assocErase l.nodes t) l.pwc l.fwc

/-- `numNodes` (`sublist.go:404-413`). -/
def numNodes (l : Level) : Nat :=
  l.nodes.length + (if l.pwc.isSome then 1 else 0) + (if l.fwc.isSome then 1 else 0)

end Level

/-- `isEmpty` (`sublist.go:394-401`). -/
def Node.isEmpty (n : Node) : Bool :=
  n.psubs.isEmpty && n.qsubs.isEmpty &&
    (match n.next with
      | none => true
      | some l => l.numNodes == 0)

/-- The token loop at the head of `Insert`, `Match` and `Remove` (`sublist.go:86-96`). -/
def tokens (subject : Bytes) : List Bytes := subject.splitOn btsep

/-- `findQSliceForSub` (`sublist.go:264-274`). -/
def findQSliceForSub (h : SubHeap) (sub : Subscription) (qsl : List Slice) : Option Nat :=
  if sub.queue = none then none
  else qsl.findIdx? fun qr =>
    match h.read qr with
    | some first :: _ => bytesEqual sub.queue first.queue
    | _ => false

section Update

variable (g : Grow)

/-- The end of `Insert` (`sublist.go:135-144`): add `sub` to the node its path leads to. -/
def addToNode (h : SubHeap) (sub : Subscription) (n : Node) : SubHeap × Node :=
  if sub.queue = none then (h, .mk n.next (n.psubs ++ [sub]) n.qsubs)
  else
    match findQSliceForSub h sub n.qsubs with
    | some i =>
        match n.qsubs[i]? with
        | some qr =>
            let (h, qr) := h.append g none qr [some sub]
            (h, .mk n.next n.psubs (n.qsubs.set i qr))
        | none => (h, n)
    | none =>
        let (h, qr) := h.make none [some sub] 1
        (h, .mk n.next n.psubs (n.qsubs ++ [qr]))

/-- The descent of `Insert` (`sublist.go:100-134`). Nodes created on the way stay when a later
token is refused. -/
def insertAt (sub : Subscription) : List Bytes → Bool → SubHeap → Level → SubHeap × Level × Bool
  | [], _, h, l => (h, l, true)
  | t :: ts, sfwc, h, l =>
      if t = [] ∨ sfwc then (h, l, false)
      else
        let k := Key.ofToken t
        let n := (l.get k).getD .newNode
        let next := n.next.getD .newLevel
        match ts with
        | [] =>
            let (h, n) := addToNode g h sub (n.setNext next)
            (h, l.set k n, true)
        | t' :: ts =>
            let (h, next, ok) := insertAt sub (t' :: ts) (k = .fwc) h next
            (h, l.set k (n.setNext next), ok)

/-- `removeSubFromList` (`sublist.go:416-427`) on the list a slice shows: the last element takes
the place of the removed one. -/
def removeSubFromList (sub : Subscription) (sl : List Subscription) : Option (List Subscription) :=
  (sl.findIdx? (· = sub)).map fun i => (sl.set i (sl.getLastD sub)).dropLast

/-- `shrinkAsNeeded` (`sublist.go:458-470`). -/
def shrinkAsNeeded (h : SubHeap) (sl : Slice) : SubHeap × Slice :=
  if sl.cap ≤ 8 then (h, sl)
  else if sl.cap < 2 * (sl.cap - sl.len) then h.make none (h.read sl) (g.cap 0 sl.len)
  else (h, sl)

/-- `removeSubFromList` in place: the freed cell is set to nil. -/
def removeSubFromSlice (h : SubHeap) (sub : Subscription) (sl : Slice) :
    Option (SubHeap × Slice) :=
  match (h.read sl).findIdx? (· = some sub) with
  | none => none
  | some i =>
      let last := sl.len - 1
      let h := h.write sl.arr (sl.off + i) [((h.read sl).getLastD none)]
      let h := h.write sl.arr (sl.off + last) [none]
      have fits : last ≤ sl.cap := Nat.le_trans (Nat.sub_le _ _) sl.len_le_cap
      some (shrinkAsNeeded g h { sl with len := last, len_le_cap := fits })

/-- `removeFromNode` (`sublist.go:430-454`); `none` when `sub` is not there. -/
def removeFromNode (h : SubHeap) (sub : Subscription) (n : Node) : Option (SubHeap × Node) :=
  if sub.queue = none then
    (removeSubFromList sub n.psubs).map fun psubs => (h, .mk n.next psubs n.qsubs)
  else
    match findQSliceForSub h sub n.qsubs with
    | none => none
    | some i =>
        match n.qsubs[i]? with
        | none => none
        | some qr =>
            (removeSubFromSlice g h sub qr).map fun (h, qr) =>
              let qsubs := n.qsubs.set i qr
              if qr.len = 0 then (h, .mk n.next n.psubs (qsubs.set i (qsubs.getLastD qr)).dropLast)
              else (h, .mk n.next n.psubs qsubs)

/-- `removeFromNode` as the source writes it: the node's lists are assigned whether or not `sub` was
found, and the group is dropped when it shows nothing afterwards. -/
def removeFromNodeInPlace (h : SubHeap) (sub : Subscription) (n : Node) : SubHeap × Node × Bool :=
  if sub.queue = none then
    match removeSubFromList sub n.psubs with
    | some psubs => (h, .mk n.next psubs n.qsubs, true)
    | none => (h, .mk n.next n.psubs n.qsubs, false)
  else
    match findQSliceForSub h sub n.qsubs with
    | none => (h, n, false)
    | some i =>
        match n.qsubs[i]? with
        | none => (h, n, false)
        | some qr =>
            let (h, qr, found) := match removeSubFromSlice g h sub qr with
              | some (h, qr) => (h, qr, true)
              | none => (h, qr, false)
            let qsubs := n.qsubs.set i qr
            if qr.len = 0 then
              (h, .mk n.next n.psubs (qsubs.set i (qsubs.getLastD qr)).dropLast, found)
            else (h, .mk n.next n.psubs qsubs, found)

/-- The descent of `Remove` and the pruning on the way back (`sublist.go:328-371`). -/
def removeAt (sub : Subscription) :
    List Bytes → Bool → SubHeap → Option Level → Except SublistError (SubHeap × Level)
  | [], _, _, _ => .error .notFound
  | t :: ts, sfwc, h, l =>
      if t = [] ∨ sfwc then .error .invalidSubject
      else
        match l with
        | none => .error .notFound
        | some l =>
            let k := Key.ofToken t
            match ts with
            | [] =>
                match (l.get k).bind (removeFromNode g h sub) with
                | none => .error .notFound
                | some (h, n) => .ok (h, if n.isEmpty then l.pruneNode k else l.set k n)
            | t' :: ts =>
                match removeAt sub (t' :: ts) (k = .fwc) h ((l.get k).bind Node.next) with
                | .error e => .error e
                | .ok (h, next) =>
                    let n := ((l.get k).getD .newNode).setNext next
                    .ok (h, if n.isEmpty then l.pruneNode k else l.set k n)

/-- `addNodeToResults` (`sublist.go:245-258`). A group that is new to the result enters it as the
node's own slice. -/
def addQueueToResults (h : SubHeap) (qsubs : List Slice) (qr : Slice) : SubHeap × List Slice :=
  match h.read qr with
  | some first :: rest =>
      match findQSliceForSub h first qsubs with
      | some i =>
          match qsubs[i]? with
          | some group =>
              let (h, group) := h.append g none group (some first :: rest)
              (h, qsubs.set i group)
          | none => (h, qsubs)
      | none => (h, qsubs ++ [qr])
  | _ => (h, qsubs)

def addNodeToResults (n : Node) (hr : SubHeap × SublistResult) : SubHeap × SublistResult :=
  let (h, r) := hr
  let (h, qsubs) := n.qsubs.foldl (fun (h, qsubs) qr => addQueueToResults g h qsubs qr) (h, r.qsubs)
  (h, ⟨r.psubs ++ n.psubs, qsubs⟩)

def addOptNode (n : Option Node) (hr : SubHeap × SublistResult) : SubHeap × SublistResult :=
  match n with
  | some n => addNodeToResults g n hr
  | none => hr

/-- `matchLevel` (`sublist.go:277-302`). The loop goes on in the literal child; after the last
token the literal child and then the `*` child are added. -/
def matchLevel : Option Level → List Bytes → SubHeap × SublistResult → SubHeap × SublistResult
  | none, _, hr => hr
  | some _, [], hr => hr
  | some l, t :: ts, hr =>
      let hr := addOptNode g l.fwc hr
      let hr := matchLevel (l.pwc.bind Node.next) ts hr
      let n := l.nodes.lookup t
      match ts with
      | [] => addOptNode g l.pwc (addOptNode g n hr)
      | t' :: ts => matchLevel (n.bind Node.next) (t' :: ts) hr

end Update

/-- `matchLiteral` (`sublist.go:610-640`); `literal` is what is left of it from index `li` on. -/
def matchLiteral : Bytes → Bytes → Bool
  | literal, [] => literal.isEmpty
  | [], _ :: _ => false
  | c :: literal, b :: subject =>
      if b = pwc then matchLiteral ((c :: literal).dropWhile (· ≠ btsep)) subject
      else if b = fwc then true
      else if b ≠ c then false
      else matchLiteral literal subject

mutual

/-- `visitLevel` (`sublist.go:536-566`). -/
def visitLevel : Option Level → Nat → Nat
  | none, depth => depth
  | some (.mk nodes pwc fwc), depth =>
      if (Level.mk nodes pwc fwc).numNodes = 0 then depth
      else
        visitChild fwc (depth + 1)
          (visitChild pwc (depth + 1) (visitNodes nodes (depth + 1) (depth + 1)))

/-- Its loop over the literal children, with the maximum so far. -/
def visitNodes : List (Bytes × Node) → Nat → Nat → Nat
  | [], _, maxDepth => maxDepth
  | (_, .mk next _ _) :: nodes, depth, maxDepth =>
      visitNodes nodes depth (max maxDepth (visitLevel next depth))

/-- Its step for a wildcard child. -/
def visitChild : Option Node → Nat → Nat → Nat
  | none, _, maxDepth => maxDepth
  | some (.mk next _ _), depth, maxDepth => max maxDepth (visitLevel next depth)

end

/-- `Sublist` (`sublist.go:41-51`). -/
structure Sublist where
  genid : UInt64
  inserts : UInt64
  removes : UInt64
  cache : List (Bytes × SublistResult)
  root : Level
  count : UInt32
  heap : SubHeap

namespace Sublist

/-- `NewSublist` (`sublist.go:79`). -/
def newSublist : Sublist := ⟨0, 0, 0, [], .newLevel, 0, Heap.empty⟩

variable (g : Grow)

/-- `copyResult` (`sublist.go:157-165`). -/
def copyResult (h : SubHeap) (r : SublistResult) : SubHeap × SublistResult :=
  let (h, qsubs) := r.qsubs.foldl (fun (h, qsubs) qr =>
    let (h, nqr) := h.make none (h.read qr) (g.cap 0 qr.len)
    (h, qsubs ++ [nqr])) (h, [])
  (h, ⟨r.psubs, qsubs⟩)

/-- The body of `addToCache` for one matching entry (`sublist.go:173-182`). -/
def addToResult (h : SubHeap) (sub : Subscription) (r : SublistResult) :
    SubHeap × SublistResult :=
  let (h, nr) := copyResult g h r
  if sub.queue = none then (h, ⟨nr.psubs ++ [sub], nr.qsubs⟩)
  else
    match findQSliceForSub h sub nr.qsubs with
    | some i =>
        match nr.qsubs[i]? with
        | some qr =>
            let (h, qr) := h.append g none qr [some sub]
            (h, ⟨nr.psubs, nr.qsubs.set i qr⟩)
        | none => (h, nr)
    | none =>
        let (h, qr) := h.make none [some sub] 1
        (h, ⟨nr.psubs, nr.qsubs ++ [qr]⟩)

/-- `addToCache` (`sublist.go:169-186`). -/
def addToCache (subject : Bytes) (sub : Subscription) (h : SubHeap) :
    List (Bytes × SublistResult) → SubHeap × List (Bytes × SublistResult)
  | [] => (h, [])
  | (k, r) :: cache =>
      let (h, r) := if matchLiteral k subject then addToResult g h sub r else (h, r)
      let (h, cache) := addToCache subject sub h cache
      (h, (k, r) :: cache)

/-- `removeFromCache` (`sublist.go:190-199`). -/
def removeFromCache (subject : Bytes) (cache : List (Bytes × SublistResult)) :
    List (Bytes × SublistResult) :=
  cache.filter fun (k, _) => !matchLiteral k subject

/-- `Insert` (`sublist.go:84-154`). -/
def insert (s : Sublist) (sub : Subscription) : Sublist × Option SublistError :=
  match insertAt g sub (tokens sub.subject) false s.heap s.root with
  | (h, root, false) => ({ s with root := root, heap := h }, some .invalidSubject)
  | (h, root, true) =>
      let (h, cache) := addToCache g sub.subject sub h s.cache
      ({ s with
          genid := s.genid + 1
          inserts := s.inserts + 1
          count := s.count + 1
          cache := cache
          root := root
          heap := h }, none)

/-- `Remove` (`sublist.go:312-376`). -/
def remove (s : Sublist) (sub : Subscription) : Sublist × Option SublistError :=
  match removeAt g sub (tokens sub.subject) false s.heap (some s.root) with
  | .error e => (s, some e)
  | .ok (h, root) =>
      ({ s with
          genid := s.genid + 1
          removes := s.removes + 1
          count := s.count - 1
          cache := removeFromCache sub.subject s.cache
          root := root
          heap := h }, none)

/-- The lookup `Match` makes when the cache has no entry (`sublist.go:213-228`). -/
def lookup (s : Sublist) (subject : Bytes) : SubHeap × SublistResult :=
  matchLevel g (some s.root) (tokens subject) (s.heap, {})

/-- `Match` (`sublist.go:203-242`). `pick` chooses the entry that is evicted: the iteration order
of a Go map is arbitrary. -/
def matchSubject (s : Sublist) (subject : Bytes) (pick : Nat) : Sublist × SublistResult :=
  match s.cache.lookup subject with
  | some r => (s, r)
  | none =>
      let (h, r) := s.lookup g subject
      let cache := assocSet s.cache subject r
      let cache :=
        if cache.length > slCacheMax then
          match cache[pick % cache.length]? with
          | some (k, _) => assocErase cache k
          | none => cache
        else cache
      ({ s with cache := cache, heap := h }, r)

/-- `numLevels` (`sublist.go:530-532`). -/
def numLevels (s : Sublist) : Nat := visitLevel (some s.root) 0

end Sublist

end Hnatsd.Server
