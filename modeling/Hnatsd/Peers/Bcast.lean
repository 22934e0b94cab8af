import Hnatsd.Misc.OrderedSet
import Hnatsd.Peers.BoltSaver

/-!
# Broadcast gets

A get is published to all peers; each peer it is meant for answers with what its store has. Replies
without the value come back over NATS, on an inbox of the request's own. Replies with the value come
back over gRPC: a handler of the asking peer waits, for each of them, until somebody reads the
channel that all requests share, so the asking peer is a state machine.

The replies to a request over NATS are given as the list in which the reading loop gets them; what
is missing at its end is a timeout. Whether the list of peers is known, and how long it is, is given
with each call.
-/

namespace Hnatsd.Peers
open Misc

section Sorter

/-- `bytes.Compare`, and the comparison of strings. -/
def bytesCompare (a b : Bytes) : Int := if a < b then -1 else if a = b then 0 else 1

/-- `compare` (`inv.go:10-29`). -/
def compare (a b : KeyInv) : Int :=
  if bytesCompare a.key b.key ≠ 0 then bytesCompare a.key b.key
  else if a.when ≠ b.when then (if a.when < b.when then -1 else 1)
  else bytesCompare a.who b.who

/-- `Inventory.Upsert` (`inv.go:35-37`): the tree leaves an equal item as it is. -/
def upsert (sorter : List KeyInv) (ki : KeyInv) : List KeyInv := treeInsert compare ki sorter

end Sorter

/-- `api.BcastGetRequest` (`api.go:45-62`) without the address for the reply. -/
structure BcastGetRequest where
  key : Bytes
  who : Bytes
  includeValue : Bool
  deriving DecidableEq

/-- `api.BcastGetReply` (`api.go:64-68`); `ki` is a pointer. -/
structure BcastGetReply where
  fromID : Bytes
  ki : Option KeyInv
  err : Bytes
  deriving DecidableEq

/-- `ServerHandleBcastGet` (`bcast.go:137-199`) of the peer with an ID and a store: the reply it sends,
if the request is meant for it. -/
def serverHandleBcastGet (id : Bytes) (saver : BoltSaver) (bgr : BcastGetRequest) :
    Option BcastGetReply :=
  if bgr.who ≠ [] ∧ ¬(bgr.who = id ∨ bgr.who = saver.whoami) then none
  else
    match saver.localGet bgr.key bgr.includeValue with
    | .error err => some { fromID := id, ki := none, err := err }
    | .ok ki => some { fromID := id, ki := some { ki with who := id }, err := [] }

/-- A peer: `loc.ID`, which is the ID its server gave itself, and its store. -/
structure Peer where
  id : Bytes
  saver : BoltSaver
  named : id ≠ []

/-- How a get fails. `missingReplyKi` is the panic on a reply with neither an error nor a value. -/
inductive GetError where
  | timedOut
  | shutdown
  | publish
  | reply (err : Bytes)
  | ownStore (err : Bytes)
  | missingReplyKi
  deriving DecidableEq

/-- What both reading loops do with a reply (`bcast.go:70-75` and `113-118`). -/
def takeReply (sorter : List KeyInv) (bgReply : BcastGetReply) : Except GetError (List KeyInv) :=
  if bgReply.err ≠ [] then .error (.reply bgReply.err)
  else
    match bgReply.ki with
    | none => .error .missingReplyKi
    | some ki => .ok (upsert sorter ki)

/-- The reading loop for `numPeers` replies over NATS (`bcast.go:97-120`). -/
def collect : Nat → List BcastGetReply → List KeyInv → Except GetError (List KeyInv)
  | 0, _, sorter => .ok sorter
  | _ + 1, [], _ => .error .timedOut
  | numPeers + 1, bgReply :: rest, sorter =>
      match takeReply sorter bgReply with
      | .error e => .error e
      | .ok sorter => collect numPeers rest sorter

/-- `RequestChanLen` (`bcast.go:258`): the capacity of the channel of a request. -/
def requestChanLen : Nat := 8

/-- What happens at the channel of a request: a reply arrives on the connection, or the loop reads. -/
inductive ChanEvent where
  | arrive (reply : BcastGetReply)
  | read
  deriving DecidableEq

/-- The replies that the loop gets, in order, when `queued` are in the channel: the NATS client drops
a message for a full channel (`nats.go:1523-1528`). -/
def admitted : Nat → List ChanEvent → List BcastGetReply
  | _, [] => []
  | queued, .arrive reply :: events =>
      if queued < requestChanLen then reply :: admitted (queued + 1) events
      else admitted queued events
  | queued, .read :: events => admitted (queued - 1) events

/-- Does the call do a local get (`bcast.go:18`)? `members` is the length of the peer list. -/
def asksLocally (id : Bytes) (members : Option Nat) (who : Bytes) : Bool :=
  match members with
  | none => true
  | some n => n ≤ 1 || who = id

/-- The local get of a call (`bcast.go:21-26`). -/
def getLocally (saver : BoltSaver) (key : Bytes) (includeValue : Bool) :
    Except GetError (List KeyInv) :=
  match saver.localGet key includeValue with
  | .error err => .error (.ownStore err)
  | .ok ki => .ok [ki]

/-- `ClientInitiateBcastGet` (`bcast.go:14-131`) without the value. -/
def Peer.clientInitiateBcastGet (peer : Peer) (members : Option Nat) (key who : Bytes)
    (replies : List BcastGetReply) : Except GetError (List KeyInv) :=
  if asksLocally peer.id members who then getLocally peer.saver key false
  else collect (if who ≠ [] then 1 else members.getD 0) replies []

/-- `GetLatest` without the value (`bcast.go:209-220`). -/
def Peer.getLatest (peer : Peer) (members : Option Nat) (key : Bytes)
    (replies : List BcastGetReply) : Except GetError KeyInv :=
  match peer.clientInitiateBcastGet members key [] replies with
  | .error e => .error e
  | .ok kis =>
      match kis.getLast? with
      | none => .error .missingReplyKi
      | some ki => .ok ki

/-- What tells a peer apart: `loc.ID` and the name of its store. -/
structure PeerName where
  id : Bytes
  whoami : Bytes
  deriving DecidableEq

/-- Is a request for `who` meant for the peer? -/
def PeerName.Named (p : PeerName) (who : Bytes) : Prop := who = p.id ∨ who = p.whoami

instance (p : PeerName) (who : Bytes) : Decidable (p.Named who) :=
  inferInstanceAs (Decidable (_ ∨ _))

/-- A call in its reading loop: `left` replies are missing. -/
structure Call where
  req : BcastGetRequest
  left : Nat
  sorter : List KeyInv
  deriving DecidableEq

/-- The gRPC side of an asking peer. `asked` are the requests that peers have not answered yet,
`waiting` the replies whose handlers are blocked on the channel `ServerGotGetReply`; `results` are
the calls that have ended. -/
structure Getter where
  self : PeerName
  cluster : List PeerName
  asked : List (BcastGetRequest × PeerName)
  waiting : List BcastGetReply
  call : Option Call
  stopping : Bool
  crashed : Bool
  results : List (BcastGetRequest × Except GetError (List KeyInv))

namespace Getter

def newGetter (self : PeerName) (cluster : List PeerName) : Getter :=
  ⟨self, cluster, [], [], none, false, false, []⟩

inductive Action where
  /-- A call; `store` is the peer's own store at that moment. -/
  | get (key who : Bytes) (members : Option Nat) (published : Bool) (store : BoltSaver)
  /-- The `i`-th asked peer answers from its store, and the reply is complete at the asker. -/
  | arrive (i : Nat) (store : BoltSaver)
  /-- The running call reads the channel, and the `j`-th blocked handler goes on. -/
  | read (j : Nat)
  | timeout
  | stop
  | shutdown
  /-- A blocked handler gives up at a shutdown. -/
  | giveUp (j : Nat)

/-- The call ends. -/
def finish (s : Getter) (req : BcastGetRequest) (result : Except GetError (List KeyInv)) : Getter :=
  { s with call := none, results := s.results ++ [(req, result)] }

/-- The published request reaches the peers it is meant for. -/
def publish (s : Getter) (req : BcastGetRequest) : Getter :=
  { s with asked := s.asked ++
      (s.cluster.filter fun p => req.who = [] ∨ p.Named req.who).map fun p => (req, p) }

/-- `ClientInitiateBcastGet` with the value (`bcast.go:14-82`), `ServerHandleBcastGet` at the other
peers, and `SendFile` (`gserv/server.go:198-215`), whose log line dereferences `reply.Ki`. -/
def step (s : Getter) (a : Action) : Option Getter :=
  if s.crashed then none
  else
    match a with
    | .get key who members published store =>
        let req := ⟨key, who, true⟩
        if s.call.isSome then none
        else if asksLocally s.self.id members who then
          some (s.finish req (getLocally { store with whoami := s.self.whoami } key true))
        else if published then
          some { s.publish req with
            call := some ⟨req, if who ≠ [] then 1 else members.getD 0, []⟩ }
        else some (s.finish req (.error .publish))
    | .arrive i store =>
        match s.asked[i]? with
        | none => none
        | some (req, p) =>
            match serverHandleBcastGet p.id { store with whoami := p.whoami } req with
            | none => none
            | some reply =>
                let s := { s with asked := s.asked.eraseIdx i }
                if reply.ki = none then some { s with crashed := true }
                else some { s with waiting := s.waiting ++ [reply] }
    | .read j =>
        match s.call, s.waiting[j]? with
        | some c, some bgReply =>
            let s := { s with waiting := s.waiting.eraseIdx j }
            match takeReply c.sorter bgReply with
            | .error e => some (s.finish c.req (.error e))
            | .ok sorter =>
                if c.left ≤ 1 then some (s.finish c.req (.ok sorter))
                else some { s with call := some ⟨c.req, c.left - 1, sorter⟩ }
        | _, _ => none
    | .timeout => s.call.map fun c => s.finish c.req (.error .timedOut)
    | .stop => some { s with stopping := true }
    | .shutdown =>
        if s.stopping then s.call.map fun c => s.finish c.req (.error .shutdown) else none
    | .giveUp j =>
        if s.stopping ∧ j < s.waiting.length then
          some { s with waiting := s.waiting.eraseIdx j }
        else none

end Getter

end Hnatsd.Peers
