import Hnatsd.Misc.Assoc
import Hnatsd.Misc.Bytes
import Hnatsd.Misc.Runs

/-!
# The checkpoint store of a peer

`BoltSaver` keeps the last value set for each key, its metadata in one bucket and its bytes in
another. Sets reach it from other servers, over gRPC and a channel or over NATS, and from the peer
itself; each runs under the saver's lock, so a run is a list of them.

A bolt transaction is applied whole or not at all; whether it commits is given. `Compact`, which
may follow a set, copies the buckets and keeps their contents. Times are in nanoseconds and in UTC.
The hash of values is a parameter.
-/

namespace Hnatsd.Peers
open Misc

/-- `api.KeyInv` (`api.go:31-38`). -/
structure KeyInv where
  key : Bytes
  who : Bytes := []
  when : Int := 0
  size : Nat := 0
  blake2b : Bytes := []
  val : Bytes := []
  deriving DecidableEq

/-- `BoltSaver` (`boltsaver.go:18-28`): its name and its two buckets. -/
structure BoltSaver where
  whoami : Bytes
  metabuck : List (Bytes × KeyInv)
  databuck : List (Bytes × Bytes)
  deriving DecidableEq

namespace BoltSaver

/-- `NewBoltSaver` (`boltsaver.go:37-70`) on a new file. -/
def newBoltSaver (who : Bytes) : BoltSaver := ⟨who, [], []⟩

section Set

variable (blake2bOfBytes : Bytes → Bytes)

/-- What `LocalSet` fills in before it saves (`boltsaver.go:106-108`). -/
def fill (b : BoltSaver) (ki : KeyInv) : KeyInv :=
  { ki with size := ki.val.length, blake2b := blake2bOfBytes ki.val, who := b.whoami }

/-- `LocalSet` (`boltsaver.go:102-152`). No time is looked at. -/
def localSet (b : BoltSaver) (ki : KeyInv) (commits : Bool) : BoltSaver :=
  let ki := b.fill blake2bOfBytes ki
  if commits then
    { b with
      metabuck := assocSet b.metabuck ki.key { ki with val := [] }
      databuck := assocSet b.databuck ki.key ki.val }
  else b

end Set

/-- The text of the error for a missing key (`boltsaver.go:184`). -/
def missingKey (key : Bytes) : Bytes :=
  bytesOf "key '" ++ key ++ bytesOf "' in bucket 'meta' does not exist"

/-- `LocalGet` (`boltsaver.go:154-207`). -/
def localGet (b : BoltSaver) (key : Bytes) (includeValue : Bool) : Except Bytes KeyInv :=
  match b.metabuck.lookup key with
  | none => .error (missingKey key)
  | some info => .ok {
      key := key
      who := b.whoami
      when := info.when
      size := info.size
      blake2b := info.blake2b
      val := if includeValue then (b.databuck.lookup key).getD [] else [] }

end BoltSaver

/-- How a set reaches the peer: from the channel of `BackgroundReceiveBcastSetAndWriteToBolt`, from
the NATS subject, or from the peer itself. -/
inductive Via where
  | background
  | handler
  | own
  deriving DecidableEq

structure Arrival where
  via : Via
  ki : KeyInv
  commits : Bool := true
  deriving DecidableEq

/-- One set that reaches the peer (`bcast.go:338-370`, `peer.go:324-342`). The background receiver
panics on an empty payload; a failed set is only logged. -/
def receive (blake2bOfBytes : Bytes → Bytes) (b : BoltSaver) (a : Arrival) : Option BoltSaver :=
  if a.via = .background ∧ a.ki.val = [] then none
  else some (b.localSet blake2bOfBytes a.ki a.commits)

end Hnatsd.Peers
