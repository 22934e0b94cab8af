import Hnatsd.Peers.Bcast

/-!
# The inventory of a peer

`compare` and `Inventory` (`inv.go`) for times in any location. `==` on times compares the instants
and the locations, `Before` the instants only.
-/

namespace Hnatsd.Peers
open Misc

/-- A `time.Time`: an instant, and a location by its pointer. UTC is 0. -/
structure Time where
  instant : Int
  loc : Nat
  deriving DecidableEq

def Time.before (t u : Time) : Bool := t.instant < u.instant

/-- `UTC`. -/
def Time.utc (t : Time) : Time := { t with loc := 0 }

/-- An `api.KeyInv` whose time is in some location. -/
structure Zoned where
  ki : KeyInv
  loc : Nat
  deriving DecidableEq

namespace Zoned

def when (a : Zoned) : Time := ⟨a.ki.when, a.loc⟩

/-- `compare` (`inv.go:10-29`). -/
def compare (a b : Zoned) : Int :=
  let cmp := bytesCompare a.ki.key b.ki.key
  if cmp ≠ 0 then cmp
  else if a.when ≠ b.when then
    if a.when.before b.when then -1 else 1
  else if a.ki.who = b.ki.who then 0
  else if a.ki.who < b.ki.who then -1
  else 1

/-- `Inventory.Upsert` (`inv.go:35-37`). -/
def upsert (t : List Zoned) (j : Zoned) : List Zoned := treeInsert compare j t

/-- What is done to the time of a reply (`bcast.go:77` and `118`). -/
def toUTC (a : Zoned) : Zoned := { a with loc := a.when.utc.loc }

end Zoned

end Hnatsd.Peers
