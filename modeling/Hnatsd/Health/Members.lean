import Hnatsd.Health.Agent

/-!
# Member sets in memory

Member sets are pointers to trees: a clone is a new tree, and deletions are made in it while another
tree is read. The locks of the trees are left out.
-/

namespace Hnatsd.Health
open Misc

/-- The items `AscendLessThan` calls its function for, with an empty location as the bound. -/
def Ranktree.ascend (t : Ranktree) : List AgentLoc :=
  t.items.filter fun loc => agentLocLessThan loc {}

/-- The trees in memory; a pointer is an index. -/
abbrev Trees := List Ranktree

namespace Trees

def tree (h : Trees) (ref : Nat) : Ranktree := h.getD ref .newRanktree

/-- `newRanktree` as a new tree in memory. -/
def alloc (h : Trees) : Nat × Trees := (h.length, h ++ [.newRanktree])

/-- `ranktree.clone` (`btree.go:89-100`). -/
def clone (h : Trees) (t : Nat) : Nat × Trees :=
  let (r, h) := h.alloc
  (r, (h.tree t).ascend.foldl (fun h cur => h.modify r fun tree => tree.insert cur) h)

/-- `setDiff` (`btree.go:116-131`): `a` minus `b`. -/
def setDiff (h : Trees) (a b : Nat) : Nat × Trees :=
  let (res, h) := h.clone a
  (res, (h.tree b).ascend.foldl (fun h v => h.modify res fun tree => tree.deleteSloc v) h)

/-- What a heartbeat finds out about its members (`health.go:482-484`). -/
structure Changes where
  lost : Nat
  gained : Nat
  same : Bool

def memberChanges (h : Trees) (prevMember curMember : Nat) : Changes × Trees :=
  let (lost, h) := h.setDiff prevMember curMember
  let (gained, h) := h.setDiff curMember prevMember
  (⟨lost, gained, (h.tree prevMember).setsEqual (h.tree curMember)⟩, h)

/-- `members.setEmpty` (`setutil.go:46-48`). -/
def setEmpty (h : Trees) (m : Nat) : Bool := (h.tree m).items.isEmpty

end Trees

end Hnatsd.Health
