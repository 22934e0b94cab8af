import Hnatsd.Misc.Bytes
import Hnatsd.Misc.Int64
import Hnatsd.Misc.RankedTree

/-!
# Agent locations and the rank tree

`AgentLocLessThan` is the order in which agents are preferred as leaders. It is that of a key: the
rank, then what tells two agents apart, then the later lease; locations without an ID are all equal
and come last. `ranktree` keeps locations sorted by it, one for each key.

A `time.Time` is its distance from the Unix epoch in nanoseconds. `UnixNano` is that number in 64
bits.
-/

namespace Hnatsd.Health
open Misc

/-- `time.Time{}`: the first of January of the year 1. -/
def zeroTime : Int := -62135596800 * 10 ^ 9

/-- `Time.UnixNano`. -/
def unixNano (t : Int) : Int := wrap64 t

/-- `AgentLoc` (`aloc.go:29-59`) without the gRPC addresses, which nothing here reads. -/
structure AgentLoc where
  id : Bytes := []
  natsHost : Bytes := []
  natsClientPort : Int := 0
  leaseExpires : Int := zeroTime
  rank : Int := 0
  pid : Int := 0
  deriving DecidableEq

/-- `lessThanString` (`health.go:748-757`): empty strings are big. -/
def lessThanString (i j : Bytes) : Bool :=
  if i = [] ∨ j = [] then j = [] else i < j

/-- `AgentLocLessThan` (`health.go:712-745`). -/
def agentLocLessThan (i j : AgentLoc) : Bool :=
  if i.id = [] ∧ j.id = [] then false
  else if j.id = [] then true
  else if i.id = [] then false
  else if i.rank ≠ j.rank then i.rank < j.rank
  else if i.id ≠ j.id then lessThanString i.id j.id
  else if i.natsHost ≠ j.natsHost then lessThanString i.natsHost j.natsHost
  else if i.natsClientPort ≠ j.natsClientPort then i.natsClientPort < j.natsClientPort
  else if i.pid ≠ j.pid then i.pid < j.pid
  else unixNano j.leaseExpires < unixNano i.leaseExpires

/-- The location with `LeaseExpires = time.Time{}`. -/
def AgentLoc.withZeroLease (loc : AgentLoc) : AgentLoc := { loc with leaseExpires := zeroTime }

/-- `alocEqual` (`aloc.go:71-75`). -/
def alocEqual (a b : AgentLoc) : Bool := !agentLocLessThan a b && !agentLocLessThan b a

/-- `slocEqualIgnoreLease` (`aloc.go:77-86`). -/
def slocEqualIgnoreLease (a b : AgentLoc) : Bool :=
  !agentLocLessThan a.withZeroLease b.withZeroLease &&
    !agentLocLessThan b.withZeroLease a.withZeroLease

section Order

def bytesKey (b : Bytes) : Bool ×ₗ List Nat := toLex (b.isEmpty, bytesRank b)

abbrev RankKey :=
  WithTop (Int ×ₗ (Bool ×ₗ List Nat) ×ₗ (Bool ×ₗ List Nat) ×ₗ Int ×ₗ Int ×ₗ Intᵒᵈ)

/-- What `AgentLocLessThan` compares. -/
def rankKey (loc : AgentLoc) : RankKey :=
  if loc.id = [] then ⊤
  else ↑(toLex (loc.rank, toLex (bytesKey loc.id, toLex (bytesKey loc.natsHost,
    toLex (loc.natsClientPort, toLex (loc.pid, OrderDual.toDual (unixNano loc.leaseExpires)))))))

theorem bytesKey_inj {i j : Bytes} : bytesKey i = bytesKey j ↔ i = j := by
  constructor
  · intro same
    exact bytesRank_inj.mp (congrArg (fun key => (ofLex key).2) same)
  · rintro rfl
    rfl

theorem lessThanString_iff {i j : Bytes} (ne : i ≠ j) :
    lessThanString i j = true ↔ bytesKey i < bytesKey j := by
  unfold lessThanString bytesKey
  rw [Prod.Lex.toLex_lt_toLex]
  cases i <;> cases j <;> simp_all [bytesRank_lt_iff]

theorem agentLocLessThan_iff : LessBy agentLocLessThan rankKey := by
  intro i j
  unfold agentLocLessThan rankKey
  by_cases iempt : i.id = []
  · by_cases jempt : j.id = [] <;> simp [iempt, jempt]
  by_cases jempt : j.id = []
  · simp [iempt, jempt]
  simp only [iempt, jempt, and_self, if_false, WithTop.coe_lt_coe, Prod.Lex.toLex_lt_toLex,
    OrderDual.toDual_lt_toDual, bytesKey_inj]
  -- the first field that differs decides, in the source and in the key
  split_ifs with rank id host port pid
  · simp [rank]
  · simp [not_not.mp rank, lessThanString_iff id, id]
  · simp [not_not.mp rank, not_not.mp id, lessThanString_iff host, host]
  · simp [not_not.mp rank, not_not.mp id, not_not.mp host, port]
  · simp [not_not.mp rank, not_not.mp id, not_not.mp host, not_not.mp port, pid]
  · simp [not_not.mp rank, not_not.mp id, not_not.mp host, not_not.mp port, not_not.mp pid]

theorem rankKey_eq_top_iff (loc : AgentLoc) : rankKey loc = ⊤ ↔ loc.id = [] := by
  unfold rankKey
  split_ifs with empty
  · simp [empty]
  · simp [empty]

theorem alocEqual_iff (a b : AgentLoc) : alocEqual a b = true ↔ rankKey b = rankKey a :=
  agentLocLessThan_iff.equal_iff a b

theorem slocEqualIgnoreLease_iff (a b : AgentLoc) :
    slocEqualIgnoreLease a b = true ↔ rankKey b.withZeroLease = rankKey a.withZeroLease :=
  agentLocLessThan_iff.equal_iff _ _

end Order

/-- `ranktree` (`btree.go:19-22`): the items in order. -/
structure Ranktree where
  items : List AgentLoc
  sorted : KeySorted rankKey items

namespace Ranktree

instance : DecidableEq Ranktree := fun s t =>
  decidable_of_iff (s.items = t.items)
    ⟨fun same => by cases s; cases t; cases same; rfl, congrArg items⟩

/-- `newRanktree` (`btree.go:64-68`). -/
def newRanktree : Ranktree := ⟨[], List.Pairwise.nil⟩

/-- `ranktree.insert` (`btree.go:36-40`). -/
def insert (t : Ranktree) (j : AgentLoc) : Ranktree :=
  ⟨treeReplace agentLocLessThan j t.items, t.sorted.replace agentLocLessThan_iff⟩

/-- `Has`. -/
def has (t : Ranktree) (j : AgentLoc) : Bool := treeHas agentLocLessThan j t.items

/-- `ranktree.clone` (`btree.go:89-100`): what is less than an empty location is inserted into a new
tree. -/
def clone (t : Ranktree) : Ranktree :=
  (t.items.filter fun loc => agentLocLessThan loc {}).foldl insert newRanktree

/-- `ranktree.minrank` (`btree.go:50-56`); it panics on an empty tree. -/
def minrank (t : Ranktree) : Option AgentLoc := t.items.head?

end Ranktree

end Hnatsd.Health
