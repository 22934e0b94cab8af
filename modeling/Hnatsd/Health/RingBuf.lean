import Hnatsd.Health.Membership

/-!
# The ring of past leaders

`health/rbuf.go` and the `leadHolder` with the ring in it. `LeadHolder` keeps what the ring holds as
a list; `RingHolder.view` gives that list, and `setLeader` on the two is the same.
-/

namespace Hnatsd.Health
open Misc

/-- `ringBuf` (`rbuf.go:13-18`). A cell of `A` that was never written is nil; those that can be read
have been. -/
structure RingBuf (α : Type) where
  a : List (Option α)
  n : Nat
  beg : Nat
  readable : Nat
  size : a.length = n
  fits : readable ≤ n
  filled : ∀ k < readable, ∃ p, a[(beg + k) % n]? = some (some p)

namespace RingBuf

variable {α : Type}

/-- `newRingBuf` (`rbuf.go:21-31`); `make` panics on a negative size. -/
def newRingBuf (maxViewInBytes : Int) : Option (RingBuf α) :=
  if maxViewInBytes < 0 then none
  else some {
    a := List.replicate maxViewInBytes.toNat none
    n := maxViewInBytes.toNat
    beg := 0
    readable := 0
    size := List.length_replicate
    fits := Nat.zero_le _
    filled := fun k lt => absurd lt (Nat.not_lt_zero k) }

/-- `Avail` (`rbuf.go:74-76`). -/
def avail (b : RingBuf α) : Int := b.readable

/-- `Last` (`rbuf.go:89-101`). -/
def last (b : RingBuf α) : Int :=
  if b.readable = 0 then -1
  else
    let last := b.beg + b.readable - 1
    if last < b.n then last else (last % b.n : Nat)

/-- `Kth` (`rbuf.go:113-118`). -/
def kth (b : RingBuf α) (k : Int) : Int :=
  if b.readable = 0 ∨ k < 0 ∨ b.readable ≤ k then -1 else (b.beg + k) % b.n

/-- `b.A[i]`; an index out of range panics. -/
def cell (b : RingBuf α) (i : Int) : Option (Option α) :=
  if i < 0 then none else b.a[i.toNat]?

/-- Two indices below the size name different cells. -/
theorem index_ne (b : RingBuf α) {k r : Nat} (lt : k < r) (room : r < b.n) :
    (b.beg + r) % b.n ≠ (b.beg + k) % b.n := by
  intro same
  have congruent : r ≡ k [MOD b.n] := Nat.ModEq.add_left_cancel' b.beg same
  have equal : r = k := Nat.ModEq.eq_of_lt_of_lt congruent room (by omega)
  omega

theorem index_lt (b : RingBuf α) {r : Nat} (room : r < b.n) :
    (b.beg + r) % b.n < b.a.length := by
  rw [b.size]
  exact Nat.mod_lt _ (by omega)

/-- `Append` (`rbuf.go:127-139`), and whether it returns `io.ErrShortWrite`. -/
def append (b : RingBuf α) (p : α) : RingBuf α × Bool :=
  if room : b.readable < b.n then
    ({ b with
        a := b.a.set ((b.beg + b.readable) % b.n) (some p)
        readable := b.readable + 1
        size := by rw [List.length_set, b.size]
        fits := room
        filled := by
          intro k lt
          by_cases last : k = b.readable
          · subst last
            exact ⟨p, List.getElem?_set_self (b.index_lt room)⟩
          · obtain ⟨q, held⟩ := b.filled k (by omega)
            refine ⟨q, ?_⟩
            rw [List.getElem?_set_ne (b.index_ne (by omega) room), held] }, false)
  else (b, true)

/-- What the ring holds, from the earliest on. -/
def contents (b : RingBuf α) : List α :=
  (List.range b.readable).filterMap fun k : Nat => (b.cell (b.kth k)).join

end RingBuf

/-- `leadHolder` (`health.go:123-135`) with its ring. -/
structure RingHolder where
  sloc : AgentLoc
  history : RingBuf AgentLoc
  histsz : Int

namespace RingHolder

/-- `newLeadHolder` (`health.go:137-146`). -/
def newLeadHolder (histsz : Int) : Option RingHolder :=
  let histsz := if histsz = 0 then 100 else histsz
  (RingBuf.newRingBuf histsz).map fun history => { sloc := {}, history, histsz }

/-- `getLeader` (`health.go:160-164`). -/
def getLeader (e : RingHolder) : AgentLoc := e.sloc

/-- `copyLeadHistory` (`health.go:265-270`): a value is its own copy. -/
def copyLeadHistory (e : RingHolder) : RingBuf AgentLoc := e.history

/-- `e.sloc = sloc`, and the entry in the history; the error of `Append` is dropped. -/
def accept (e : RingHolder) (sloc : AgentLoc) : RingHolder :=
  { e with sloc := sloc, history := (e.history.append sloc).1 }

/-- `setLeader` (`health.go:186-263`): `slocWon` and `alt`. -/
def setLeader (e : RingHolder) (sloc : AgentLoc) (now : Int) : RingHolder × Bool × AgentLoc :=
  if sloc.id = [] then (e, false, e.sloc)
  else
    let nowu := unixNano now
    let cure := unixNano e.sloc.leaseExpires
    let newe := unixNano sloc.leaseExpires
    let curExpired : Bool := cure ≤ nowu
    let newExpired : Bool := newe ≤ nowu
    if curExpired && newExpired then (e, false, e.sloc)
    else if !curExpired && !newExpired then
      let newWon := agentLocLessThan sloc e.sloc
      let oldWon := agentLocLessThan e.sloc sloc
      if !newWon && !oldWon then
        if e.sloc.leaseExpires < sloc.leaseExpires then (e.accept sloc, true, sloc)
        else (e, false, e.sloc)
      else if newWon then (e.accept sloc, true, sloc)
      else (e, false, e.sloc)
    else if newExpired then (e, false, e.sloc)
    else (e.accept sloc, true, sloc)

/-- The holder with what its ring holds in place of the ring. -/
def view (e : RingHolder) : LeadHolder :=
  { sloc := e.sloc, history := e.history.contents, histsz := e.history.n }

end RingHolder

end Hnatsd.Health
