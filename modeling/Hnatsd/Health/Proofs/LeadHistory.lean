import Hnatsd.Health.RingBuf

/-!
# The history of leaders

The ring refuses what does not fit and `setLeader` does not look at the answer, so the history is
that of the first leaders. It ends with the one who leads as long as no more have been accepted than
there is room for, and it stays as it is from then on.
-/

namespace Hnatsd.Health
open Misc List

variable {call : AgentLoc × Int} {calls : List (AgentLoc × Int)}

namespace RingBuf

variable {α : Type}

/-- `Kth` of an index below `Avail` names the cell that many places after the first. -/
theorem cell_kth (b : RingBuf α) {k : Nat} (lt : k < b.readable) :
    b.cell (b.kth k) = b.a[(b.beg + k) % b.n]? := by
  have inside : ¬(b.readable = 0 ∨ (k : Int) < 0 ∨ (b.readable : Int) ≤ k) := by omega
  have index : b.kth k = ((b.beg + k) % b.n : Nat) := by
    rw [kth, if_neg inside]
    norm_cast
  rw [index, cell, if_neg (by omega), Int.toNat_natCast]

/-- `Last` names the cell that `Kth` does for the last index. -/
theorem last_eq_kth (b : RingBuf α) (pos : 0 < b.readable) :
    b.last = b.kth (b.readable - 1 : Nat) := by
  have inside : ¬(b.readable = 0 ∨ ((b.readable - 1 : Nat) : Int) < 0 ∨
      (b.readable : Int) ≤ (b.readable - 1 : Nat)) := by omega
  have sum : b.beg + b.readable - 1 = b.beg + (b.readable - 1) := by omega
  rw [last, if_neg (by omega), kth, if_neg inside]
  simp only [sum]
  split_ifs with unwrapped
  · norm_cast
    rw [Nat.mod_eq_of_lt unwrapped]
  · norm_cast

theorem newRingBuf_fresh {maxViewInBytes : Int} {b : RingBuf α}
    (made : newRingBuf maxViewInBytes = some b) :
    0 ≤ maxViewInBytes ∧ b.n = maxViewInBytes ∧ b.contents = [] := by
  unfold newRingBuf at made
  split at made
  · cases made
  · next nonneg =>
    cases made
    exact ⟨not_lt.mp nonneg, Int.toNat_of_nonneg (not_lt.mp nonneg), rfl⟩

section

variable (b : RingBuf α)
include b

/-- Reading `Kth(0..Avail()-1)` gives the contents, and none of the cells read is nil. -/
theorem map_cell_kth :
    (range b.readable).map (fun k : Nat => b.cell (b.kth k)) =
      b.contents.map fun p => some (some p) := by
  have present : ∀ k ∈ range b.readable, ∃ p, b.cell (b.kth k) = some (some p) := by
    intro k mem
    have lt : k < b.readable := mem_range.mp mem
    rw [b.cell_kth lt]
    exact b.filled k lt
  unfold contents
  revert present
  generalize range b.readable = ks
  intro present
  induction ks with
  | nil => rfl
  | cons k ks ih =>
    obtain ⟨p, held⟩ := present k mem_cons_self
    have rest := ih fun k' mem => present k' (mem_cons_of_mem _ mem)
    simp [held, rest]

theorem length_contents : b.contents.length = b.readable := by
  have sameLength := congrArg length b.map_cell_kth
  simpa using sameLength.symm

theorem cell_kth_contents {k : Nat} (lt : k < b.readable) :
    b.cell (b.kth k) = (b.contents[k]?).map some := by
  have read := congrArg (fun cells => cells[k]?) b.map_cell_kth
  have inside : k < b.contents.length := by rw [b.length_contents]; exact lt
  simpa [lt, inside, getElem?_eq_getElem] using read

/-- The element at `Last()` is the last of the contents. -/
theorem cell_last (pos : 0 < b.readable) :
    b.cell b.last = b.contents.getLast?.map some := by
  rw [b.last_eq_kth pos, b.cell_kth_contents (by omega), getLast?_eq_getElem?,
    b.length_contents]

theorem append_full (p : α) (full : b.n ≤ b.readable) :
    (b.append p).1 = b := by
  rw [append, dif_neg (by omega)]

theorem append_n (p : α) : (b.append p).1.n = b.n := by
  unfold append
  split <;> rfl

/-- `Append` adds at the end. -/
theorem contents_append (p : α) (room : b.readable < b.n) :
    (b.append p).1.contents = b.contents ++ [p] := by
  have after : (b.append p).1.readable = b.readable + 1 := by rw [append, dif_pos room]
  have kept : ∀ k < b.readable,
      (b.append p).1.cell ((b.append p).1.kth k) = b.cell (b.kth k) := by
    intro k lt
    rw [cell_kth _ (by omega), cell_kth _ lt, append, dif_pos room]
    exact getElem?_set_ne (b.index_ne lt room)
  have added : (b.append p).1.cell ((b.append p).1.kth b.readable) = some (some p) := by
    rw [cell_kth _ (by omega), append, dif_pos room]
    exact getElem?_set_self (b.index_lt room)
  rw [contents, after, range_succ, filterMap_append]
  congr 1
  · refine filterMap_congr fun k mem => ?_
    rw [kept k (mem_range.mp mem)]
  · simp [added]

end

end RingBuf

namespace RingHolder

theorem view_accept (e : RingHolder) (sloc : AgentLoc) :
    (e.accept sloc).view = e.view.accept sloc := by
  unfold LeadHolder.accept LeadHolder.append view accept
  simp only [e.history.length_contents, RingBuf.append_n]
  split_ifs with full
  · rw [RingBuf.append_full _ _ full]
  · rw [RingBuf.contents_append _ _ (by omega)]

theorem view_newLeadHolder {historyCount : Nat} {e : RingHolder}
    (made : newLeadHolder historyCount = some e) :
    e.view = LeadHolder.newLeadHolder historyCount := by
  obtain ⟨history, ring, rfl⟩ := Option.map_eq_some_iff.mp made
  obtain ⟨-, size, empty⟩ := RingBuf.newRingBuf_fresh ring
  have sameSize : history.n = if historyCount = 0 then 100 else historyCount := by
    split_ifs at size ⊢ <;> omega
  rw [view, empty, sameSize, LeadHolder.newLeadHolder]

/-- On the ring `setLeader` does what it does on the list. -/
theorem view_setLeader (e : RingHolder) (sloc : AgentLoc) (now : Int) :
    ((e.setLeader sloc now).1.view, (e.setLeader sloc now).2) = e.view.setLeader sloc now := by
  unfold setLeader LeadHolder.setLeader
  rw [← view_accept]
  have sameLeader : e.view.sloc = e.sloc := rfl
  simp only [sameLeader]
  split_ifs <;> rfl

theorem setLeader_self (e : RingHolder) (now : Int) :
    (e.setLeader e.sloc now).2.1 = false := by
  have irrefl : agentLocLessThan e.sloc e.sloc = false := by
    rw [Bool.eq_false_iff]
    intro less
    exact lt_irrefl _ ((agentLocLessThan_iff _ _).mp less)
  unfold setLeader
  cases expired : decide (unixNano e.sloc.leaseExpires ≤ unixNano now) <;>
    simp [expired, irrefl]

/-- A call stores another leader than the one held and adds it to the history, or changes nothing. -/
theorem setLeader_cases (e : RingHolder) (sloc : AgentLoc) (now : Int) :
    ((e.setLeader sloc now).2.1 = true ∧ (e.setLeader sloc now).1 = e.accept sloc ∧
        sloc ≠ e.sloc) ∨
      ((e.setLeader sloc now).2.1 = false ∧ (e.setLeader sloc now).1 = e) := by
  have decided : ((e.setLeader sloc now).2.1 = true ∧ (e.setLeader sloc now).1 = e.accept sloc) ∨
      ((e.setLeader sloc now).2.1 = false ∧ (e.setLeader sloc now).1 = e) := by
    unfold setLeader
    dsimp only
    split_ifs <;> simp
  rcases decided with ⟨won, stored⟩ | rejected
  · refine Or.inl ⟨won, stored, ?_⟩
    rintro rfl
    rw [e.setLeader_self now] at won
    cases won
  · exact Or.inr rejected

section Runs

/-- The holder after a number of calls, each with its location and its reading of the clock. -/
def afterCalls (e : RingHolder) (calls : List (AgentLoc × Int)) : RingHolder :=
  calls.foldl (fun e call => (e.setLeader call.1 call.2).1) e

/-- The locations that the calls accepted, in order. -/
def accepted (e : RingHolder) : List (AgentLoc × Int) → List AgentLoc
  | [] => []
  | call :: calls =>
      match e.setLeader call.1 call.2 with
      | (e, true, _) => call.1 :: accepted e calls
      | (e, false, _) => accepted e calls

theorem accepted_append (e : RingHolder) (calls later : List (AgentLoc × Int)) :
    e.accepted (calls ++ later) = e.accepted calls ++ (e.afterCalls calls).accepted later := by
  induction calls generalizing e with
  | nil => rfl
  | cons call calls ih =>
    obtain ⟨e', won, alt, result⟩ : ∃ e' won alt, e.setLeader call.1 call.2 = (e', won, alt) :=
      ⟨_, _, _, rfl⟩
    have later' : e.afterCalls (call :: calls) = e'.afterCalls calls := by
      rw [afterCalls, foldl_cons, result]
      rfl
    rw [cons_append, accepted, accepted, result, later']
    cases won with
    | true => exact congrArg (call.1 :: ·) (ih e')
    | false => exact ih e'

theorem accepted_won {e : RingHolder}
    (won : (e.setLeader call.1 call.2).2.1 = true) : e.accepted [call] = [call.1] := by
  rw [accepted]
  split
  · rfl
  · next lost => rw [lost] at won; cases won

theorem accepted_lost {e : RingHolder}
    (lost : (e.setLeader call.1 call.2).2.1 = false) : e.accepted [call] = [] := by
  rw [accepted]
  split
  · next won => rw [won] at lost; cases lost
  · rfl

theorem afterCalls_concat (e : RingHolder) (calls : List (AgentLoc × Int))
    (call : AgentLoc × Int) :
    e.afterCalls (calls ++ [call]) = ((e.afterCalls calls).setLeader call.1 call.2).1 := by
  simp [afterCalls]

theorem newLeadHolder_fresh {historyCount : Int} {e : RingHolder}
    (made : newLeadHolder historyCount = some e) :
    e.sloc = {} ∧ e.history.contents = [] ∧ e.history.n = e.histsz ∧ 0 < e.histsz := by
  obtain ⟨history, ring, rfl⟩ := Option.map_eq_some_iff.mp made
  obtain ⟨nonneg, size, empty⟩ := RingBuf.newRingBuf_fresh ring
  refine ⟨rfl, empty, size, ?_⟩
  show 0 < if historyCount = 0 then 100 else historyCount
  split_ifs at nonneg ⊢ <;> omega

/-- The ring holds the first leaders that were accepted, and the holder the last. -/
theorem afterCalls_holds {historyCount : Int} {e : RingHolder}
    (made : newLeadHolder historyCount = some e) (calls : List (AgentLoc × Int)) :
    (e.afterCalls calls).history.n = e.histsz ∧ (e.afterCalls calls).histsz = e.histsz ∧
      (e.afterCalls calls).history.contents = (e.accepted calls).take e.histsz.toNat ∧
      (e.afterCalls calls).sloc = (e.accepted calls).getLastD {} := by
  obtain ⟨noLeader, empty, size, pos⟩ := newLeadHolder_fresh made
  induction calls using reverseRecOn with
  | nil => exact ⟨size, rfl, by simpa [afterCalls, accepted] using empty, noLeader⟩
  | append_singleton calls call ih =>
    obtain ⟨sameSize, sameConfig, held, leads⟩ := ih
    rw [afterCalls_concat, accepted_append]
    rcases setLeader_cases (e.afterCalls calls) call.1 call.2 with
      ⟨won, stored, -⟩ | ⟨lost, kept⟩
    · rw [accepted_won won, stored]
      refine ⟨?_, sameConfig, ?_, ?_⟩
      · rw [accept, RingBuf.append_n, sameSize]
      · have readable := (e.afterCalls calls).history.length_contents
        rw [held, length_take] at readable
        by_cases room : (e.accepted calls).length < e.histsz.toNat
        · rw [accept, RingBuf.contents_append _ _ (by omega), held,
            take_of_length_le (by omega), take_of_length_le]
          rw [length_append, length_singleton]
          omega
        · rw [accept, RingBuf.append_full _ _ (by omega), held,
            take_append_of_le_length (by omega)]
      · rw [getLastD_concat, accept]
    · rw [accepted_lost lost, kept, append_nil]
      exact ⟨sameSize, sameConfig, held, leads⟩

end Runs

/-- The history ends with the leader: the element at `Last()` is the one `getLeader` returns, and
`Kth(0..Avail()-1)` are the last accepted, as many as there are or the ring has room for. -/
structure EndsCurrent (e : RingHolder) (accepted : List AgentLoc) : Prop where
  last : e.copyLeadHistory.cell e.copyLeadHistory.last = some (some e.getLeader)
  kth : (List.range e.copyLeadHistory.avail.toNat).map
      (fun k : Nat => e.copyLeadHistory.cell (e.copyLeadHistory.kth k)) =
    (accepted.drop (accepted.length - e.histsz.toNat)).map fun loc => some (some loc)

section Current

variable {historyCount : Int} {e : RingHolder} (made : newLeadHolder historyCount = some e)
include made

/-- While everything accepted fits, the history is all of it. -/
theorem endsCurrent_of_fits (some' : e.accepted calls ≠ [])
    (fits : ((e.accepted calls).length : Int) ≤ e.histsz) :
    EndsCurrent (e.afterCalls calls) (e.accepted calls) := by
  obtain ⟨-, sameConfig, held, leads⟩ := afterCalls_holds made calls
  rw [take_of_length_le (by omega)] at held
  have readable := (e.afterCalls calls).history.length_contents
  rw [held] at readable
  have pos : 0 < (e.accepted calls).length := length_pos_of_ne_nil some'
  constructor
  · show (e.afterCalls calls).history.cell _ = some (some (e.afterCalls calls).sloc)
    rw [copyLeadHistory, RingBuf.cell_last _ (by omega), held, leads,
      getLast?_eq_getLast_of_ne_nil some', getLastD_eq_getLast?,
      getLast?_eq_getLast_of_ne_nil some']
    rfl
  · show (range (e.afterCalls calls).history.readable).map _ = _
    rw [copyLeadHistory, RingBuf.map_cell_kth, held, sameConfig]
    have none_dropped : (e.accepted calls).length - e.histsz.toNat = 0 := by omega
    rw [none_dropped, drop_zero]

/-- The first leader that does not fit is not the last of the history. -/
theorem not_endsCurrent_of_full
    (full : ((e.accepted calls).length : Int) = e.histsz)
    (won : ((e.afterCalls calls).setLeader call.1 call.2).2.1 = true) :
    ¬EndsCurrent (e.afterCalls (calls ++ [call])) (e.accepted (calls ++ [call])) := by
  intro current
  obtain ⟨-, -, -, pos⟩ := newLeadHolder_fresh made
  obtain ⟨size, -, held, leads⟩ := afterCalls_holds made calls
  rw [take_of_length_le (by omega)] at held
  have readable := (e.afterCalls calls).history.length_contents
  rw [held] at readable
  have nonempty : e.accepted calls ≠ [] := by
    intro none
    rw [none, length_nil] at full
    omega
  have last := current.last
  rw [afterCalls_concat] at last
  rcases setLeader_cases (e.afterCalls calls) call.1 call.2 with ⟨-, stored, differs⟩ | ⟨lost, -⟩
  · have sameRing : ((e.afterCalls calls).accept call.1).copyLeadHistory =
        (e.afterCalls calls).history := RingBuf.append_full _ _ (by omega)
    rw [stored, sameRing, RingBuf.cell_last _ (by omega), held, getLast?_eq_getLast_of_ne_nil nonempty] at last
    rw [leads, getLastD_eq_getLast?, getLast?_eq_getLast_of_ne_nil nonempty] at differs
    exact differs (Option.some.inj (Option.some.inj last)).symm
  · rw [lost] at won
    cases won

/-- Where more were accepted than fit, there was a first that did not. -/
theorem exists_first_refused
    (tooMany : e.histsz < (e.accepted calls).length) :
    ∃ before call after, calls = before ++ [call] ++ after ∧
      ((e.accepted before).length : Int) = e.histsz ∧
      ((e.afterCalls before).setLeader call.1 call.2).2.1 = true := by
  obtain ⟨-, -, -, pos⟩ := newLeadHolder_fresh made
  induction calls using reverseRecOn with
  | nil =>
    rw [accepted, length_nil] at tooMany
    omega
  | append_singleton calls call ih =>
    by_cases earlier : e.histsz < (e.accepted calls).length
    · obtain ⟨before, first, after, split, full, won⟩ := ih earlier
      exact ⟨before, first, after ++ [call], by rw [split, append_assoc], full, won⟩
    · rw [accepted_append, length_append] at tooMany
      cases won : ((e.afterCalls calls).setLeader call.1 call.2).2.1 with
      | true =>
        rw [accepted_won won, length_singleton] at tooMany
        exact ⟨calls, call, [], by rw [append_nil], by omega, won⟩
      | false =>
        rw [accepted_lost won, length_nil] at tooMany
        omega

end Current

/-- The history of leaders ends with the current one after every call as long as no more have been
accepted than the configured number, and not after the call that accepts one more. -/
theorem lead_history_iff {historyCount : Int} {e : RingHolder}
    (made : newLeadHolder historyCount = some e) (calls : List (AgentLoc × Int)) :
    (∀ before after, calls = before ++ after → e.accepted before ≠ [] →
        EndsCurrent (e.afterCalls before) (e.accepted before)) ↔
      ((e.accepted calls).length : Int) ≤ e.histsz := by
  constructor
  · intro current
    by_contra tooMany
    obtain ⟨before, call, after, split, full, won⟩ := exists_first_refused made (not_le.mp tooMany)
    refine not_endsCurrent_of_full made full won (current (before ++ [call]) after split ?_)
    rw [accepted_append, accepted_won won]
    exact append_ne_nil_of_right_ne_nil _ (cons_ne_nil _ _)
  · intro fits before after split some'
    refine endsCurrent_of_fits made some' ?_
    -- what a part of the calls accepts is a part of what all accept
    rw [split, accepted_append, length_append] at fits
    omega

/-- An agent whose lease is renewed, with room for both entries. -/
theorem lead_history_iff_renewed :
    ∃ e, newLeadHolder 2 = some e ∧
      e.accepted [({ id := bytesOf "A", leaseExpires := 10 }, 5),
        ({ id := bytesOf "A", leaseExpires := 20 }, 6)] ≠ [] ∧
      EndsCurrent
        (e.afterCalls [({ id := bytesOf "A", leaseExpires := 10 }, 5),
          ({ id := bytesOf "A", leaseExpires := 20 }, 6)])
        [{ id := bytesOf "A", leaseExpires := 10 }, { id := bytesOf "A", leaseExpires := 20 }] := by
  refine ⟨_, rfl, by decide, ?_⟩
  exact (@lead_history_iff 2 _ rfl _).mpr (by decide) _ [] rfl (by decide)

/-- With room for one, the renewed lease is not in the history: its last element is the leader with
the lease that has been replaced. -/
theorem lead_history_stale :
    ∃ e, newLeadHolder 1 = some e ∧
      (e.afterCalls [({ id := bytesOf "A", leaseExpires := 10 }, 5),
        ({ id := bytesOf "A", leaseExpires := 20 }, 6)]).getLeader =
          { id := bytesOf "A", leaseExpires := 20 } ∧
      (e.afterCalls [({ id := bytesOf "A", leaseExpires := 10 }, 5),
        ({ id := bytesOf "A", leaseExpires := 20 }, 6)]).copyLeadHistory.cell
          (e.afterCalls [({ id := bytesOf "A", leaseExpires := 10 }, 5),
            ({ id := bytesOf "A", leaseExpires := 20 }, 6)]).copyLeadHistory.last =
          some (some { id := bytesOf "A", leaseExpires := 10 }) := by
  refine ⟨_, rfl, by decide, by decide⟩

end RingHolder

end Hnatsd.Health
