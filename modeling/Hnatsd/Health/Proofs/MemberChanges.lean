import Hnatsd.Health.Members
import Hnatsd.Health.Proofs.MembershipSteps

/-!
# Reports of lost and gained members

The member sets that `getSetAndClear` returns are clones, so that all their locations have an ID and
iterating below the empty location passes over none. `setDiff` then is the difference of sets, and
`setsEqual` their equality, although it compares sizes and one inclusion only.
-/

namespace Hnatsd.Health
open Misc List

/-- A set as `getSetAndClear` returns it: the clone of what the collector has. -/
def Collected (mem : Ranktree) : Prop := ∃ t : Ranktree, mem = t.clone

namespace Membership

/-- The sets of the heartbeats that have ended, and the one that is being taken. -/
def AllCollected (m : Membership) : Prop :=
  (∀ r ∈ m.rounds, Collected r.members) ∧
    match m.place with
    | .beat => True
    | .cloned mem | .cleared mem | .seeded mem => Collected mem

theorem AllCollected.step {m m' : Membership} {a : Action} (collected : m.AllCollected)
    (moved : m.Moved a m') : m'.AllCollected := by
  obtain ⟨rounds, here⟩ := collected
  cases moved with
  | receivePong loc => exact ⟨rounds, here⟩
  | clone asleep => exact ⟨rounds, m.fromNoTime, rfl⟩
  | clear mem at' =>
    rw [at'] at here
    exact ⟨rounds, here⟩
  | reseed mem at' =>
    rw [at'] at here
    exact ⟨rounds, here⟩
  | elect mem now at' =>
    rw [at'] at here
    refine ⟨fun r inRounds => ?_, trivial⟩
    rcases mem_append.mp inRounds with old | new
    · exact rounds r old
    · rw [mem_singleton.mp new]
      exact here

/-- In every run each heartbeat has a collected set. -/
theorem AllCollected.run {cfg : MembershipCfg} {myLoc : AgentLoc} {actions : List Action}
    {m : Membership} (ran : runFrom Membership.step (newMembership cfg myLoc) actions = some m) :
    ∀ r ∈ m.rounds, Collected r.members := by
  have start : (newMembership cfg myLoc).AllCollected := ⟨by simp [newMembership], trivial⟩
  refine (@invariant_of_run _ _ Membership.step AllCollected ?_ _ _ _ start ran).1
  intro s a s' collected stepped
  exact collected.step (step_moved stepped)

end Membership

namespace Ranktree

theorem mem_deleteAll {l : List AgentLoc} {t : Ranktree} {z : AgentLoc} :
    z ∈ (l.foldl deleteSloc t).items ↔ z ∈ t.items ∧ ∀ v ∈ l, rankKey z ≠ rankKey v := by
  induction l generalizing t with
  | nil => simp
  | cons v l ih =>
    rw [foldl_cons, ih, deleteSloc, mem_filter, agentLocLessThan_iff.differ_iff,
      forall_mem_cons, and_assoc]

theorem ascend_eq (t : Ranktree) : t.ascend = t.items.filter fun loc => loc.id ≠ [] := by
  simp only [ascend, agentLocLessThan_unnamed]

theorem named_of_collected {t : Ranktree} (collected : Collected t) :
    ∀ loc ∈ t.items, loc.id ≠ [] := by
  obtain ⟨s, rfl⟩ := collected
  intro loc mem
  rw [items_clone] at mem
  exact of_decide_eq_true (mem_filter.mp mem).2

/-- Iteration below the empty location passes over nothing in a collected set. -/
theorem ascend_of_collected {t : Ranktree} (collected : Collected t) : t.ascend = t.items := by
  rw [ascend_eq, filter_eq_self]
  intro loc mem
  exact decide_eq_true (named_of_collected collected loc mem)

theorem clone_of_collected {t : Ranktree} (collected : Collected t) : t.clone.items = t.items := by
  rw [items_clone, ← ascend_eq, ascend_of_collected collected]

variable {a b : Ranktree}

section

variable (collectedA : Collected a)
include collectedA

theorem mem_setDiff (collectedB : Collected b) {z : AgentLoc} :
    z ∈ (a.setDiff b).items ↔ z ∈ a.items ∧ ∀ v ∈ b.items, rankKey z ≠ rankKey v := by
  rw [setDiff, mem_deleteAll, clone_of_collected collectedA]
  exact Iff.and Iff.rfl (by rw [← ascend, ascend_of_collected collectedB])

theorem has_setDiff (collectedB : Collected b) (loc : AgentLoc) :
    (a.setDiff b).has loc = true ↔ a.has loc = true ∧ ¬ b.has loc = true := by
  simp only [has_iff, mem_setDiff collectedA collectedB]
  constructor
  · rintro ⟨z, ⟨inA, notIn⟩, same⟩
    refine ⟨⟨z, inA, same⟩, ?_⟩
    rintro ⟨v, inB, same'⟩
    exact notIn v inB (same.trans same'.symm)
  · rintro ⟨⟨z, inA, same⟩, notIn⟩
    refine ⟨z, ⟨inA, fun v inB same' => ?_⟩, same⟩
    exact notIn ⟨v, inB, same'.symm.trans same⟩

/-- A difference is empty where all items are in the other set. -/
theorem setDiff_isEmpty (collectedB : Collected b) :
    (a.setDiff b).items.isEmpty = true ↔
      ∀ x ∈ a.items, ∃ y ∈ b.items, rankKey y = rankKey x := by
  rw [List.isEmpty_iff, eq_nil_iff_forall_not_mem]
  simp only [mem_setDiff collectedA collectedB, not_and, not_forall, not_not]
  refine forall₂_congr fun x mem => ?_
  constructor
  · rintro ⟨y, inB, same⟩
    exact ⟨y, inB, same.symm⟩
  · rintro ⟨y, inB, same⟩
    exact ⟨y, inB, same.symm⟩

/-- Sizes and one inclusion are enough: trees have no two equal items. -/
theorem setsEqual_iff (collectedB : Collected b) :
    a.setsEqual b = true ↔
      (a.setDiff b).items.isEmpty = true ∧ (b.setDiff a).items.isEmpty = true := by
  have equal : a.setsEqual b = true ↔
      a.items.length = b.items.length ∧ ∀ x ∈ a.items, ∃ y ∈ b.items, rankKey y = rankKey x := by
    have ascends : (a.items.filter fun loc => agentLocLessThan loc {}) = a.items :=
      ascend_of_collected collectedA
    simp only [setsEqual, ascends, Bool.and_eq_true, decide_eq_true_eq, all_eq_true, has_iff]
  rw [equal, setDiff_isEmpty collectedA collectedB, setDiff_isEmpty collectedB collectedA]
  constructor
  · rintro ⟨size, sub⟩
    exact ⟨sub, fun y mem => a.sorted.exists_of_length_le sub size.ge mem⟩
  · rintro ⟨sub, sup⟩
    exact ⟨le_antisymm (a.sorted.length_le sub) (b.sorted.length_le sup), sub⟩

end

end Ranktree

namespace Trees

variable {h : Trees} {a b : Nat} {s t : Ranktree}

theorem tree_of_get (found : h[a]? = some t) : h.tree a = t := by
  rw [tree, getD_eq_getElem?_getD, found]
  rfl

theorem get_append (found : h[a]? = some t) (new : Ranktree) : (h ++ [new])[a]? = some t := by
  rw [getElem?_append_left (List.getElem?_eq_some_iff.mp found).1]
  exact found

theorem modify_last (change : Ranktree → Ranktree) (new : Ranktree) :
    (h ++ [new]).modify h.length change = h ++ [change new] := by
  induction h with
  | nil => rfl
  | cons t h ih => exact congrArg (t :: ·) ih

/-- Changes to the newest tree leave the others alone. -/
theorem foldl_modify_last (change : Ranktree → AgentLoc → Ranktree) (l : List AgentLoc)
    (new : Ranktree) :
    l.foldl (fun (h' : Trees) v => h'.modify h.length fun t => change t v) (h ++ [new]) =
      h ++ [l.foldl change new] := by
  induction l generalizing new with
  | nil => rfl
  | cons v l ih => rw [foldl_cons, foldl_cons, modify_last, ih]

theorem clone_eq (found : h[a]? = some t) : h.clone a = (h.length, h ++ [t.clone]) := by
  rw [clone, alloc]
  dsimp only
  rw [tree_of_get (get_append found _), foldl_modify_last]
  rfl

theorem setDiff_eq (foundA : h[a]? = some s) (foundB : h[b]? = some t) :
    h.setDiff a b = (h.length, h ++ [s.setDiff t]) := by
  rw [setDiff, clone_eq foundA]
  dsimp only
  rw [tree_of_get (get_append foundB _), foldl_modify_last]
  rfl

theorem memberChanges_eq (foundA : h[a]? = some s) (foundB : h[b]? = some t) :
    h.memberChanges a b =
      (⟨h.length, h.length + 1, s.setsEqual t⟩, h ++ [s.setDiff t] ++ [t.setDiff s]) := by
  rw [memberChanges, setDiff_eq foundA foundB]
  dsimp only
  rw [setDiff_eq (get_append foundB _) (get_append foundA _)]
  dsimp only
  rw [tree_of_get (get_append (get_append foundA _) _),
    tree_of_get (get_append (get_append foundB _) _), length_append, length_singleton]

end Trees

/-- The reports of a heartbeat are exact. The sets that the agent compares are collected. For any two
collected sets, what was lost is the first minus the second, what was gained the second minus the
first, and the second is the first without the lost and with the gained; the sets are equal exactly if
nothing was lost and nothing gained; and no tree that was there is changed. -/
theorem memberChanges_exact :
    (Collected .newRanktree ∧
      ∀ cfg myLoc actions m, runFrom Membership.step (.newMembership cfg myLoc) actions = some m →
        ∀ r ∈ m.rounds, Collected r.members) ∧
    ∀ (h : Trees) (prev cur : Nat) (p c : Ranktree), h[prev]? = some p → h[cur]? = some c →
      Collected p → Collected c →
      let (changes, h') := h.memberChanges prev cur
      let lost := h'.tree changes.lost
      let gained := h'.tree changes.gained
      (∀ loc, lost.has loc = true ↔ p.has loc = true ∧ ¬ c.has loc = true) ∧
      (∀ loc, gained.has loc = true ↔ c.has loc = true ∧ ¬ p.has loc = true) ∧
      (∀ loc, c.has loc = true ↔
        (p.has loc = true ∧ ¬ lost.has loc = true) ∨ gained.has loc = true) ∧
      (changes.same = true ↔ h'.setEmpty changes.lost = true ∧ h'.setEmpty changes.gained = true) ∧
      ∀ (ref : Nat) t, h[ref]? = some t → h'[ref]? = some t := by
  refine ⟨⟨⟨.newRanktree, rfl⟩, fun cfg myLoc actions m => Membership.AllCollected.run⟩, ?_⟩
  intro h prev cur p c foundP foundC collectedP collectedC
  rw [Trees.memberChanges_eq foundP foundC]
  dsimp only
  have kept : ∀ (ref : Nat) t, h[ref]? = some t → (h ++ [p.setDiff c] ++ [c.setDiff p])[ref]? = some t :=
    fun ref t found => Trees.get_append (Trees.get_append found _) _
  have atLost : (h ++ [p.setDiff c] ++ [c.setDiff p])[h.length]? = some (p.setDiff c) :=
    Trees.get_append (by simp) _
  have atGained : (h ++ [p.setDiff c] ++ [c.setDiff p])[h.length + 1]? = some (c.setDiff p) := by simp
  have lost := Ranktree.has_setDiff collectedP collectedC
  have gained := Ranktree.has_setDiff collectedC collectedP
  rw [Trees.setEmpty, Trees.setEmpty, Trees.tree_of_get atLost, Trees.tree_of_get atGained]
  refine ⟨lost, gained, fun loc => ?_, Ranktree.setsEqual_iff collectedP collectedC, kept⟩
  rw [lost, gained]
  by_cases inP : p.has loc = true
  · simp [inP]
  · simp [inP]

end Hnatsd.Health
