import Hnatsd.Health.Proofs.PongCollector

/-!
# Agents that heard the same replies

The set that `getSetAndClear` returns has the keys of what was inserted, whatever the order, the
repetitions and the leases. Its least item therefore has the same key at every agent that heard the
same members, and so has the leader that `leaderLeaseCheck` chooses.
-/

namespace Hnatsd.Health
open Misc

/-- Two locations agree on every field that `AgentLocLessThan` compares. -/
structure AgentLoc.Agree (a b : AgentLoc) : Prop where
  rank : a.rank = b.rank
  id : a.id = b.id
  natsHost : a.natsHost = b.natsHost
  natsClientPort : a.natsClientPort = b.natsClientPort
  pid : a.pid = b.pid
  leaseExpires : unixNano a.leaseExpires = unixNano b.leaseExpires

theorem agree_of_rankKey {a b : AgentLoc} (named : a.id ≠ []) (same : rankKey a = rankKey b) :
    a.Agree b := by
  have namedToo : b.id ≠ [] := by
    rw [ne_eq, ← rankKey_eq_top_iff, ← same, rankKey_eq_top_iff]
    exact named
  rw [rankKey, rankKey, if_neg named, if_neg namedToo, WithTop.coe_inj] at same
  simp only [EmbeddingLike.apply_eq_iff_eq, Prod.mk.injEq, bytesKey_inj] at same
  obtain ⟨rank, id, natsHost, natsClientPort, pid, lease⟩ := same
  exact ⟨rank, id, natsHost, natsClientPort, pid, lease⟩

/-- Trees with the same keys have least items with the same key. -/
theorem Ranktree.minrank_same {s t : Ranktree} (same : ∀ loc, s.has loc = true ↔ t.has loc = true) :
    s.minrank.map rankKey = t.minrank.map rankKey := by
  have nobody : ∀ {u : Ranktree} {loc : AgentLoc}, u.minrank = none → u.has loc = true → False := by
    intro u loc none_left has
    obtain ⟨item, mem, -⟩ := has_iff.mp has
    rw [List.head?_eq_none_iff.mp none_left] at mem
    cases mem
  have below : ∀ {u v : Ranktree} {a b : AgentLoc}, (∀ loc, v.has loc = true → u.has loc = true) →
      u.minrank = some a → v.minrank = some b → rankKey a ≤ rankKey b := by
    intro u v a b sub leastU leastV
    obtain ⟨item, mem, key⟩ := has_iff.mp (sub b (has_iff.mpr ⟨b, (minrank_least leastV).1, rfl⟩))
    have lowest := (minrank_least leastU).2 item mem
    rw [Bool.eq_false_iff, ne_eq, agentLocLessThan_iff, not_lt] at lowest
    exact lowest.trans_eq key
  cases leastS : s.minrank with
  | none =>
    cases leastT : t.minrank with
    | none => rfl
    | some b =>
      exact (nobody leastS ((same b).mpr (has_iff.mpr ⟨b, (minrank_least leastT).1, rfl⟩))).elim
  | some a =>
    cases leastT : t.minrank with
    | none =>
      exact (nobody leastT ((same a).mp (has_iff.mpr ⟨a, (minrank_least leastS).1, rfl⟩))).elim
    | some b =>
      exact congrArg some (le_antisymm (below (fun loc => (same loc).mpr) leastS leastT)
        (below (fun loc => (same loc).mp) leastT leastS))

theorem Ranktree.named_of_mem_clone (t : Ranktree) : ∀ loc ∈ t.clone.items, loc.id ≠ [] := by
  intro loc mem
  rw [items_clone, List.mem_filter, decide_eq_true_eq] at mem
  exact mem.2

theorem Ranktree.clone_same {s t : Ranktree} (same : ∀ loc, s.has loc = true ↔ t.has loc = true) :
    ∀ loc, s.clone.has loc = true ↔ t.clone.has loc = true := by
  intro loc
  by_cases empty : loc.id = []
  · -- no item of a clone is equal to a location without an ID
    have nobody : ∀ u : Ranktree, u.clone.has loc ≠ true := by
      intro u has
      obtain ⟨item, mem, key⟩ := has_iff.mp has
      rw [(rankKey_eq_top_iff loc).mpr empty, rankKey_eq_top_iff] at key
      exact u.named_of_mem_clone item mem key
    exact iff_of_false (nobody s) (nobody t)
  · rw [has_clone empty, has_clone empty, same]

/-- The check looks at nothing of the set but its least item. -/
theorem leaderLeaseCheck_agree {mems₁ mems₂ : Ranktree} (named : ∀ loc ∈ mems₁.items, loc.id ≠ [])
    (same : mems₁.minrank.map rankKey = mems₂.minrank.map rankKey)
    (now leaseLen maxClockSkew : Int) (prevLead : AgentLoc) :
    let check := fun mems => leaderLeaseCheck mems now leaseLen prevLead maxClockSkew
    (check mems₁).1 = (check mems₂).1 ∧ (check mems₁).2.Agree (check mems₂).2 := by
  have self : prevLead.Agree prevLead := ⟨rfl, rfl, rfl, rfl, rfl, rfl⟩
  simp only [leaderLeaseCheck]
  split_ifs with honoured
  · exact ⟨rfl, self⟩
  · cases least₁ : mems₁.minrank with
    | none =>
      rw [least₁] at same
      rw [Option.map_eq_none_iff.mp same.symm]
      exact ⟨rfl, self⟩
    | some a =>
      cases least₂ : mems₂.minrank with
      | none => simp [least₁, least₂] at same
      | some b =>
        rw [least₁, least₂] at same
        have agree := agree_of_rankKey (named a (Ranktree.minrank_least least₁).1)
          (Option.some.inj same)
        exact ⟨rfl, agree.rank, agree.id, agree.natsHost, agree.natsClientPort, agree.pid, rfl⟩

namespace Membership

/-- The replies arrive one after the other, then `getSetAndClear` runs. -/
def collecting (pongs : List AgentLoc) : List Action :=
  pongs.map .receivePong ++ [.clone, .clear, .reseed]

/-- What the collector has at the start is among the replies: nothing, or the agent's own location
that the last `getSetAndClear` put back. -/
def StartsWithin (m : Membership) (pongs : List AgentLoc) : Prop :=
  ∀ loc, m.fromNoTime.has loc = true → ∃ pong ∈ pongs, rankKey pong.withZeroLease = rankKey loc

theorem run_receivePongs (m : Membership) (pongs : List AgentLoc) :
    runFrom step m (pongs.map .receivePong) = some (pongs.foldl insert m) := by
  induction pongs generalizing m with
  | nil => rfl
  | cons pong pongs ih => exact ih (m.insert pong)

theorem has_foldl_insert (m : Membership) (pongs : List AgentLoc) (loc : AgentLoc) :
    (pongs.foldl insert m).fromNoTime.has loc = true ↔
      (∃ pong ∈ pongs, rankKey pong.withZeroLease = rankKey loc) ∨ m.fromNoTime.has loc = true := by
  induction pongs generalizing m with
  | nil => simp
  | cons pong pongs ih =>
    rw [List.foldl_cons, ih, insert, Ranktree.has_insert]
    rw [List.exists_mem_cons_iff, eq_comm, or_left_comm, or_assoc]

/-- The set that `getSetAndClear` returns after the replies is the clone of what they left. -/
theorem collected_set {m n : Membership} {pongs : List AgentLoc} {mems : Ranktree}
    (got : runFrom step m (collecting pongs) = some n) (returns : n.place = .seeded mems) :
    mems = (pongs.foldl insert m).fromNoTime.clone := by
  rw [collecting, runFrom_append, run_receivePongs, Option.bind_some] at got
  generalize pongs.foldl insert m = collected at got ⊢
  cases place : collected.place with
  | beat =>
    simp only [runFrom, step, place, Option.bind_some, Option.some.injEq] at got
    subst got
    cases returns
    rfl
  | cloned mem => simp [runFrom, step, place] at got
  | cleared mem => simp [runFrom, step, place] at got
  | seeded mem => simp [runFrom, step, place] at got

/-- The elected leader depends only on who answered: two agents that collected replies from the same
members, in any orders, with any repetitions and any leases, choose leaders that agree on every
field that is compared. -/
theorem same_members_same_leader {m₁ m₂ n₁ n₂ : Membership} {pongs₁ pongs₂ : List AgentLoc}
    {mems₁ mems₂ : Ranktree}
    (same : ∀ loc, loc ∈ pongs₁.map AgentLoc.withZeroLease ↔
      loc ∈ pongs₂.map AgentLoc.withZeroLease)
    (start₁ : m₁.StartsWithin pongs₁) (start₂ : m₂.StartsWithin pongs₂)
    (got₁ : runFrom step m₁ (collecting pongs₁) = some n₁) (returns₁ : n₁.place = .seeded mems₁)
    (got₂ : runFrom step m₂ (collecting pongs₂) = some n₂) (returns₂ : n₂.place = .seeded mems₂)
    (now leaseLen maxClockSkew : Int) (prevLead : AgentLoc) :
    let check := fun mems => leaderLeaseCheck mems now leaseLen prevLead maxClockSkew
    (check mems₁).1 = (check mems₂).1 ∧ (check mems₁).2.Agree (check mems₂).2 := by
  have keys : ∀ {m : Membership} {pongs : List AgentLoc} {loc : AgentLoc}, m.StartsWithin pongs →
      ((pongs.foldl insert m).fromNoTime.has loc = true ↔
        ∃ member ∈ pongs.map AgentLoc.withZeroLease, rankKey member = rankKey loc) := by
    intro m pongs loc start
    rw [has_foldl_insert, or_iff_left_of_imp (start loc)]
    simp
  have sameKeys : ∀ loc, (pongs₁.foldl insert m₁).fromNoTime.has loc = true ↔
      (pongs₂.foldl insert m₂).fromNoTime.has loc = true := by
    intro loc
    rw [keys start₁, keys start₂]
    simp only [same]
  rw [collected_set got₁ returns₁, collected_set got₂ returns₂]
  exact leaderLeaseCheck_agree (Ranktree.named_of_mem_clone _)
    (Ranktree.minrank_same (Ranktree.clone_same sameKeys)) now leaseLen maxClockSkew prevLead

/-- `A` hears `B`, then itself with a lease, then `B` again; `B` hears itself and `A`. Both choose
`B`, which has the lower rank. -/
theorem same_members_same_leader_two :
    ∃ n₁ n₂ mems₁ mems₂,
      runFrom step (newMembership defaultCfg { id := bytesOf "A", rank := 1 })
        (collecting [{ id := bytesOf "B" }, { id := bytesOf "A", rank := 1, leaseExpires := 7 },
          { id := bytesOf "B", leaseExpires := 9 }]) = some n₁ ∧ n₁.place = .seeded mems₁ ∧
      runFrom step (newMembership defaultCfg { id := bytesOf "B" })
        (collecting [{ id := bytesOf "B" }, { id := bytesOf "A", rank := 1 }]) = some n₂ ∧
      n₂.place = .seeded mems₂ ∧
      (leaderLeaseCheck mems₁ 0 5 {} 1).1 = (leaderLeaseCheck mems₂ 0 5 {} 1).1 ∧
      (leaderLeaseCheck mems₁ 0 5 {} 1).2.Agree (leaderLeaseCheck mems₂ 0 5 {} 1).2 ∧
      (leaderLeaseCheck mems₁ 0 5 {} 1).2.id = bytesOf "B" := by
  refine ⟨_, _, _, _, rfl, rfl, rfl, rfl, ?_⟩
  have agree := @same_members_same_leader
    (newMembership defaultCfg { id := bytesOf "A", rank := 1 })
    (newMembership defaultCfg { id := bytesOf "B" }) _ _
    [{ id := bytesOf "B" }, { id := bytesOf "A", rank := 1, leaseExpires := 7 },
      { id := bytesOf "B", leaseExpires := 9 }]
    [{ id := bytesOf "B" }, { id := bytesOf "A", rank := 1 }] _ _ ?_ ?_ ?_ rfl rfl rfl rfl 0 5 1 {}
  · exact ⟨agree.1, agree.2, by decide⟩
  · intro loc
    simp only [List.map_cons, List.map_nil, AgentLoc.withZeroLease, List.mem_cons,
      List.not_mem_nil, or_false]
    tauto
  · intro loc has
    cases has
  · intro loc has
    cases has

end Membership

end Hnatsd.Health
