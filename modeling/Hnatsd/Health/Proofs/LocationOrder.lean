import Hnatsd.Health.AgentLoc

/-!
# The order of agent locations

`AgentLocLessThan` compares keys in a linear order, so it is a strict weak order, and two locations
are equal to it exactly if they have one key.
-/

namespace Hnatsd.Health
open Misc

/-- The fields that `AgentLocLessThan` looks at agree. -/
structure SameFields (i j : AgentLoc) : Prop where
  rank : i.rank = j.rank
  id : i.id = j.id
  natsHost : i.natsHost = j.natsHost
  natsClientPort : i.natsClientPort = j.natsClientPort
  pid : i.pid = j.pid
  lease : unixNano i.leaseExpires = unixNano j.leaseExpires

theorem rankKey_eq_iff {i j : AgentLoc} (iNamed : i.id ≠ []) (jNamed : j.id ≠ []) :
    rankKey j = rankKey i ↔ SameFields i j := by
  unfold rankKey
  rw [if_neg iNamed, if_neg jNamed, WithTop.coe_inj]
  constructor
  · intro same
    simp only [toLex_inj, Prod.mk.injEq, bytesKey_inj, OrderDual.toDual_inj] at same
    obtain ⟨rank, id, host, port, pid, lease⟩ := same
    exact ⟨rank.symm, id.symm, host.symm, port.symm, pid.symm, lease.symm⟩
  · rintro ⟨rank, id, host, port, pid, lease⟩
    rw [rank, id, host, port, pid, lease]

/-- `AgentLocLessThan` is irreflexive, asymmetric and transitive, and being equal to it is transitive.
Locations without an ID are equal to one another and above all others; two locations with an ID are
equal exactly if the fields that are compared agree. -/
theorem agentLocLessThan_strict_weak_order :
    (∀ i, agentLocLessThan i i = false) ∧
    (∀ i j, agentLocLessThan i j = true → agentLocLessThan j i = false) ∧
    (∀ i j k, agentLocLessThan i j = true → agentLocLessThan j k = true →
      agentLocLessThan i k = true) ∧
    (∀ i j k, alocEqual i j = true → alocEqual j k = true → alocEqual i k = true) ∧
    (∀ i j, i.id = [] → j.id = [] → alocEqual i j = true) ∧
    (∀ i j, i.id ≠ [] → j.id = [] → agentLocLessThan i j = true) ∧
    ∀ i j, i.id ≠ [] → j.id ≠ [] → (alocEqual i j = true ↔ SameFields i j) := by
  have byKey := agentLocLessThan_iff
  refine ⟨byKey.irrefl, fun i j => byKey.asymm, fun i j k => byKey.trans, ?_, ?_, ?_, ?_⟩
  · intro i j k first second
    rw [alocEqual_iff] at first second ⊢
    exact second.trans first
  · intro i j iEmpty jEmpty
    rw [alocEqual_iff, (rankKey_eq_top_iff i).mpr iEmpty, (rankKey_eq_top_iff j).mpr jEmpty]
  · intro i j named empty
    rw [byKey, (rankKey_eq_top_iff j).mpr empty, lt_top_iff_ne_top, ne_eq, rankKey_eq_top_iff]
    exact named
  · intro i j iNamed jNamed
    rw [alocEqual_iff]
    exact rankKey_eq_iff iNamed jNamed

end Hnatsd.Health
