import Hnatsd.Health.Membership

/-!
# Steps of the health agent

What the rank tree has after each operation, and what each step of a `Membership` does.
-/

namespace Hnatsd.Health
open Misc

variable {j : AgentLoc} {t : Ranktree}

/-- The locations below one without an ID are those that have one. -/
theorem agentLocLessThan_unnamed (loc : AgentLoc) :
    agentLocLessThan loc {} = decide (loc.id ≠ []) := by
  by_cases empty : loc.id = [] <;> simp [agentLocLessThan, empty]

namespace Ranktree

theorem has_iff :
    t.has j = true ↔ ∃ loc ∈ t.items, rankKey loc = rankKey j :=
  treeHas_iff agentLocLessThan_iff

theorem has_insert {loc : AgentLoc} :
    (t.insert loc).has j = true ↔ rankKey j = rankKey loc ∨ t.has j = true :=
  treeHas_replace agentLocLessThan_iff t.sorted

theorem items_foldl_insert (l : List AgentLoc) (t : Ranktree) :
    (l.foldl insert t).items =
      l.foldl (fun items loc => treeReplace agentLocLessThan loc items) t.items := by
  induction l generalizing t with
  | nil => rfl
  | cons loc l ih => exact ih (t.insert loc)

/-- A clone has the items with an ID. -/
theorem items_clone (t : Ranktree) : t.clone.items = t.items.filter fun loc => loc.id ≠ [] := by
  have sorted : KeySorted rankKey ([] ++ t.items.filter fun loc => agentLocLessThan loc {}) :=
    List.Pairwise.sublist List.filter_sublist t.sorted
  rw [clone, items_foldl_insert]
  refine (foldl_treeReplace agentLocLessThan_iff sorted).trans ?_
  simp only [agentLocLessThan_unnamed, List.nil_append]

theorem has_clone (named : j.id ≠ []) :
    t.clone.has j = true ↔ t.has j = true := by
  rw [has_iff, has_iff, items_clone]
  constructor
  · rintro ⟨loc, mem, same⟩
    exact ⟨loc, List.mem_of_mem_filter mem, same⟩
  · rintro ⟨loc, mem, same⟩
    refine ⟨loc, List.mem_filter.mpr ⟨mem, ?_⟩, same⟩
    have notTop : rankKey loc ≠ ⊤ := by
      rw [same, ne_eq, rankKey_eq_top_iff]
      exact named
    rw [ne_eq, rankKey_eq_top_iff] at notTop
    exact decide_eq_true notTop

theorem minrank_least {least : AgentLoc} (found : t.minrank = some least) :
    least ∈ t.items ∧ ∀ loc ∈ t.items, agentLocLessThan loc least = false := by
  obtain ⟨items, sorted⟩ := t
  cases items with
  | nil => cases found
  | cons first rest =>
    cases found
    refine ⟨List.mem_cons_self, fun loc mem => ?_⟩
    rw [Bool.eq_false_iff, ne_eq, agentLocLessThan_iff, not_lt]
    rcases List.mem_cons.mp mem with rfl | later
    · exact le_rfl
    · exact ((List.pairwise_cons.mp sorted).1 loc later).le

/-- An item below all others is the least. -/
theorem minrank_eq {me : AgentLoc} (mem : me ∈ t.items)
    (below : ∀ loc ∈ t.items, loc = me ∨ agentLocLessThan me loc = true) : t.minrank = some me := by
  obtain ⟨items, sorted⟩ := t
  cases items with
  | nil => cases mem
  | cons first rest =>
    rcases List.mem_cons.mp mem with rfl | later
    · rfl
    · rcases below first List.mem_cons_self with rfl | less
      · rfl
      · rw [agentLocLessThan_iff] at less
        exact absurd less ((List.pairwise_cons.mp sorted).1 me later).not_gt

end Ranktree

namespace Membership

/-- What each step does. -/
inductive Moved (m : Membership) : Action → Membership → Prop
  | receivePong (loc : AgentLoc) : Moved m (.receivePong loc) (m.insert loc)
  | clone (asleep : m.place = .beat) :
      Moved m .clone { m with lastSeenLead := m.elec.sloc, place := .cloned m.fromNoTime.clone }
  | clear (mem : Ranktree) (here : m.place = .cloned mem) :
      Moved m .clear { m with fromNoTime := .newRanktree, place := .cleared mem }
  | reseed (mem : Ranktree) (here : m.place = .cleared mem) :
      Moved m .reseed { m.insert m.myLoc with place := .seeded mem }
  | elect (mem : Ranktree) (now : Int) (here : m.place = .seeded mem) :
      Moved m (.elect now) { m with
        elec := heartbeat m.cfg m.lastSeenLead m.elec mem now
        place := .beat
        rounds := m.rounds ++ [⟨mem, now⟩] }

theorem step_moved {m m' : Membership} {a : Action} (stepped : m.step a = some m') :
    m.Moved a m' := by
  cases a with
  | receivePong loc =>
    cases stepped
    exact .receivePong loc
  | clone =>
    simp only [step] at stepped
    split at stepped
    next asleep =>
      cases stepped
      exact .clone asleep
    next => cases stepped
  | clear =>
    simp only [step] at stepped
    split at stepped
    next mem here =>
      cases stepped
      exact .clear mem here
    next => cases stepped
  | reseed =>
    simp only [step] at stepped
    split at stepped
    next mem here =>
      cases stepped
      exact .reseed mem here
    next => cases stepped
  | elect now =>
    simp only [step] at stepped
    split at stepped
    next mem here =>
      cases stepped
      exact .elect mem now here
    next => cases stepped

theorem step_myLoc {m m' : Membership} {a : Action} (stepped : m.step a = some m') :
    m'.myLoc = m.myLoc := by
  cases step_moved stepped <;> rfl

end Membership

end Hnatsd.Health
