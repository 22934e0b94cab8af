import Hnatsd.Health.Proofs.PongCollector

/-!
# The most preferred agent

An agent whose own location is below all others is the least member of every set it is in, and it is
in every set from the second on, since `getSetAndClear` puts it back. Nothing puts it into the first
set but its own reply: if other replies are in by then and its own is not, it follows another.
-/

namespace Hnatsd.Health
open Misc Ranktree

variable {me : AgentLoc} {t : Ranktree}

section Elections

/-- Every leader the holder has recorded is `me`, up to its lease. -/
structure Records (me : AgentLoc) (e : LeadHolder) : Prop where
  sloc : e.sloc = {} ∨ e.sloc.withZeroLease = me
  history : ∀ lead ∈ e.history, lead.withZeroLease = me

/-- The set elects `me` or nobody. -/
def Elects (me : AgentLoc) (mems : Ranktree) : Prop := mems.minrank = none ∨ mems.minrank = some me

/-- `setLeader` keeps the holder or accepts its argument. -/
theorem LeadHolder.setLeader_cases (e : LeadHolder) (sloc : AgentLoc) (now : Int) :
    (e.setLeader sloc now).1 = e ∨ (e.setLeader sloc now).1 = e.accept sloc := by
  unfold LeadHolder.setLeader
  dsimp only
  split_ifs <;> simp

theorem Records.accept {lead : AgentLoc} {e : LeadHolder} (records : Records me e)
    (self : lead.withZeroLease = me) : Records me (e.accept lead) := by
  refine ⟨Or.inr (by rw [LeadHolder.accept_sloc, self]), fun entry mem => ?_⟩
  unfold LeadHolder.accept LeadHolder.append at mem
  split at mem
  · exact records.history entry mem
  · rcases List.mem_append.mp mem with old | new
    · exact records.history entry old
    · rw [List.mem_singleton.mp new, self]

theorem Records.heartbeat {lastSeenLead : AgentLoc} {e : LeadHolder} {cfg : MembershipCfg}
    {mems : Ranktree} {now : Int} (records : Records me e) (zero : me.withZeroLease = me)
    (elects : Elects me mems) : Records me (heartbeat cfg lastSeenLead e mems now) := by
  unfold Health.heartbeat leaderLeaseCheck
  split_ifs with honoured
  · simpa using records
  · rcases elects with nobody | self
    · simpa [nobody] using records
    · simp only [self, if_true]
      rcases e.setLeader_cases { me with leaseExpires := now + cfg.leaseTime } now with same | new
      · rw [same]
        exact records
      · rw [new]
        exact records.accept zero

end Elections

namespace Membership

/-- A reply comes from the agent itself or from one it is preferred to. -/
def Preferred (me loc : AgentLoc) : Prop :=
  loc.withZeroLease = me.withZeroLease ∨
    agentLocLessThan me.withZeroLease loc.withZeroLease = true

/-- When the first set is cloned, it has the agent itself or nobody. -/
def OwnFirst (m : Membership) : Action → Prop
  | .clone => m.rounds = [] →
      m.fromNoTime.items = [] ∨ m.myLoc.withZeroLease ∈ m.fromNoTime.items
  | _ => True

instance (m : Membership) (a : Action) : Decidable (m.OwnFirst a) := by
  unfold OwnFirst
  split <;> infer_instance

/-- What holds in every run: the collector has the agent itself from its first heartbeat on, and what
it returns elects it. -/
structure Leads (me : AgentLoc) (m : Membership) : Prop where
  myLoc : m.myLoc.withZeroLease = me
  members : ∀ loc ∈ m.fromNoTime.items, loc = me ∨ agentLocLessThan me loc = true
  own : (match m.place with
    | .beat => m.rounds ≠ []
    | .seeded _ => True
    | _ => False) → me ∈ m.fromNoTime.items
  elects : ∀ mem, m.place = .cloned mem ∨ m.place = .cleared mem ∨ m.place = .seeded mem →
    Elects me mem
  records : Records me m.elec

/-- Inserting a location keeps the members, and the agent itself among them. -/
theorem mem_insert {loc : AgentLoc}
    (member : loc = me ∨ agentLocLessThan me loc = true) (own : me ∈ t.items) :
    me ∈ (t.insert loc).items := by
  rcases member with rfl | less
  · exact mem_treeReplace_self agentLocLessThan loc t.items
  · refine mem_treeReplace_of_ne agentLocLessThan_iff own ?_
    rw [agentLocLessThan_iff] at less
    exact less.ne

theorem members_insert {loc : AgentLoc}
    (member : loc = me ∨ agentLocLessThan me loc = true)
    (members : ∀ x ∈ t.items, x = me ∨ agentLocLessThan me x = true) :
    ∀ x ∈ (t.insert loc).items, x = me ∨ agentLocLessThan me x = true := by
  intro x mem
  rcases mem_treeReplace agentLocLessThan_iff t.sorted mem with rfl | ⟨old, -⟩
  · exact member
  · exact members x old

/-- A clone of a set with the agent in it elects the agent; if it has no ID then nobody has. -/
theorem elects_clone
    (members : ∀ x ∈ t.items, x = me ∨ agentLocLessThan me x = true)
    (own : t.items = [] ∨ me ∈ t.items) : Elects me t.clone := by
  have cloned : ∀ x ∈ t.clone.items, x = me ∨ agentLocLessThan me x = true := by
    intro x mem
    rw [items_clone] at mem
    exact members x (List.mem_of_mem_filter mem)
  rcases own with none_left | own
  · left
    rw [minrank, items_clone, none_left]
    rfl
  · by_cases named : me.id = []
    · left
      have gone : t.clone.items = [] := by
        refine List.eq_nil_iff_forall_not_mem.mpr fun x mem => ?_
        have kept := mem
        rw [items_clone, List.mem_filter, decide_eq_true_eq] at kept
        rcases cloned x mem with rfl | less
        · exact kept.2 named
        · simp [agentLocLessThan, named] at less
      rw [minrank, gone]
      rfl
    · right
      refine minrank_eq ?_ cloned
      rw [items_clone]
      exact List.mem_filter.mpr ⟨own, decide_eq_true named⟩

theorem Leads.step {m m' : Membership} {a : Action} (leads : Leads me m)
    (zero : me.withZeroLease = me) (preferred : ∀ loc, a = .receivePong loc →
      loc.withZeroLease = me ∨ agentLocLessThan me loc.withZeroLease = true)
    (first : m.OwnFirst a) (moved : m.Moved a m') : Leads me m' := by
  cases moved with
  | receivePong loc =>
    have member := preferred loc rfl
    exact ⟨leads.myLoc, members_insert member leads.members,
      fun here => mem_insert member (leads.own here), leads.elects, leads.records⟩
  | clone asleep =>
    refine ⟨leads.myLoc, leads.members, False.elim, ?_, leads.records⟩
    rintro mem (here | here | here)
    · cases here
      refine elects_clone leads.members ?_
      by_cases none_yet : m.rounds = []
      · rw [← leads.myLoc]
        exact first none_yet
      · exact Or.inr (leads.own (by simpa [asleep] using none_yet))
    · cases here
    · cases here
  | clear mem here =>
    refine ⟨leads.myLoc, fun loc none_left => absurd none_left List.not_mem_nil, False.elim, ?_,
      leads.records⟩
    rintro mem' (other | same | other)
    · cases other
    · cases same
      exact leads.elects mem (Or.inl here)
    · cases other
  | reseed mem here =>
    have member : m.myLoc.withZeroLease = me ∨
        agentLocLessThan me m.myLoc.withZeroLease = true := Or.inl leads.myLoc
    refine ⟨leads.myLoc, members_insert member leads.members, fun _ => ?_, ?_, leads.records⟩
    · show me ∈ treeReplace agentLocLessThan m.myLoc.withZeroLease m.fromNoTime.items
      rw [leads.myLoc]
      exact mem_treeReplace_self agentLocLessThan me m.fromNoTime.items
    · rintro mem' (other | other | same)
      · cases other
      · cases other
      · cases same
        exact leads.elects mem (Or.inr (Or.inl here))
  | elect mem now here =>
    refine ⟨leads.myLoc, leads.members, fun _ => leads.own (by simp [here]), ?_, ?_⟩
    · rintro mem' (other | other | other) <;> cases other
    · exact leads.records.heartbeat zero (leads.elects mem (Or.inr (Or.inr here)))

theorem leads_newMembership (cfg : MembershipCfg) (me : AgentLoc) :
    Leads me.withZeroLease (newMembership cfg me) where
  myLoc := rfl
  members := fun loc mem => nomatch mem
  own := fun later => absurd rfl later
  elects := by
    rintro mem (other | other | other) <;> cases other
  records := ⟨Or.inl rfl, fun lead mem => nomatch mem⟩

/-- The most preferred agent follows no other: in every run in which its own reply is in before the
first set is taken, or nobody's, every leader it has recorded is itself. -/
theorem preferred_leads (cfg : MembershipCfg) (me : AgentLoc) (actions : List Action)
    (preferred : ∀ loc, .receivePong loc ∈ actions → Preferred me loc)
    (first : Along step OwnFirst (newMembership cfg me) actions) (m : Membership)
    (ran : runFrom step (newMembership cfg me) actions = some m) :
    (m.elec.sloc = {} ∨ m.elec.sloc.withZeroLease = me.withZeroLease) ∧
      ∀ lead ∈ m.elec.history, lead.withZeroLease = me.withZeroLease := by
  have fromPreferred : Along step
      (fun _ a => ∀ loc, a = .receivePong loc → Preferred me loc) (newMembership cfg me) actions :=
    along_of_forall fun a mem _ loc here => preferred loc (here ▸ mem)
  have leads : Leads me.withZeroLease m := by
    refine invariant_of_along ?_ (leads_newMembership cfg me) (first.and fromPreferred) ran
    intro s a s' leads guard stepped
    exact leads.step rfl guard.2 guard.1 (step_moved stepped)
  exact ⟨leads.records.sloc, leads.records.history⟩

/-- Both replies are in before the first set is taken: `A` leads. -/
theorem preferred_leads_both :
    ∃ m, runFrom step (newMembership defaultCfg { id := bytesOf "A" })
        [.receivePong { id := bytesOf "B", rank := 1 }, .receivePong { id := bytesOf "A" },
          .clone, .clear, .reseed, .elect 0] = some m ∧
      (m.elec.sloc = {} ∨ m.elec.sloc.withZeroLease = { id := bytesOf "A" }) ∧
      ∀ lead ∈ m.elec.history, lead.withZeroLease = { id := bytesOf "A" } := by
  refine exists_run_imp (P := fun m => m.elec.history.length = 1) (fun m ran _ => ?_)
    (by decide)
  refine preferred_leads defaultCfg { id := bytesOf "A" } _ ?_ (by decide) m ran
  intro loc mem
  simp only [List.mem_cons, Action.receivePong.injEq, reduceCtorEq, List.not_mem_nil, or_false]
    at mem
  rcases mem with rfl | rfl
  · exact Or.inr (by decide)
  · exact Or.inl rfl

/-- `A` ranks below `B`, but when only the reply of `B` is in by the first heartbeat, `A` follows
`B`. -/
theorem preferred_follows :
    ∃ m, runFrom step (newMembership defaultCfg { id := bytesOf "A" })
        [.receivePong { id := bytesOf "B", rank := 1 }, .clone, .clear, .reseed, .elect 0] =
          some m ∧
      agentLocLessThan { id := bytesOf "A" } { id := bytesOf "B", rank := 1 } = true ∧
      m.elec.sloc.id = bytesOf "B" ∧ m.elec.history.map (·.id) = [bytesOf "B"] :=
  exists_run (by decide)

end Membership

end Hnatsd.Health
