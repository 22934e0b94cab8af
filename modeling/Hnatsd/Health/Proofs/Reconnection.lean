import Hnatsd.Health.Agent
import Hnatsd.Health.Proofs.MembershipSteps

/-!
# Reconnection

`setMyLoc` may be called once, and `setupNatsClient` calls it each time. So the first reconnection
that succeeds ends the agent; until then everything is published on the one connection there is.
-/

namespace Hnatsd.Health
open Misc

namespace Agent

section Publishing

variable {a : Agent} {c : Nat}

/-- What publishing on a connection changes. -/
def withReports (a : Agent) (c : Nat) (rs : List Report) : Agent :=
  { a with published := a.published ++ rs.map fun r => (c, r) }

theorem publishIf_reports (condition : Bool) (r : Report) :
    ∃ rs, a.publishIf condition (some c) r = a.withReports c rs := by
  unfold publishIf
  split_ifs
  · exact ⟨[r], rfl⟩
  · exact ⟨[], by simp [withReports]⟩

theorem withReports_withReports (rs rs' : List Report) :
    (a.withReports c rs).withReports c rs' = a.withReports c (rs ++ rs') := by
  simp [withReports]

/-- A round publishes on the connection of the loop and changes nothing else. -/
theorem report_reports (loop : a.loopNc = some c) (curMember : Ranktree) (expired : Bool)
    (curLead : AgentLoc) :
    ∃ rs, a.report curMember expired curLead =
      { a.withReports c rs with prevMember := curMember } := by
  unfold report
  dsimp only
  rw [loop]
  obtain ⟨lost, first⟩ := @publishIf_reports a c
    (!a.prevMember.setsEqual curMember && !(a.prevMember.setDiff curMember).items.isEmpty)
    (.lost (a.prevMember.setDiff curMember))
  rw [first]
  have loop' : (a.withReports c lost).loopNc = some c := loop
  rw [loop']
  obtain ⟨added, second⟩ := @publishIf_reports (a.withReports c lost) c
    (!a.prevMember.setsEqual curMember && !(curMember.setDiff a.prevMember).items.isEmpty)
    (.added (curMember.setDiff a.prevMember))
  rw [second, withReports_withReports]
  have loop'' : (a.withReports c (lost ++ added)).loopNc = some c := loop
  rw [loop'']
  obtain ⟨list, third⟩ := @publishIf_reports (a.withReports c (lost ++ added)) c expired
    (.list curMember curLead.id)
  rw [third, withReports_withReports]
  exact ⟨_, rfl⟩

end Publishing

/-- The agent before it has been started. -/
def Fresh (a : Agent) : Prop :=
  a.place = .unstarted ∧ a.connections = 0 ∧ a.subscribed = [] ∧ a.myLocHasBeenSet = false ∧
    a.published = []

/-- The agent on its only connection. -/
structure Steady (loc : ServerLoc) (a : Agent) : Prop where
  started : a.place ≠ .unstarted
  nc : a.nc = some 0
  loopNc : a.loopNc = some 0
  subscribed : ∀ c ∈ a.subscribed, c = 0
  published : ∀ e ∈ a.published, e.1 = 0
  locationSet : a.myLocHasBeenSet = true
  unmoved : a.locDifferent loc = false

/-- Before and after the start, without a panic. -/
def Running (loc : ServerLoc) (a : Agent) : Prop := a.panicked = none ∧ (a.Fresh ∨ a.Steady loc)

/-- The connections are made to one server and its location is told, or cannot be read for once. -/
def Action.SameServer (loc : ServerLoc) : Action → Prop
  | .start dialed | .reconnect dialed => dialed = .connected loc
  | .receiveAllcall _ told => told = some loc ∨ told = none
  | _ => True

def Action.isReconnect : Action → Bool
  | .reconnect _ => true
  | _ => false

section Steps

variable {loc : ServerLoc} {a a' : Agent}

theorem Steady.publish {c : Nat} (steady : a.Steady loc) (only : c = 0) (rs : List Report) :
    (a.withReports c rs).Steady loc := by
  refine { steady with published := ?_ }
  intro e mem
  rcases List.mem_append.mp mem with old | new
  · exact steady.published e old
  · obtain ⟨r, -, rfl⟩ := List.mem_map.mp new
    exact only

/-- The location is compared through the fields that `setLoc` sets; replies and elections leave them
alone. -/
theorem Steady.withMembership (steady : a.Steady loc) {m : Membership}
    (sameLoc : m.myLoc = a.m.myLoc) : ({ a with m := m } : Agent).Steady loc := by
  refine { steady with unmoved := ?_ }
  have before := steady.unmoved
  unfold locDifferent at before ⊢
  rw [sameLoc]
  exact before

theorem Steady.moveTo (steady : a.Steady loc) {place : LoopPlace} (started : place ≠ .unstarted) :
    ({ a with place := place } : Agent).Steady loc :=
  { steady with started := started }

theorem Running.collect (running : a.Running loc) {part : Membership.Action}
    (stepped : a.collect part = some a') : a'.Running loc := by
  obtain ⟨alive, fresh | steady⟩ := running
  · simp [Agent.collect, fresh.1] at stepped
  · unfold Agent.collect at stepped
    split_ifs at stepped
    obtain ⟨m, moved, rfl⟩ := Option.map_eq_some_iff.mp stepped
    exact ⟨alive, Or.inr (steady.withMembership (Membership.step_myLoc moved))⟩

theorem setupNatsClient_connected (loc : ServerLoc) :
    (a.setupNatsClient (.connected loc)).2 = true := rfl

/-- The first connection. -/
theorem running_start (fresh : a.Fresh) (alive : a.panicked = none) {place : LoopPlace}
    (started : place ≠ .unstarted) :
    Running loc { (a.setupNatsClient (.connected loc)).1 with
      loopNc := (a.setupNatsClient (.connected loc)).1.nc, place := place } := by
  obtain ⟨-, none_yet, unsubscribed, unset, nothing⟩ := fresh
  simp only [setupNatsClient, setLoc, connect, unset, Bool.false_eq_true, if_false, subscribe]
  refine ⟨alive, Or.inr ⟨started, ?_, ?_, ?_, ?_, rfl, ?_⟩⟩
  · simp [none_yet]
  · simp [none_yet]
  · simp [unsubscribed, none_yet]
  · simp [nothing]
  · simp [locDifferent]

/-- A step that is not a reconnection keeps the agent running, and one that is ends it. -/
theorem running_step {act : Action} (running : a.Running loc) (same : act.SameServer loc)
    (stepped : a.step act = some a') :
    if act.isReconnect then a'.panicked = some .doubleSet else a'.Running loc := by
  obtain ⟨alive, phase⟩ := running
  have notPanicked : ¬(a.panicked.isSome = true) := by simp [alive]
  unfold Agent.step at stepped
  rw [if_neg notPanicked] at stepped
  cases act with
  | start dialed =>
    obtain rfl : dialed = .connected loc := same
    simp only [setupNatsClient_connected, if_true] at stepped
    split_ifs at stepped with unstarted
    cases stepped
    rcases phase with fresh | steady
    · exact running_start fresh alive (by simp)
    · exact absurd unstarted steady.started
  | allcall sent =>
    dsimp only at stepped
    split_ifs at stepped with calling ok
    · cases stepped
      rcases phase with fresh | steady
      · rw [fresh.1] at calling
        cases calling
      · rw [steady.nc]
        exact ⟨alive, Or.inr ((steady.publish rfl [_]).moveTo (by simp))⟩
    · cases stepped
      rcases phase with fresh | steady
      · rw [fresh.1] at calling
        cases calling
      · exact ⟨alive, Or.inr (steady.moveTo (by simp))⟩
  | wake =>
    dsimp only at stepped
    split_ifs at stepped with asleep
    cases stepped
    rcases phase with fresh | steady
    · rw [fresh.1] at asleep
      cases asleep
    · exact ⟨alive, Or.inr (steady.moveTo (by simp))⟩
  | reconnect dialed =>
    obtain rfl : dialed = .connected loc := same
    simp only [setupNatsClient_connected, if_true] at stepped
    split_ifs at stepped with asleep
    cases stepped
    rcases phase with fresh | steady
    · rw [fresh.1] at asleep
      cases asleep
    · simp [setupNatsClient, setLoc, connect, subscribe, steady.locationSet, Action.isReconnect]
  | stop =>
    dsimp only at stepped
    split_ifs at stepped with asleep
    cases stepped
    rcases phase with fresh | steady
    · rw [fresh.1] at asleep
      cases asleep
    · exact ⟨alive, Or.inr (steady.moveTo (by simp))⟩
  | receivePong told =>
    dsimp only at stepped
    split_ifs at stepped with unsubscribed deaf
    · cases stepped
      exact ⟨alive, phase⟩
    · cases stepped
      rcases phase with fresh | steady
      · exact absurd fresh.2.2.1 unsubscribed
      · exact ⟨alive, Or.inr (steady.withMembership rfl)⟩
  | clone => exact Running.collect ⟨alive, phase⟩ stepped
  | clear => exact Running.collect ⟨alive, phase⟩ stepped
  | reseed => exact Running.collect ⟨alive, phase⟩ stepped
  | elect now =>
    dsimp only at stepped
    split at stepped
    next mem awake seeded =>
      obtain ⟨m, moved, rfl⟩ := Option.map_eq_some_iff.mp stepped
      rcases phase with fresh | steady
      · rw [fresh.1] at awake
        cases awake
      · have elected := steady.withMembership (Membership.step_myLoc moved)
        obtain ⟨rs, reported⟩ := report_reports elected.loopNc mem
          (leaderLeaseCheck mem now a.m.cfg.leaseTime a.m.lastSeenLead a.m.cfg.maxClockSkew).1
          (if (leaderLeaseCheck mem now a.m.cfg.leaseTime a.m.lastSeenLead
              a.m.cfg.maxClockSkew).1 then
            (a.m.elec.setLeader (leaderLeaseCheck mem now a.m.cfg.leaseTime a.m.lastSeenLead
              a.m.cfg.maxClockSkew).2 now).2.2
          else (leaderLeaseCheck mem now a.m.cfg.leaseTime a.m.lastSeenLead
              a.m.cfg.maxClockSkew).2)
        rw [reported]
        refine ⟨alive, Or.inr ?_⟩
        have published := elected.publish rfl rs
        exact { published with started := by simp }
    next => cases stepped
  | receiveAllcall nc told =>
    dsimp only at stepped
    split_ifs at stepped with subscribed
    cases stepped
    rcases phase with fresh | steady
    · rw [fresh.2.2.1] at subscribed
      cases subscribed
    · unfold receiveAllcall
      simp only [Action.isReconnect, Bool.false_eq_true, if_false]
      split_ifs
      · exact ⟨alive, Or.inr steady⟩
      · rcases same with rfl | rfl
        · simp only [steady.unmoved, Bool.false_eq_true, if_false]
          exact ⟨alive, Or.inr (steady.publish (steady.subscribed nc subscribed) [_])⟩
        · exact ⟨alive, Or.inr steady⟩

theorem no_step_of_panicked {act : Action} (panicked : a.panicked ≠ none) : a.step act = none := by
  unfold Agent.step
  rw [if_pos (Option.isSome_iff_ne_none.mpr panicked)]

/-- Whole runs: the agent runs on as long as there is no reconnection. -/
theorem running_run {actions : List Action} (running : a.Running loc)
    (same : ∀ act ∈ actions, act.SameServer loc)
    (ran : runFrom Agent.step a actions = some a') :
    if actions.any Action.isReconnect then a'.panicked = some .doubleSet else a'.Running loc := by
  induction actions generalizing a with
  | nil =>
    cases ran
    exact running
  | cons act actions ih =>
    obtain ⟨mid, stepped, ran⟩ := Option.bind_eq_some_iff.mp ran
    have after := running_step running (same act List.mem_cons_self) stepped
    rw [List.any_cons]
    cases reconnects : act.isReconnect with
    | true =>
      rw [reconnects, if_pos rfl] at after
      cases actions with
      | nil =>
        cases ran
        exact after
      | cons next actions =>
        -- nothing is possible after a panic
        rw [runFrom, no_step_of_panicked (by simp [after])] at ran
        cases ran
    | false =>
      rw [reconnects, if_neg Bool.false_ne_true] at after
      exact ih after (fun act' mem => same act' (List.mem_cons_of_mem _ mem)) ran

end Steps

/-- A run on one server does not panic and publishes on the connection made last exactly when it has
no reconnection. -/
theorem survives_iff (cfg : MembershipCfg) (myRank pid : Int) (deaf : Bool) (loc : ServerLoc)
    (actions : List Action) (a : Agent) (same : ∀ act ∈ actions, act.SameServer loc)
    (ran : runFrom Agent.step (newAgent cfg myRank pid deaf) actions = some a) :
    (a.panicked = none ∧ ∀ e ∈ a.published, some e.1 = a.nc) ↔
      ∀ act ∈ actions, act.isReconnect = false := by
  have start : (newAgent cfg myRank pid deaf).Running loc :=
    ⟨rfl, Or.inl ⟨rfl, rfl, rfl, rfl, rfl⟩⟩
  have after := running_run start same ran
  constructor
  · rintro ⟨alive, -⟩ act mem
    by_contra reconnects
    have some' : actions.any Action.isReconnect = true :=
      List.any_eq_true.mpr ⟨act, mem, by simpa using reconnects⟩
    rw [some', if_pos rfl, alive] at after
    cases after
  · intro steadily
    have none' : actions.any Action.isReconnect = false := by
      rw [List.any_eq_false]
      intro act mem
      simp [steadily act mem]
    rw [none', if_neg Bool.false_ne_true] at after
    obtain ⟨alive, fresh | steady⟩ := after
    · refine ⟨alive, ?_⟩
      rw [fresh.2.2.2.2]
      exact fun e mem => (List.not_mem_nil mem).elim
    · refine ⟨alive, fun e mem => ?_⟩
      rw [steady.nc, steady.published e mem]

/-- A round on the first connection: the call, and the list of members with the elected leader. -/
theorem survives_one_round :
    ∃ a, runFrom Agent.step (newAgent { maxClockSkew := 10 ^ 9, leaseTime := 12 * 10 ^ 9 } 0 7 false)
        [.start (.connected ⟨bytesOf "A", bytesOf "h", 4222⟩), .allcall true,
          .receivePong { id := bytesOf "A", natsHost := bytesOf "h", natsClientPort := 4222, pid := 7 },
          .wake, .clone, .clear, .reseed, .elect 0] = some a ∧
      (a.panicked = none ∧ ∀ e ∈ a.published, some e.1 = a.nc) ∧ a.published.length = 3 := by
  refine exists_run_imp (P := fun a => a.published.length = 3) (fun a ran three => ⟨?_, three⟩)
    (by decide)
  refine (survives_iff _ _ _ _ ⟨bytesOf "A", bytesOf "h", 4222⟩ _ a ?_ ran).mpr (by decide)
  intro act mem
  simp only [List.mem_cons, List.not_mem_nil, or_false] at mem
  rcases mem with rfl | rfl | rfl | rfl | rfl | rfl | rfl | rfl <;> trivial

/-- The first disconnect notice, with a successful connection to the same server. -/
theorem reconnection_panics :
    ∃ a, runFrom Agent.step (newAgent { maxClockSkew := 10 ^ 9, leaseTime := 12 * 10 ^ 9 } 0 7 false)
        [.start (.connected ⟨bytesOf "A", bytesOf "h", 4222⟩), .allcall true,
          .reconnect (.connected ⟨bytesOf "A", bytesOf "h", 4222⟩)] = some a ∧
      a.panicked = some .doubleSet := exists_run (by decide)

end Agent

end Hnatsd.Health
