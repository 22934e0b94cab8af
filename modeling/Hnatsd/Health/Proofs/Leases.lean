import Hnatsd.Health.Proofs.MembershipSteps

/-!
# Leases

`leaderLeaseCheck` and `setLeader` decide separately: the first adds the clock skew to the lease and
the second compares leases in 64 bits. Over whole runs of the loop they agree, as long as a new
lease fits 64 bits: what the first chooses the second accepts, and it is held until its lease and
the skew have passed.
-/

namespace Hnatsd.Health
open Misc List Ranktree

variable {e : LeadHolder} {r : Round}

section Holder

/-- A leader whose lease has passed gives way to one with a lease to come, and so does no leader:
the year 1 is long past or, where its `UnixNano` is not, an empty ID ranks last. -/
theorem LeadHolder.setLeader_accepts {sloc : AgentLoc} {now : Int}
    (named : sloc.id ≠ []) (reading : Fits64 now) (lease : Fits64 sloc.leaseExpires)
    (toCome : now < sloc.leaseExpires)
    (past : e.sloc = {} ∨ Fits64 e.sloc.leaseExpires ∧ e.sloc.leaseExpires ≤ now) :
    e.setLeader sloc now = (e.accept sloc, true, sloc) := by
  have nowu : unixNano now = now := wrap64_of_bounds reading.1 reading.2
  have newe : unixNano sloc.leaseExpires = sloc.leaseExpires := wrap64_of_bounds lease.1 lease.2
  have notExpired : decide (sloc.leaseExpires ≤ now) = false := decide_eq_false (by omega)
  unfold LeadHolder.setLeader
  simp only [named, if_false, nowu, newe, notExpired, Bool.and_false, Bool.not_false, Bool.and_true]
  cases cure : decide (unixNano e.sloc.leaseExpires ≤ now) with
  | true => simp
  | false =>
    rcases past with noLeader | ⟨fits, expired⟩
    · have wins : agentLocLessThan sloc e.sloc = true := by
        rw [noLeader]
        simp [agentLocLessThan, named]
      simp [wins]
    · rw [unixNano, wrap64_of_bounds fits.1 fits.2] at cure
      exact absurd expired (of_decide_eq_false cure)

end Holder

section Rounds

variable (cfg : MembershipCfg)

/-- The held leader after a number of heartbeats. -/
def elecAfter (rounds : List Round) : LeadHolder :=
  rounds.foldl (fun e r => heartbeat cfg e.sloc e r.members r.now)
    (.newLeadHolder cfg.historyCount)

/-- What `leaderLeaseCheck` answers in a round. -/
def Round.check (r : Round) (e : LeadHolder) : Bool × AgentLoc :=
  leaderLeaseCheck r.members r.now cfg.leaseTime e.sloc cfg.maxClockSkew

theorem elecAfter_concat (rounds : List Round) (r : Round) :
    elecAfter cfg (rounds ++ [r]) =
      heartbeat cfg (elecAfter cfg rounds).sloc (elecAfter cfg rounds) r.members r.now := by
  simp [elecAfter]

variable {cfg}

/-- The rounds of a run with its replies are rounds of the loop: only the loop changes the held
leader, so it has read the one it checks. -/
theorem Membership.elec_eq_elecAfter {myLoc : AgentLoc} {actions : List Membership.Action}
    {m : Membership}
    (ran : runFrom Membership.step (.newMembership cfg myLoc) actions = some m) :
    m.elec = elecAfter cfg m.rounds := by
  let Inv (m : Membership) : Prop := m.cfg = cfg ∧ m.elec = elecAfter cfg m.rounds ∧
    (m.place = .beat ∨ m.lastSeenLead = m.elec.sloc)
  have inv : Inv m := by
    refine invariant_of_run ?_ ⟨rfl, rfl, Or.inl rfl⟩ ran
    rintro m a m' ⟨sameCfg, elec, seen⟩ stepped
    cases Membership.step_moved stepped with
    | receivePong loc => exact ⟨sameCfg, elec, seen⟩
    | clone asleep => exact ⟨sameCfg, elec, Or.inr rfl⟩
    | clear mem here =>
      refine ⟨sameCfg, elec, Or.inr (seen.resolve_left ?_)⟩
      simp [here]
    | reseed mem here =>
      refine ⟨sameCfg, elec, Or.inr (seen.resolve_left ?_)⟩
      simp [here]
    | elect mem now here =>
      have read : m.lastSeenLead = m.elec.sloc := seen.resolve_left (by simp [here])
      refine ⟨sameCfg, ?_, Or.inl rfl⟩
      rw [elecAfter_concat, ← elec, sameCfg, read]
  exact inv.2.1

/-- A round that finds the lease to have passed chooses the least member. -/
theorem Round.check_expired (expired : (r.check cfg e).1 = true) :
    e.sloc.leaseExpires + cfg.maxClockSkew ≤ r.now ∧
      ∃ least ∈ r.members.items,
        (r.check cfg e).2 = { least with leaseExpires := r.now + cfg.leaseTime } ∧
        ∀ loc ∈ r.members.items, agentLocLessThan loc least = false := by
  unfold Round.check leaderLeaseCheck at expired ⊢
  by_cases honoured : r.now < e.sloc.leaseExpires + cfg.maxClockSkew
  · simp [honoured] at expired
  · rw [if_neg honoured] at expired ⊢
    refine ⟨by omega, ?_⟩
    cases found : r.members.minrank with
    | none => simp [found] at expired
    | some least =>
      obtain ⟨mem, lowest⟩ := minrank_least found
      exact ⟨least, mem, rfl, lowest⟩

theorem heartbeat_kept (kept : (r.check cfg e).1 = false) :
    heartbeat cfg e.sloc e r.members r.now = e := by
  unfold Round.check at kept
  simp [heartbeat, kept]

theorem heartbeat_chosen (expired : (r.check cfg e).1 = true) :
    heartbeat cfg e.sloc e r.members r.now = (e.setLeader (r.check cfg e).2 r.now).1 := by
  unfold Round.check at expired ⊢
  simp [heartbeat, expired]

theorem Round.check_honoured
    (honoured : r.now < e.sloc.leaseExpires + cfg.maxClockSkew) :
    (r.check cfg e).1 = false := by
  simp [Round.check, leaderLeaseCheck, honoured]

/-- What the loop may see in a round: a reading that fits 64 bits with a lease that fits too, and
members that have IDs. -/
structure Round.Sound (cfg : MembershipCfg) (r : Round) : Prop where
  reading : Fits64 r.now
  lease : Fits64 (r.now + cfg.leaseTime)
  named : ∀ loc ∈ r.members.items, loc.id ≠ []

/-- No leader yet, or one whose lease fits 64 bits. -/
def Leased (e : LeadHolder) : Prop := e.sloc = {} ∨ Fits64 e.sloc.leaseExpires

/-- The loop's choice is accepted. -/
theorem Round.choice_accepted (leasePos : 0 < cfg.leaseTime)
    (skew : 0 ≤ cfg.maxClockSkew) (sound : r.Sound cfg) (leased : Leased e)
    (expired : (r.check cfg e).1 = true) :
    e.setLeader (r.check cfg e).2 r.now = (e.accept (r.check cfg e).2, true, (r.check cfg e).2) := by
  obtain ⟨past, least, mem, choice, -⟩ := Round.check_expired expired
  rw [choice]
  refine LeadHolder.setLeader_accepts (sound.named least mem) sound.reading sound.lease
    ?_ ?_
  · show r.now < r.now + cfg.leaseTime
    omega
  · rcases leased with noLeader | fits
    · exact Or.inl noLeader
    · exact Or.inr ⟨fits, by omega⟩

theorem leased_heartbeat (leasePos : 0 < cfg.leaseTime)
    (skew : 0 ≤ cfg.maxClockSkew) (sound : r.Sound cfg) (leased : Leased e) :
    Leased (heartbeat cfg e.sloc e r.members r.now) := by
  cases expired : (r.check cfg e).1 with
  | false =>
    rw [heartbeat_kept expired]
    exact leased
  | true =>
    rw [heartbeat_chosen expired, Round.choice_accepted leasePos skew sound leased expired]
    obtain ⟨-, least, -, choice, -⟩ := Round.check_expired expired
    right
    rw [LeadHolder.accept_sloc, choice]
    exact sound.lease

theorem leased_elecAfter (leasePos : 0 < cfg.leaseTime) (skew : 0 ≤ cfg.maxClockSkew)
    {rounds : List Round} (sound : ∀ r ∈ rounds, r.Sound cfg) :
    Leased (elecAfter cfg rounds) := by
  induction rounds using reverseRecOn with
  | nil => exact Or.inl rfl
  | append_singleton rounds r ih =>
    rw [elecAfter_concat]
    refine leased_heartbeat leasePos skew (sound r (by simp)) (ih fun r' mem => ?_)
    exact sound r' (mem_append_left _ mem)

/-- While the readings are before the end of the lease and the skew, nothing changes. -/
theorem elecAfter_held {before later : List Round}
    (honoured : ∀ r ∈ later,
      r.now < (elecAfter cfg before).sloc.leaseExpires + cfg.maxClockSkew) :
    elecAfter cfg (before ++ later) = elecAfter cfg before := by
  induction later using reverseRecOn with
  | nil => rw [append_nil]
  | append_singleton later r ih =>
    have held := ih fun r' mem => honoured r' (mem_append_left _ mem)
    rw [← append_assoc, elecAfter_concat, held]
    exact heartbeat_kept (Round.check_honoured (honoured r (by simp)))

/-- Leases are honoured. In every run of the loop a round that does not find the lease to have passed
changes nothing; in one that does, `setLeader` accepts the choice, which is the least member of the
round with a lease of `LeaseTime`; and the chosen leader is held at every later reading before the
end of its lease and the clock skew. -/
theorem leases_honoured (leasePos : 0 < cfg.leaseTime) (skew : 0 ≤ cfg.maxClockSkew)
    (rounds : List Round) (ordered : rounds.Pairwise fun r r' => r.now ≤ r'.now)
    (sound : ∀ r ∈ rounds, r.Sound cfg) (before : List Round) (r : Round)
    (after : List Round) (split : rounds = before ++ r :: after) :
    ((r.check cfg (elecAfter cfg before)).1 = false →
        elecAfter cfg (before ++ [r]) = elecAfter cfg before) ∧
      ((r.check cfg (elecAfter cfg before)).1 = true →
        ∃ least ∈ r.members.items, ∃ lead,
          lead = { least with leaseExpires := r.now + cfg.leaseTime } ∧
          (∀ loc ∈ r.members.items, agentLocLessThan loc least = false) ∧
          (r.check cfg (elecAfter cfg before)).2 = lead ∧
          ((elecAfter cfg before).setLeader lead r.now).2.1 = true ∧
          (elecAfter cfg (before ++ [r])).sloc = lead ∧
          ∀ middle r' rest, after = middle ++ r' :: rest →
            r'.now < lead.leaseExpires + cfg.maxClockSkew →
            (elecAfter cfg (before ++ r :: middle)).sloc = lead ∧
              (elecAfter cfg (before ++ r :: middle ++ [r'])).sloc = lead) := by
  refine ⟨fun kept => ?_, fun expired => ?_⟩
  · rw [elecAfter_concat]
    exact heartbeat_kept kept
  · have leased : Leased (elecAfter cfg before) := leased_elecAfter leasePos skew
      fun r' mem => sound r' (by simp [split, mem])
    have accepted := Round.choice_accepted leasePos skew (sound r (by simp [split])) leased
      expired
    obtain ⟨-, least, mem, choice, lowest⟩ := Round.check_expired expired
    have installed : (elecAfter cfg (before ++ [r])).sloc =
        (r.check cfg (elecAfter cfg before)).2 := by
      rw [elecAfter_concat, heartbeat_chosen expired, accepted, LeadHolder.accept_sloc]
    rw [choice] at accepted installed
    refine ⟨least, mem, _, rfl, lowest, choice, by rw [accepted], installed, ?_⟩
    intro middle r' rest later inTime
    -- the readings up to `r'` are no later than it
    have inOrder : ∀ q ∈ middle ++ [r'], q.now ≤ r'.now := by
      intro q memQ
      rcases mem_append.mp memQ with inMiddle | last
      · rw [split, later] at ordered
        have tail := (pairwise_append.mp ordered).2.1
        have deeper := (pairwise_append.mp (pairwise_cons.mp tail).2).2.2
        exact deeper q inMiddle r' mem_cons_self
      · rw [mem_singleton.mp last]
    have held : ∀ qs, (∀ q ∈ qs, q.now ≤ r'.now) →
        (elecAfter cfg ((before ++ [r]) ++ qs)).sloc = (elecAfter cfg (before ++ [r])).sloc := by
      intro qs early
      rw [elecAfter_held]
      intro q memQ
      rw [installed]
      exact lt_of_le_of_lt (early q memQ) inTime
    have atReading := held middle fun q memQ => inOrder q (mem_append_left _ memQ)
    have afterReading := held (middle ++ [r']) inOrder
    rw [installed] at atReading afterReading
    simp only [append_assoc, singleton_append] at atReading afterReading ⊢
    exact ⟨atReading, by simpa using afterReading⟩

/-- A heartbeat keeps the leader, or accepts one whose lease begins when the last is over. -/
theorem heartbeat_cases (e : LeadHolder) (r : Round) :
    heartbeat cfg e.sloc e r.members r.now = e ∨
      ∃ lead, heartbeat cfg e.sloc e r.members r.now = e.accept lead ∧
        e.sloc.leaseExpires + cfg.maxClockSkew + cfg.leaseTime ≤ lead.leaseExpires := by
  cases expired : (r.check cfg e).1 with
  | false => exact Or.inl (heartbeat_kept expired)
  | true =>
    obtain ⟨past, least, -, choice, -⟩ := Round.check_expired expired
    rw [heartbeat_chosen expired, choice]
    unfold LeadHolder.setLeader
    dsimp only
    split_ifs
    all_goals first
      | exact Or.inl rfl
      | exact Or.inr ⟨_, rfl, by dsimp only; omega⟩

/-- In every run of an agent, whatever its clock shows, the lease of a leader begins after the leases
of the leaders before it in the history and the clock skew have passed. -/
theorem leases_apart (forward : 0 ≤ cfg.maxClockSkew + cfg.leaseTime)
    (myLoc : AgentLoc) (actions : List Membership.Action) (m : Membership)
    (ran : runFrom Membership.step (.newMembership cfg myLoc) actions = some m) :
    m.elec.history.Pairwise fun lead next =>
      lead.leaseExpires + cfg.maxClockSkew + cfg.leaseTime ≤ next.leaseExpires := by
  rw [Membership.elec_eq_elecAfter ran]
  -- no lease of the history ends after that of the leader
  refine (?_ : _ ∧ ∀ lead ∈ (elecAfter cfg m.rounds).history,
    lead.leaseExpires ≤ (elecAfter cfg m.rounds).sloc.leaseExpires).1
  induction m.rounds using reverseRecOn with
  | nil => exact ⟨.nil, forall_mem_nil _⟩
  | append_singleton rounds r ih =>
    rw [elecAfter_concat]
    rcases @heartbeat_cases cfg (elecAfter cfg rounds) r with kept | ⟨lead, accepted, later⟩
    · rw [kept]
      exact ih
    · obtain ⟨apart, upTo⟩ := ih
      rw [accepted, LeadHolder.accept_sloc]
      have before : ∀ old ∈ (elecAfter cfg rounds).history,
          old.leaseExpires + cfg.maxClockSkew + cfg.leaseTime ≤ lead.leaseExpires := by
        intro old mem
        linarith [upTo old mem]
      have upTo' : ∀ old ∈ (elecAfter cfg rounds).history, old.leaseExpires ≤ lead.leaseExpires := by
        intro old mem
        linarith [before old mem]
      unfold LeadHolder.accept LeadHolder.append
      split_ifs
      · exact ⟨apart, upTo'⟩
      · exact ⟨pairwise_append.mpr ⟨apart, pairwise_singleton _ _, by simpa using before⟩,
          forall_mem_append.mpr ⟨upTo', by simp⟩⟩

end Rounds

/-- One member, a lease of twelve seconds and two heartbeats five seconds apart: at the second the
first choice is still held. -/
theorem leases_honoured_twice :
    (elecAfter { maxClockSkew := 10 ^ 9, leaseTime := 12 * 10 ^ 9 }
      [⟨newRanktree.insert { id := bytesOf "A" }, 0⟩,
        ⟨newRanktree.insert { id := bytesOf "A" }, 5 * 10 ^ 9⟩]).sloc =
      { id := bytesOf "A", leaseExpires := 12 * 10 ^ 9 } := by
  have sound : ∀ r ∈ [(⟨newRanktree.insert { id := bytesOf "A" }, 0⟩ : Round),
      ⟨newRanktree.insert { id := bytesOf "A" }, 5 * 10 ^ 9⟩],
      r.Sound { maxClockSkew := 10 ^ 9, leaseTime := 12 * 10 ^ 9 } := by
    intro r mem
    simp only [mem_cons, not_mem_nil, or_false] at mem
    rcases mem with rfl | rfl <;> exact ⟨by decide, by decide, by decide⟩
  obtain ⟨least, mem, lead, eq, -, -, -, -, held⟩ :=
    (@leases_honoured { maxClockSkew := 10 ^ 9, leaseTime := 12 * 10 ^ 9 } (by decide) (by decide)
      _ (by decide) sound [] _ _ rfl).2 (by decide)
  have least_eq : least = { id := bytesOf "A" } := mem_singleton.mp mem
  have later := (held [] _ [] rfl (by rw [eq, least_eq]; decide)).2
  rw [eq, least_eq] at later
  exact later

/-- The longest `LeaseTime` from a reading after the epoch does not fit 64 bits: the new lease counts
as expired and the loop's choice is rejected. -/
theorem lease_overflow_rejected :
    (0 : Int) < 2 ^ 63 - 1 ∧ Fits64 1 ∧
      ∃ cfg : MembershipCfg, cfg.leaseTime = 2 ^ 63 - 1 ∧ cfg.maxClockSkew = 10 ^ 9 ∧
        ((⟨newRanktree.insert { id := bytesOf "A" }, 1⟩ : Round).check cfg
          (elecAfter cfg [])).1 = true ∧
        ((elecAfter cfg []).setLeader
          ((⟨newRanktree.insert { id := bytesOf "A" }, 1⟩ : Round).check cfg
            (elecAfter cfg [])).2 1).2.1 = false ∧
        (elecAfter cfg [⟨newRanktree.insert { id := bytesOf "A" }, 1⟩]).sloc = {} :=
  ⟨by decide, by decide, { maxClockSkew := 10 ^ 9, leaseTime := 2 ^ 63 - 1 }, by decide⟩

/-- Two heartbeats, the second after the first lease: two leaders. -/
theorem leases_apart_two : ∃ m, runFrom Membership.step
    (.newMembership { maxClockSkew := 1, leaseTime := 5 } { id := bytesOf "A" })
      [.receivePong { id := bytesOf "B" }, .clone, .clear, .reseed, .elect 0,
        .clone, .clear, .reseed, .elect 9] = some m ∧
      m.elec.history.length = 2 ∧
      m.elec.history.Pairwise fun lead next => lead.leaseExpires + 1 + 5 ≤ next.leaseExpires :=
  exists_run_imp (P := fun m => m.elec.history.length = 2)
    (fun m ran final => ⟨final, leases_apart (by decide) _ _ m ran⟩) (by decide)

end Hnatsd.Health
