import Hnatsd.Health.Proofs.MembershipSteps

/-!
# The pong collector

`getSetAndClear` clones the set, clears it and puts the agent's own location back, and replies may
arrive between these steps. A reply that arrives while the loop sleeps is in the next set. One that
arrives during `getSetAndClear` is in the running or the next set, unless it arrives between the
clone and the clear: then it is in neither, if the clone did not have its sender and the sender is
not the agent itself.
-/

namespace Hnatsd.Health
open Misc Membership Ranktree

variable {loc : AgentLoc} {m m' : Membership} {k : Nat}

namespace Membership

/-- A member is in the `k`-th set, or on its way into it. -/
def InSet (loc : AgentLoc) (k : Nat) (m : Membership) : Prop :=
  (∃ r, m.rounds[k]? = some r ∧ r.members.has loc = true) ∨
    m.rounds.length = k ∧
      match m.place with
      | .beat => m.fromNoTime.has loc = true
      | .cloned mem | .cleared mem | .seeded mem => mem.has loc = true

/-- A member will be in the set after the `k`-th: it has entered the cleared collector, or will do
so with the agent's own location. -/
def AfterSet (loc : AgentLoc) (k : Nat) (m : Membership) : Prop :=
  InSet loc (k + 1) m ∨
    m.rounds.length = k ∧
      match m.place with
      | .beat => False
      | .cloned _ => slocEqualIgnoreLease loc m.myLoc = true
      | .cleared _ => slocEqualIgnoreLease loc m.myLoc = true ∨ m.fromNoTime.has loc = true
      | .seeded _ => m.fromNoTime.has loc = true

theorem rounds_append {r : Round} {q : Round}
    (found : m.rounds[k]? = some q) : (m.rounds ++ [r])[k]? = some q := by
  rw [List.getElem?_append_left (List.getElem?_eq_some_iff.mp found).1]
  exact found

theorem InSet.step {a : Action} (named : loc.id ≠ [])
    (inSet : InSet loc k m) (moved : m.Moved a m') : InSet loc k m' := by
  rcases inSet with ⟨r, found, has⟩ | ⟨here, waits⟩
  · left
    cases moved with
    | elect mem now at' => exact ⟨r, rounds_append found, has⟩
    | receivePong _ => exact ⟨r, found, has⟩
    | clone _ => exact ⟨r, found, has⟩
    | clear _ _ => exact ⟨r, found, has⟩
    | reseed _ _ => exact ⟨r, found, has⟩
  · cases moved with
    | receivePong pong =>
      refine Or.inr ⟨here, ?_⟩
      cases at' : m.place with
      | beat =>
        simp only [at'] at waits
        simpa [insert, at'] using has_insert.mpr (Or.inr waits)
      | cloned mem => simpa [insert, at'] using waits
      | cleared mem => simpa [insert, at'] using waits
      | seeded mem => simpa [insert, at'] using waits
    | clone asleep =>
      simp only [asleep] at waits
      exact Or.inr ⟨here, (has_clone named).mpr waits⟩
    | clear mem at' =>
      simp only [at'] at waits
      exact Or.inr ⟨here, waits⟩
    | reseed mem at' =>
      simp only [at'] at waits
      exact Or.inr ⟨here, waits⟩
    | elect mem now at' =>
      simp only [at'] at waits
      refine Or.inl ⟨⟨mem, now⟩, ?_, waits⟩
      rw [← here]
      exact List.getElem?_concat_length

theorem InSet.run {loc : AgentLoc} {k : Nat} {m m' : Membership} {actions : List Action}
    (start : InSet loc k m) (named : loc.id ≠ [])
    (ran : runFrom Membership.step m actions = some m') : InSet loc k m' := by
  refine @invariant_of_run _ _ Membership.step (InSet loc k) ?_ _ _ _ start ran
  intro s a s' inSet stepped
  exact inSet.step named (step_moved stepped)

theorem AfterSet.step {a : Action}
    (named : loc.id ≠ []) (zero : loc.withZeroLease = loc) (afterSet : AfterSet loc k m)
    (moved : m.Moved a m') : AfterSet loc k m' := by
  rcases afterSet with inSet | ⟨here, waits⟩
  · exact Or.inl (inSet.step named moved)
  cases moved with
  | receivePong pong =>
    refine Or.inr ⟨here, ?_⟩
    cases at' : m.place with
    | beat => simp [at'] at waits
    | cloned mem =>
      simp only [at'] at waits
      simpa [insert, at'] using waits
    | cleared mem =>
      simp only [at'] at waits
      simp only [insert, at']
      exact waits.imp_right fun has => has_insert.mpr (Or.inr has)
    | seeded mem =>
      simp only [at'] at waits
      simpa [insert, at'] using has_insert.mpr (Or.inr waits)
  | clone asleep => simp [asleep] at waits
  | clear mem at' =>
    simp only [at'] at waits
    exact Or.inr ⟨here, Or.inl waits⟩
  | reseed mem at' =>
    simp only [at'] at waits
    refine Or.inr ⟨here, has_insert.mpr ?_⟩
    refine waits.imp_left fun own => ?_
    rw [slocEqualIgnoreLease_iff, zero] at own
    exact own.symm
  | elect mem now at' =>
    simp only [at'] at waits
    exact Or.inl (Or.inr ⟨by simp [here], waits⟩)

theorem AfterSet.run {loc : AgentLoc} {k : Nat} {m m' : Membership} {actions : List Action}
    (start : AfterSet loc k m) (named : loc.id ≠ []) (zero : loc.withZeroLease = loc)
    (ran : runFrom Membership.step m actions = some m') : AfterSet loc k m' := by
  refine @invariant_of_run _ _ Membership.step (AfterSet loc k) ?_ _ _ _ start ran
  intro s a s' afterSet stepped
  exact afterSet.step named zero (step_moved stepped)

/-- The member whose reply arrives in `m` is in the sets it belongs to, as far as these have been
returned by the time `m'`: in the next set if the loop sleeps, in the running or the next one if
it is in `getSetAndClear`. -/
def Appears (loc : AgentLoc) (m m' : Membership) : Prop :=
  ∀ r, m'.rounds[m.rounds.length]? = some r →
    if m.place = .beat then r.members.has loc.withZeroLease = true
    else ∀ r', m'.rounds[m.rounds.length + 1]? = some r' →
      r.members.has loc.withZeroLease = true ∨ r'.members.has loc.withZeroLease = true

/-- Between the clone and the clear only a member arrives that the clone has, or the agent itself. -/
def Safe (m : Membership) (loc : AgentLoc) : Prop :=
  match m.place with
  | .cloned mem => mem.has loc.withZeroLease = true ∨ slocEqualIgnoreLease loc m.myLoc = true
  | _ => True

/-- A reply that arrives is in one of its sets, whatever happens afterwards. -/
theorem Safe.appears (safe : m.Safe loc) (named : loc.id ≠ [])
    {actions : List Action}
    (ran : runFrom step (m.insert loc) actions = some m') : Appears loc m m' := by
  have inSet_run : ∀ k, InSet loc.withZeroLease k (m.insert loc) → ∀ r, m'.rounds[k]? = some r →
      r.members.has loc.withZeroLease = true := by
    intro k start r found
    have final := start.run named ran
    rcases final with ⟨r', found', has⟩ | ⟨here, -⟩
    · rw [found] at found'
      cases found'
      exact has
    · rw [List.getElem?_eq_none (by omega)] at found
      cases found
  have afterSet_run : AfterSet loc.withZeroLease m.rounds.length (m.insert loc) →
      ∀ r', m'.rounds[m.rounds.length + 1]? = some r' →
        r'.members.has loc.withZeroLease = true := by
    intro start r' found
    have final := start.run named rfl ran
    rcases final with (⟨q, found', has⟩ | ⟨here, -⟩) | ⟨here, -⟩
    · rw [found] at found'
      cases found'
      exact has
    · rw [List.getElem?_eq_none (by omega)] at found
      cases found
    · rw [List.getElem?_eq_none (by omega)] at found
      cases found
  have entered : (m.insert loc).fromNoTime.has loc.withZeroLease = true :=
    has_insert.mpr (Or.inl rfl)
  intro r found
  cases at' : m.place with
  | beat =>
    rw [if_pos rfl]
    refine inSet_run _ (Or.inr ⟨rfl, ?_⟩) r found
    simpa [insert, at'] using entered
  | cloned mem =>
    rw [if_neg (by simp)]
    intro r' found'
    simp only [Safe, at'] at safe
    rcases safe with has | own
    · left
      refine inSet_run _ (Or.inr ⟨rfl, ?_⟩) r found
      simpa [insert, at'] using has
    · right
      refine afterSet_run (Or.inr ⟨rfl, ?_⟩) r' found'
      simp only [insert, at']
      exact own
  | cleared mem =>
    rw [if_neg (by simp)]
    intro r' found'
    right
    refine afterSet_run (Or.inr ⟨rfl, ?_⟩) r' found'
    simp only [insert, at']
    exact Or.inr entered
  | seeded mem =>
    rw [if_neg (by simp)]
    intro r' found'
    right
    refine afterSet_run (Or.inr ⟨rfl, ?_⟩) r' found'
    simpa [insert, at'] using entered

/-- The rest of the heartbeat after the clone, and the next one, with nothing arriving. -/
def twoRounds : List Action :=
  [.clear, .reseed, .elect 0, .clone, .clear, .reseed, .elect 0]

/-- An unsafe reply is lost when nothing else arrives. -/
theorem lost_of_not_safe (lost : ¬m.Safe loc) :
    ∃ m', runFrom step (m.insert loc) twoRounds = some m' ∧ ¬Appears loc m m' := by
  cases at' : m.place with
  | beat => simp [Safe, at'] at lost
  | cleared mem => simp [Safe, at'] at lost
  | seeded mem => simp [Safe, at'] at lost
  | cloned mem =>
    simp only [Safe, at', not_or] at lost
    obtain ⟨notIn, notOwn⟩ := lost
    refine ⟨_, by simp [runFrom, twoRounds, step, insert, at']; rfl, fun appears => ?_⟩
    have sets := appears ⟨mem, 0⟩ (by simp)
    rw [at', if_neg (by simp)] at sets
    rcases sets _ (by simp; rfl) with inFirst | inSecond
    · exact notIn inFirst
    · obtain ⟨item, mem', same⟩ := has_iff.mp inSecond
      rw [items_clone] at mem'
      have own : item = m.myLoc.withZeroLease :=
        List.mem_singleton.mp (List.mem_of_mem_filter mem')
      rw [own] at same
      exact notOwn ((slocEqualIgnoreLease_iff _ _).mpr same)

/-- A reply is lost exactly when it arrives between the clone and the clear of a `getSetAndClear`, from
a member that the clone does not have and that is not the agent itself. -/
theorem pong_appears_iff (m : Membership) (loc : AgentLoc) (named : loc.id ≠ []) :
    (∀ actions m', runFrom step m (.receivePong loc :: actions) = some m' → Appears loc m m') ↔
      m.Safe loc := by
  constructor
  · intro appears
    by_contra lost
    obtain ⟨m', ran, gone⟩ := lost_of_not_safe lost
    exact gone (appears twoRounds m' ran)
  · intro safe actions m' ran
    exact safe.appears named ran

/-- A configuration with the default lease and skew. -/
def defaultCfg : MembershipCfg := { maxClockSkew := 10 ^ 9, leaseTime := 12 * 10 ^ 9 }

/-- The agent's own reply may arrive between the clone and the clear: it is put back anyway. -/
theorem pong_appears_own :
    ∃ m m', runFrom step (newMembership defaultCfg { id := bytesOf "A" }) [.clone] = some m ∧
      runFrom step m (.receivePong { id := bytesOf "A" } :: twoRounds) = some m' ∧
      Appears { id := bytesOf "A" } m m' ∧
      m'.rounds.map (fun r => r.members.has { id := bytesOf "A" }) = [false, true] := by
  refine ⟨_, _, rfl, rfl, ?_, by decide⟩
  refine (pong_appears_iff _ { id := bytesOf "A" } (by decide)).mpr ?_ twoRounds _ rfl
  exact Or.inr (by decide)

/-- The reply of `B` arrives between the clone and the clear of `A`'s first `getSetAndClear`: neither
that one nor the next returns `B`. -/
theorem pong_lost :
    ∃ m', runFrom step (newMembership defaultCfg { id := bytesOf "A" })
        (.clone :: .receivePong { id := bytesOf "B" } :: twoRounds) = some m' ∧
      m'.rounds.map (fun r => r.members.has { id := bytesOf "B" }) = [false, false] :=
  exists_run (by decide)

end Membership

end Hnatsd.Health
