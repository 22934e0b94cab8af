import Hnatsd.Peers.BoltSaver

/-!
# Checkpoints in order

The store shows the last set that was written for a key, whatever its time. So the stored time never
goes back exactly when the sets of each key are written in the order of their times, and then what a
peer ends with is the newest set it wrote.
-/

namespace Hnatsd.Peers
open Misc List

variable {b : BoltSaver} {ki : KeyInv} {arrivals : List Arrival} {kis : List KeyInv}

/-- The sets that were written. -/
def written (arrivals : List Arrival) : List KeyInv :=
  (arrivals.filter (·.commits)).map (·.ki)

/-- The last of them for a key. -/
def lastFor (key : Bytes) (kis : List KeyInv) : Option KeyInv :=
  (kis.filter (·.key = key)).getLast?

/-- The time stored for a key. -/
def BoltSaver.whenStored (b : BoltSaver) (key : Bytes) : Option Int :=
  (b.metabuck.lookup key).map (·.when)

/-- The sets of each key are written in the order of their times. -/
def InOrder (arrivals : List Arrival) : Prop :=
  (written arrivals).Pairwise fun earlier later =>
    earlier.key = later.key → earlier.when ≤ later.when

instance (arrivals : List Arrival) : Decidable (InOrder arrivals) :=
  inferInstanceAs (Decidable (List.Pairwise _ _))

section Lists

theorem written_concat (arrivals : List Arrival) (a : Arrival) :
    written (arrivals ++ [a]) = written arrivals ++ if a.commits then [a.ki] else [] := by
  cases commits : a.commits <;> simp [written, commits]

theorem lastFor_concat (key : Bytes) (kis : List KeyInv) (ki : KeyInv) :
    lastFor key (kis ++ [ki]) = if ki.key = key then some ki else lastFor key kis := by
  by_cases here : ki.key = key <;> simp [lastFor, here]

theorem lastFor_mem {key : Bytes}
    (last : lastFor key kis = some ki) : ki ∈ kis ∧ ki.key = key := by
  simpa using mem_of_getLast? last

theorem exists_lastFor (mem : ki ∈ kis) :
    ∃ last, lastFor ki.key kis = some last := by
  have some_left : kis.filter (·.key = ki.key) ≠ [] := by
    intro none_left
    have here : ki ∈ kis.filter (·.key = ki.key) := by simp [mem]
    rw [none_left] at here
    cases here
  exact ⟨_, getLast?_eq_some_getLast some_left⟩

/-- In a list in order, the last set of a key is the newest. -/
theorem when_le_lastFor (inOrder : kis.Pairwise fun earlier later =>
    earlier.key = later.key → earlier.when ≤ later.when) {last : KeyInv} (mem : ki ∈ kis)
    (found : lastFor ki.key kis = some last) : ki.when ≤ last.when := by
  induction kis using reverseRecOn with
  | nil => cases mem
  | append_singleton kis added ih =>
    obtain ⟨before, -, upto⟩ := pairwise_append.mp inOrder
    rw [lastFor_concat] at found
    rcases mem_append.mp mem with old | new
    · split at found
      next here =>
        cases found
        exact upto ki old last (mem_singleton.mpr rfl) here.symm
      next => exact ih before old found
    · have same := mem_singleton.mp new
      rw [same, if_pos rfl] at found
      cases found
      exact Int.le_of_eq (congrArg KeyInv.when same)

end Lists

section Runs

variable (blake2bOfBytes : Bytes → Bytes)

/-- `LocalSet` changes the entries of its own key, if it commits. -/
theorem localSet_entries (b : BoltSaver) (ki : KeyInv) (commits : Bool) (key : Bytes) :
    (b.localSet blake2bOfBytes ki commits).whenStored key =
        (if commits = true ∧ ki.key = key then some ki.when else b.whenStored key) ∧
      (b.localSet blake2bOfBytes ki commits).databuck.lookup key =
        (if commits = true ∧ ki.key = key then some ki.val else b.databuck.lookup key) := by
  cases commits with
  | false => simp [BoltSaver.localSet]
  | true =>
    by_cases here : key = ki.key
    · simp [BoltSaver.localSet, BoltSaver.fill, BoltSaver.whenStored, lookup_assocSet, here]
    · simp [BoltSaver.localSet, BoltSaver.fill, BoltSaver.whenStored, lookup_assocSet, here,
        Ne.symm here]

theorem receive_eq {b' : BoltSaver} {a : Arrival} (received : receive blake2bOfBytes b a = some b') :
    b' = b.localSet blake2bOfBytes a.ki a.commits := by
  unfold receive at received
  split at received
  · cases received
  · exact (Option.some.inj received).symm

theorem runFrom_concat {a : Arrival} {b' : BoltSaver}
    (ran : runFrom (receive blake2bOfBytes) b (arrivals ++ [a]) = some b') :
    ∃ mid, runFrom (receive blake2bOfBytes) b arrivals = some mid ∧
      b' = mid.localSet blake2bOfBytes a.ki a.commits := by
  rw [runFrom_append] at ran
  obtain ⟨mid, ranMid, last⟩ := Option.bind_eq_some_iff.mp ran
  obtain ⟨end', received, same⟩ := Option.bind_eq_some_iff.mp last
  cases same
  exact ⟨mid, ranMid, receive_eq blake2bOfBytes received⟩

/-- After every run the store shows the last set written for each key. -/
theorem entries_of_run {who : Bytes}
    (ran : runFrom (receive blake2bOfBytes) (.newBoltSaver who) arrivals = some b) (key : Bytes) :
    b.whenStored key = (lastFor key (written arrivals)).map (·.when) ∧
      b.databuck.lookup key = (lastFor key (written arrivals)).map (·.val) := by
  induction arrivals using reverseRecOn generalizing b with
  | nil =>
    cases ran
    exact ⟨rfl, rfl⟩
  | append_singleton arrivals a ih =>
    obtain ⟨mid, ranMid, rfl⟩ := runFrom_concat blake2bOfBytes ran
    obtain ⟨whens, vals⟩ := ih ranMid
    obtain ⟨newWhen, newVal⟩ := localSet_entries blake2bOfBytes mid a.ki a.commits key
    rw [newWhen, newVal, whens, vals, written_concat]
    cases commits : a.commits with
    | false => simp
    | true =>
      by_cases here : a.ki.key = key
      · simp [lastFor_concat, here]
      · simp [lastFor_concat, here]

/-- At every set of the run no stored time goes back. -/
def NeverBack (who : Bytes) (arrivals : List Arrival) : Prop :=
  ∀ before a after, arrivals = before ++ a :: after → ∀ b b',
    runFrom (receive blake2bOfBytes) (.newBoltSaver who) before = some b →
    receive blake2bOfBytes b a = some b' →
    ∀ key t, b.whenStored key = some t → ∃ t', b'.whenStored key = some t' ∧ t ≤ t'

/-- One more set keeps the order when it is not older than the last one of its key. -/
theorem inOrder_concat_iff (arrivals : List Arrival) (a : Arrival) :
    InOrder (arrivals ++ [a]) ↔ InOrder arrivals ∧
      (a.commits = true → ∀ last, lastFor a.ki.key (written arrivals) = some last →
        last.when ≤ a.ki.when) := by
  unfold InOrder
  rw [written_concat]
  cases commits : a.commits with
  | false => simp
  | true =>
    simp only [if_true, forall_const, pairwise_append, pairwise_singleton, true_and,
      mem_singleton, forall_eq]
    refine and_congr_right fun inOrder => ⟨fun upto last found => ?_, fun newest ki mem same => ?_⟩
    · obtain ⟨mem, key⟩ := lastFor_mem found
      exact upto last mem key
    · obtain ⟨last, found⟩ := exists_lastFor mem
      exact Int.le_trans (when_le_lastFor inOrder mem found) (newest last (same ▸ found))

theorem neverBack_iff {who : Bytes}
    (ran : runFrom (receive blake2bOfBytes) (.newBoltSaver who) arrivals = some b) :
    NeverBack blake2bOfBytes who arrivals ↔ InOrder arrivals := by
  induction arrivals using reverseRecOn generalizing b with
  | nil =>
    refine ⟨fun _ => List.Pairwise.nil, fun _ before a after split => ?_⟩
    simp at split
  | append_singleton arrivals a ih =>
    obtain ⟨mid, ranMid, rfl⟩ := runFrom_concat blake2bOfBytes ran
    have received : receive blake2bOfBytes mid a =
        some (mid.localSet blake2bOfBytes a.ki a.commits) := by
      rw [runFrom_append, ranMid] at ran
      simpa [runFrom] using ran
    rw [inOrder_concat_iff, ← ih ranMid]
    constructor
    · intro never
      refine ⟨fun before a' after split => never before a' (after ++ [a]) (by simp [split]), ?_⟩
      intro commits last found
      have stored := (entries_of_run blake2bOfBytes ranMid a.ki.key).1
      rw [found] at stored
      obtain ⟨t', new, le⟩ := never arrivals a [] rfl mid _ ranMid received a.ki.key last.when stored
      rw [(localSet_entries blake2bOfBytes mid a.ki a.commits a.ki.key).1,
        if_pos ⟨commits, rfl⟩] at new
      cases new
      exact le
    · rintro ⟨never, newest⟩ before a' after split b b' ranBefore step key t stored
      rcases eq_nil_or_concat after with rfl | ⟨rest, last, rfl⟩
      · obtain ⟨rfl, same⟩ := append_inj' split rfl
        cases same
        rw [ranMid] at ranBefore
        cases ranBefore
        rw [receive_eq blake2bOfBytes step,
          (localSet_entries blake2bOfBytes mid a.ki a.commits key).1]
        split
        next here =>
          obtain ⟨commits, rfl⟩ := here
          rw [(entries_of_run blake2bOfBytes ranMid a.ki.key).1] at stored
          obtain ⟨last, found, rfl⟩ := Option.map_eq_some_iff.mp stored
          exact ⟨_, rfl, newest commits last found⟩
        next => exact ⟨t, stored, Int.le_refl t⟩
      · have earlier : arrivals = before ++ a' :: rest := by
          rw [concat_eq_append, ← cons_append, ← append_assoc] at split
          exact (append_inj' split rfl).1
        exact never before a' rest earlier b b' ranBefore step key t stored

/-- Two peers that wrote the same sets, each in the order of their times, have the same last set. -/
theorem lastFor_eq {arrivals' : List Arrival} (inOrder : InOrder arrivals)
    (inOrder' : InOrder arrivals')
    (same : ∀ ki, ki ∈ written arrivals ↔ ki ∈ written arrivals')
    (distinct : ∀ ki ∈ written arrivals, ∀ ki' ∈ written arrivals,
      ki.key = ki'.key → ki.when = ki'.when → ki = ki') (key : Bytes) :
    lastFor key (written arrivals) = lastFor key (written arrivals') := by
  cases found : lastFor key (written arrivals) with
  | none =>
    cases found' : lastFor key (written arrivals') with
    | none => rfl
    | some last' =>
      obtain ⟨mem, rfl⟩ := lastFor_mem found'
      obtain ⟨last, found''⟩ := exists_lastFor ((same last').mpr mem)
      rw [found] at found''
      cases found''
  | some last =>
    obtain ⟨mem, rfl⟩ := lastFor_mem found
    obtain ⟨last', found'⟩ := exists_lastFor ((same last).mp mem)
    obtain ⟨mem', key'⟩ := lastFor_mem found'
    have le := when_le_lastFor inOrder' ((same last).mp mem) found'
    have ge := when_le_lastFor inOrder ((same last').mpr mem') (key' ▸ found)
    rw [found', distinct last mem last' ((same last').mpr mem') key'.symm (Int.le_antisymm le ge)]

end Runs

/-- Version one of a checkpoint, and version two. -/
def checkpoint (n : Nat) : KeyInv := { key := bytesOf "k", when := n, val := [n.toUInt8] }

def onceEach : List Arrival :=
  [⟨.background, checkpoint 1, true⟩, ⟨.background, checkpoint 2, true⟩]

def firstTwice : List Arrival :=
  [⟨.own, checkpoint 1, true⟩, ⟨.handler, checkpoint 1, true⟩, ⟨.background, checkpoint 2, true⟩]

end Hnatsd.Peers
