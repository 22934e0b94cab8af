import Hnatsd.Peers.Bcast

/-!
# The newest copy

`GetLatest` asks every peer for the metadata of a key, sorts the answers by time and then by owner,
and takes the last. The loop gives up at the first answer that is an error, and a peer without the
key answers with one; and it waits in vain for a reply that found its channel full. The newest copy
is found exactly when every peer has some copy and the loop keeps up with the replies.
-/

namespace Hnatsd.Peers
open Misc List

variable {replies : List BcastGetReply} {kis sorter : List KeyInv} {n : Nat}

section Order

/-- What `compare` compares. -/
def invKey (ki : KeyInv) : List Nat ×ₗ Int ×ₗ List Nat :=
  toLex (bytesRank ki.key, toLex (ki.when, bytesRank ki.who))

theorem bytesCompare_neg_iff (a b : Bytes) : bytesCompare a b < 0 ↔ bytesRank a < bytesRank b := by
  rw [bytesRank_lt_iff]
  unfold bytesCompare
  split_ifs with lt same
  · simp [lt]
  · simp [lt]
  · simp [lt]

theorem bytesCompare_eq_zero_iff (a b : Bytes) : bytesCompare a b = 0 ↔ a = b := by
  unfold bytesCompare
  split_ifs with lt same
  · have ne : a ≠ b := by
      rintro rfl
      exact lt_irrefl _ (bytesRank_lt_iff.mpr lt)
    simp [ne]
  · simp [same]
  · simp [same]

theorem compare_compares (a b : KeyInv) : Compares compare invKey a b := by
  unfold Compares compare invKey
  rw [Prod.Lex.toLex_lt_toLex, toLex_inj, Prod.mk.injEq, bytesRank_inj]
  by_cases key : a.key = b.key
  · have zero : bytesCompare b.key b.key = 0 := (bytesCompare_eq_zero_iff _ _).mpr rfl
    simp only [key, zero, ne_eq, not_true_eq_false, if_false, lt_irrefl, false_or, true_and,
      Prod.Lex.toLex_lt_toLex, toLex_inj, Prod.mk.injEq]
    by_cases when' : a.when = b.when
    · simp only [when', not_true_eq_false, if_false, lt_irrefl, false_or, true_and]
      exact ⟨bytesCompare_neg_iff _ _, by rw [bytesCompare_eq_zero_iff, bytesRank_inj]⟩
    · by_cases lt : a.when < b.when
      · simp [when', lt]
      · simp [when', lt]
  · have nonzero : bytesCompare a.key b.key ≠ 0 := fun zero =>
      key ((bytesCompare_eq_zero_iff _ _).mp zero)
    simp only [ne_eq, nonzero, not_false_eq_true, if_true, key, false_and, or_false]
    exact ⟨bytesCompare_neg_iff _ _, by simp⟩

/-- For one key the order is that of the times, then that of the owners. -/
theorem invKey_le {a b : KeyInv} (le : invKey a ≤ invKey b) (same : a.key = b.key) :
    a.when < b.when ∨ a.when = b.when ∧ ¬b.who < a.who := by
  unfold invKey at le
  rw [Prod.Lex.toLex_le_toLex, same] at le
  have rest := (le.resolve_left (lt_irrefl _)).2
  rw [Prod.Lex.toLex_le_toLex] at rest
  rcases rest with lt | ⟨eq, who⟩
  · exact Or.inl lt
  · refine Or.inr ⟨eq, fun lt => ?_⟩
    exact absurd (bytesRank_lt_iff.mpr lt) who.not_gt

end Order

section Loop

/-- A loop that ends well and has replies to read gets the first of them. -/
theorem collect_succ
    (collected : collect (n + 1) replies sorter = .ok kis) :
    ∃ first rest sorter', replies = first :: rest ∧ takeReply sorter first = .ok sorter' ∧
      collect n rest sorter' = .ok kis := by
  cases replies with
  | nil => cases collected
  | cons first rest =>
    simp only [collect] at collected
    cases taken : takeReply sorter first with
    | error e => simp [taken] at collected
    | ok sorter' =>
      simp only [taken] at collected
      exact ⟨first, rest, sorter', rfl, taken, collected⟩

/-- The loop that ends well has read no error. -/
theorem err_of_collect
    (collected : collect n replies sorter = .ok kis) (enough : replies.length ≤ n) :
    ∀ reply ∈ replies, reply.err = [] := by
  induction n generalizing replies sorter with
  | zero =>
    intro reply mem
    rw [eq_nil_of_length_eq_zero (Nat.le_zero.mp enough)] at mem
    cases mem
  | succ n ih =>
    obtain ⟨first, rest, sorter', rfl, taken, collected⟩ := collect_succ collected
    intro reply mem
    rcases mem_cons.mp mem with rfl | later
    · by_contra failed
      simp [takeReply, failed] at taken
    · exact ih collected (by simpa using enough) reply later

/-- Replies that all have a copy are all inserted. -/
theorem collect_of_copies (copies : List (Bytes × KeyInv)) (sorter : List KeyInv) :
    collect copies.length (copies.map fun c => ⟨c.1, some c.2, []⟩) sorter =
      .ok ((copies.map Prod.snd).foldl upsert sorter) := by
  induction copies generalizing sorter with
  | nil => rfl
  | cons c copies ih => simp [collect, takeReply, ih]

end Loop

section Channel

/-- The replies that arrive. -/
def arrivals : List ChanEvent → List BcastGetReply
  | [] => []
  | .arrive reply :: events => reply :: arrivals events
  | .read :: events => arrivals events

/-- No reply finds the channel full. -/
def KeepsUp : Nat → List ChanEvent → Prop
  | _, [] => True
  | queued, .arrive _ :: events => queued < requestChanLen ∧ KeepsUp (queued + 1) events
  | queued, .read :: events => KeepsUp (queued - 1) events

instance decidableKeepsUp : (queued : Nat) → (events : List ChanEvent) →
    Decidable (KeepsUp queued events)
  | _, [] => isTrue trivial
  | queued, .arrive _ :: events =>
      have := decidableKeepsUp (queued + 1) events
      inferInstanceAs (Decidable (_ ∧ _))
  | queued, .read :: events => decidableKeepsUp (queued - 1) events

theorem admitted_sublist (queued : Nat) (events : List ChanEvent) :
    (admitted queued events).Sublist (arrivals events) := by
  induction events generalizing queued with
  | nil => exact List.Sublist.refl _
  | cons event events ih =>
    cases event with
    | read => exact ih (queued - 1)
    | arrive reply =>
      rw [admitted, arrivals]
      split
      · exact (ih (queued + 1)).cons_cons reply
      · exact (ih queued).cons reply

/-- The loop gets all replies exactly when it keeps up with them. -/
theorem admitted_length_iff (queued : Nat) (events : List ChanEvent) :
    (admitted queued events).length = (arrivals events).length ↔ KeepsUp queued events := by
  induction events generalizing queued with
  | nil => exact ⟨fun _ => trivial, fun _ => rfl⟩
  | cons event events ih =>
    cases event with
    | read => exact ih (queued - 1)
    | arrive reply =>
      rw [admitted, arrivals, KeepsUp]
      split
      next room =>
        rw [length_cons, length_cons, Nat.add_right_cancel_iff]
        exact (ih (queued + 1)).trans (and_iff_right room).symm
      next full =>
        constructor
        · intro same
          have fewer := (admitted_sublist queued events).length_le
          rw [length_cons] at same
          omega
        · exact fun both => absurd both.1 full

theorem admitted_eq {queued : Nat} {events : List ChanEvent} (keepsUp : KeepsUp queued events) :
    admitted queued events = arrivals events :=
  (admitted_sublist queued events).eq_of_length ((admitted_length_iff queued events).mpr keepsUp)

/-- The loop ends well only when it has got enough replies. -/
theorem length_of_collect
    (collected : collect n replies sorter = .ok kis) : n ≤ replies.length := by
  induction n generalizing replies sorter with
  | zero => exact Nat.zero_le _
  | succ n ih =>
    obtain ⟨first, rest, sorter', rfl, -, collected⟩ := collect_succ collected
    exact Nat.succ_le_succ (ih collected)

end Channel

/-- The peer has a version of the key. -/
def Peer.Holds (p : Peer) (key : Bytes) : Prop := ∃ got, p.saver.localGet key false = .ok got

/-- The copy of a peer as it reports it. -/
def Peer.Reports (p : Peer) (key : Bytes) (ki : KeyInv) : Prop :=
  ∃ got, p.saver.localGet key false = .ok got ∧ ki = { got with who := p.id }

/-- The copy of one of the peers, with the greatest time of all, and with the greatest owner among
those of this time. -/
structure Newest (cluster : List Peer) (key : Bytes) (ki : KeyInv) : Prop where
  held : ∃ p ∈ cluster, p.Reports key ki
  newest : ∀ q ∈ cluster, ∀ other, q.Reports key other →
    other.when < ki.when ∨ other.when = ki.when ∧ ¬ki.who < other.who

/-- The replies to a request for everybody's metadata. -/
def repliesOf (peers : List Peer) (key : Bytes) : List BcastGetReply :=
  peers.filterMap fun p => serverHandleBcastGet p.id p.saver ⟨key, [], false⟩

/-- Everybody replies. -/
theorem repliesOf_eq_map (peers : List Peer) (key : Bytes) :
    repliesOf peers key = peers.map fun p =>
      match p.saver.localGet key false with
      | .error err => { fromID := p.id, ki := none, err := err }
      | .ok ki => { fromID := p.id, ki := some { ki with who := p.id }, err := [] } := by
  rw [repliesOf, ← filterMap_eq_map]
  refine filterMap_congr fun p _ => ?_
  unfold serverHandleBcastGet
  rw [if_neg (by simp)]
  cases got : p.saver.localGet key false <;> simp [got]

theorem Peer.Reports.key {p : Peer} {key : Bytes} {ki : KeyInv} (reports : p.Reports key ki) :
    ki.key = key := by
  obtain ⟨got, found, rfl⟩ := reports
  unfold BoltSaver.localGet at found
  split at found
  · cases found
  · cases found
    rfl

/-- The last of the sorted copies is the newest. -/
theorem newest_of_sorted {cluster order : List Peer} {key : Bytes} (perm : order.Perm cluster)
    (some_peer : cluster ≠ []) (copy : Peer → KeyInv)
    (reports : ∀ p ∈ order, p.Reports key (copy p)) :
    ∃ ki, ((order.map copy).foldl upsert []).getLast? = some ki ∧ Newest cluster key ki := by
  obtain ⟨sorted, from', kept⟩ := KeySorted.insertAll (order.map copy)
    (fun x _ y _ => compare_compares x y) (List.Pairwise.nil : KeySorted invKey [])
  have fold : (order.map copy).foldl upsert [] =
      (order.map copy).foldl (fun l x => treeInsert compare x l) [] := rfl
  rw [← fold] at sorted from' kept
  obtain ⟨p, inCluster⟩ := exists_mem_of_ne_nil _ some_peer
  have some_copy : (order.map copy).foldl upsert [] ≠ [] := by
    intro none_left
    obtain ⟨y, mem, -⟩ := kept (copy p)
      (Or.inl (mem_map_of_mem (perm.mem_iff.mpr inCluster)))
    rw [none_left] at mem
    cases mem
  refine ⟨_, getLast?_eq_some_getLast some_copy, ?_, ?_⟩
  · have mem := (from' _ (getLast_mem some_copy)).resolve_right not_mem_nil
    obtain ⟨q, inOrder, same⟩ := mem_map.mp mem
    exact ⟨q, perm.mem_iff.mp inOrder, same ▸ reports q inOrder⟩
  · intro q inCluster other otherReports
    have inOrder := perm.mem_iff.mpr inCluster
    have other_eq : other = copy q := by
      obtain ⟨got, found, rfl⟩ := otherReports
      obtain ⟨got', found', copy_eq⟩ := reports q inOrder
      rw [found] at found'
      cases found'
      exact copy_eq.symm
    obtain ⟨y, mem, same⟩ := kept other (Or.inl (other_eq ▸ mem_map_of_mem inOrder))
    have le := sorted.le_getLast (getLast?_eq_some_getLast some_copy) mem
    rw [same] at le
    refine invKey_le le ?_
    obtain ⟨r, inOrder', same'⟩ := mem_map.mp
      ((from' _ (getLast_mem some_copy)).resolve_right not_mem_nil)
    rw [otherReports.key, ← same', (reports r inOrder').key]

section Latest

variable {cluster order : List Peer} {key : Bytes}

/-- With two or more members and an ID of its own the asker asks the peers. -/
theorem getLatest_asks (two : 2 ≤ cluster.length) (asker : Peer) (replies : List BcastGetReply) :
    asker.clientInitiateBcastGet (some cluster.length) key [] replies =
      collect cluster.length replies [] := by
  have far : asksLocally asker.id (some cluster.length) [] = false := by
    simp [asksLocally, asker.named.symm]
    omega
  simp [Peer.clientInitiateBcastGet, far]

/-- A loop that ends well has got replies of peers that have the key. -/
theorem holds_of_collect (perm : order.Perm cluster)
    (collected : collect cluster.length (repliesOf order key) [] = .ok kis) :
    ∀ p ∈ cluster, p.Holds key := by
  intro p inCluster
  have length : (repliesOf order key).length = cluster.length := by
    rw [repliesOf_eq_map, length_map, perm.length_eq]
  have noError := err_of_collect collected (le_of_eq length)
  cases got : p.saver.localGet key false with
  | ok ki => exact ⟨ki, got⟩
  | error err =>
    have replied : (⟨p.id, none, err⟩ : BcastGetReply) ∈ repliesOf order key := by
      rw [repliesOf_eq_map]
      exact mem_map.mpr ⟨p, perm.mem_iff.mpr inCluster, by rw [got]⟩
    have empty : err = [] := noError _ replied
    unfold BoltSaver.localGet at got
    split at got
    · cases got
      simp [BoltSaver.missingKey, bytesOf] at empty
    · cases got

/-- When all have the key the loop sorts all copies, and the last is the newest. -/
theorem newest_of_holds (perm : order.Perm cluster) (some_peer : cluster ≠ [])
    (holds : ∀ p ∈ cluster, p.Holds key) :
    ∃ kis ki, collect cluster.length (repliesOf order key) [] = .ok kis ∧
      kis.getLast? = some ki ∧ Newest cluster key ki := by
  -- each peer's copy, as a function of the peer
  let copy (p : Peer) : KeyInv :=
    match p.saver.localGet key false with
    | .error _ => { key := key }
    | .ok ki => { ki with who := p.id }
  have reports : ∀ p ∈ order, p.Reports key (copy p) := by
    intro p inOrder
    obtain ⟨got, found⟩ := holds p (perm.mem_iff.mp inOrder)
    exact ⟨got, found, by simp only [copy, found]⟩
  have replies : repliesOf order key =
      (order.map fun p => (p.id, copy p)).map fun c => ⟨c.1, some c.2, []⟩ := by
    rw [repliesOf_eq_map, map_map]
    refine map_congr_left fun p inOrder => ?_
    obtain ⟨got, found⟩ := holds p (perm.mem_iff.mp inOrder)
    simp only [Function.comp, copy, found]
  have collected := collect_of_copies (order.map fun p => (p.id, copy p)) []
  rw [length_map, perm.length_eq, ← replies, map_map] at collected
  obtain ⟨ki, last, newest⟩ := newest_of_sorted perm some_peer copy reports
  exact ⟨_, ki, collected, last, newest⟩

/-- `GetLatest` finds the newest copy, whatever the order of the replies and the pace of the loop,
exactly when every peer has a copy and no reply finds the channel full. -/
theorem getLatest_newest_iff (cluster : List Peer) (two : 2 ≤ cluster.length) (key : Bytes)
    (asker : Peer) (order : List Peer) (perm : order.Perm cluster) (events : List ChanEvent)
    (all : arrivals events = repliesOf order key) :
    (∃ ki, asker.getLatest (some cluster.length) key (admitted 0 events) = .ok ki ∧
        Newest cluster key ki) ↔ (∀ p ∈ cluster, p.Holds key) ∧ KeepsUp 0 events := by
  have length : (arrivals events).length = cluster.length := by
    rw [all, repliesOf_eq_map, length_map, perm.length_eq]
  constructor
  · rintro ⟨ki, latest, -⟩
    unfold Peer.getLatest at latest
    rw [getLatest_asks two] at latest
    cases collected : collect cluster.length (admitted 0 events) [] with
    | error e => simp [collected] at latest
    | ok kis =>
      have keepsUp : KeepsUp 0 events := by
        rw [← admitted_length_iff]
        refine le_antisymm (admitted_sublist 0 events).length_le ?_
        rw [length]
        exact length_of_collect collected
      rw [admitted_eq keepsUp, all] at collected
      exact ⟨holds_of_collect perm collected, keepsUp⟩
  · rintro ⟨holds, keepsUp⟩
    have some_peer : cluster ≠ [] := by
      rintro rfl
      simp at two
    obtain ⟨kis, ki, collected, last, newest⟩ := newest_of_holds perm some_peer holds
    refine ⟨ki, ?_, newest⟩
    unfold Peer.getLatest
    rw [getLatest_asks two, admitted_eq keepsUp, all, collected]
    simp only [last]

end Latest

/-- A peer that has set the key once. -/
def holder (id : String) (when' : Int) (named : bytesOf id ≠ []) : Peer :=
  ⟨bytesOf id, BoltSaver.localSet (fun val => val) (.newBoltSaver (bytesOf id))
    { key := bytesOf "k", when := when', val := bytesOf "v" } true, named⟩

/-- Two peers with different versions: the newer one is found. -/
theorem getLatest_newest_two :
    ∃ ki, (holder "A" 1 (by decide)).getLatest (some 2) (bytesOf "k")
        (admitted 0 ((repliesOf [holder "B" 2 (by decide), holder "A" 1 (by decide)]
          (bytesOf "k")).map .arrive)) = .ok ki ∧
      Newest [holder "A" 1 (by decide), holder "B" 2 (by decide)] (bytesOf "k") ki := by
  refine (getLatest_newest_iff [holder "A" 1 (by decide), holder "B" 2 (by decide)] (by decide)
    (bytesOf "k") (holder "A" 1 (by decide)) _ (List.Perm.swap _ _ []) _ rfl).mpr ⟨?_, ?_⟩
  · intro p mem
    simp only [mem_cons, not_mem_nil, or_false] at mem
    rcases mem with rfl | rfl
    · exact ⟨_, rfl⟩
    · exact ⟨_, rfl⟩
  · decide

/-- `A` has the key and `B` does not: `GetLatest` returns `B`'s error. -/
theorem getLatest_fails :
    (holder "A" 1 (by decide)).Holds (bytesOf "k") ∧
      (holder "A" 1 (by decide)).getLatest (some 2) (bytesOf "k")
        (admitted 0 ((repliesOf [holder "A" 1 (by decide),
          ⟨bytesOf "B", .newBoltSaver (bytesOf "B"), by decide⟩] (bytesOf "k")).map .arrive)) =
        .error (.reply (bytesOf "key 'k' in bucket 'meta' does not exist")) := by
  refine ⟨⟨_, rfl⟩, ?_⟩
  decide

end Hnatsd.Peers
