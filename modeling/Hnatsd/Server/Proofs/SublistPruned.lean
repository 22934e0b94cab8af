import Hnatsd.Server.Proofs.SublistRun

/-!
# Pruning

`Remove` walks back up and drops the nodes that became empty. A level is pruned when each of its
nodes, and each node below them, holds a subscription or has a non-empty next level. Successful
calls keep it so, and then the nodes are the prefixes of the live subscriptions' paths: the depth
`numLevels` finds is the longest of these paths. A refused `Insert` leaves its new nodes behind, so
a run may not have one.
-/

namespace Hnatsd.Server
open Misc List Level

variable {k : Key} {l : Level} {p : List Key} {live : List Subscription} {n : Node}

/-- Every node of the level, and of the levels below, holds something or leads to something. -/
inductive Level.Pruned : Level → Prop
  | intro {l : Level} (unique : UniqueKeys l.nodes)
      (kept : ∀ k n, l.get k = some n → n.isEmpty = false)
      (below : ∀ k n next, l.get k = some n → n.next = some next → Level.Pruned next) :
      Level.Pruned l

namespace Level.Pruned

theorem unique (pruned : l.Pruned) : UniqueKeys l.nodes := by
  cases pruned
  assumption

theorem kept (pruned : l.Pruned) (child : l.get k = some n) :
    n.isEmpty = false := by
  cases pruned with
  | intro _ kept _ => exact kept k n child

theorem nextPruned (pruned : l.Pruned) {next : Level}
    (child : l.get k = some n) (level : n.next = some next) : next.Pruned := by
  cases pruned with
  | intro _ _ below => exact below k n next child level

theorem newLevel : Level.newLevel.Pruned := by
  refine .intro nodup_nil ?_ ?_
  · intro k n child
    simp at child
  · intro k n next child
    simp at child

theorem set (pruned : l.Pruned) (k : Key) (kept : n.isEmpty = false)
    (below : ∀ next, n.next = some next → next.Pruned) : (l.set k n).Pruned := by
  refine .intro ?_ ?_ ?_
  · cases k with
    | pwc => exact pruned.unique
    | fwc => exact pruned.unique
    | lit t => exact pruned.unique.set t n
  · intro k' n' child
    rw [get_set] at child
    split at child
    · cases child
      exact kept
    · exact pruned.kept child
  · intro k' n' next child level
    rw [get_set] at child
    split at child
    · cases child
      exact below next level
    · exact pruned.nextPruned child level

theorem pruneNode (pruned : l.Pruned) (k : Key) : (l.pruneNode k).Pruned := by
  refine .intro ?_ ?_ ?_
  · cases k with
    | pwc => exact pruned.unique
    | fwc => exact pruned.unique
    | lit t => exact pruned.unique.erase t
  · intro k' n' child
    rw [get_pruneNode] at child
    split at child
    · cases child
    · exact pruned.kept child
  · intro k' n' next child level
    rw [get_pruneNode] at child
    split at child
    · cases child
    · exact pruned.nextPruned child level

/-- A changed node is put back unless it is empty. -/
theorem setOrPrune (pruned : l.Pruned) (k : Key)
    (below : ∀ next, n.next = some next → next.Pruned) :
    (if n.isEmpty then l.pruneNode k else l.set k n).Pruned := by
  cases empty : n.isEmpty with
  | true => exact pruned.pruneNode k
  | false => exact pruned.set k empty below

/-- The level below a child, made anew where there is none. -/
theorem next_getD (pruned : l.Pruned) (k : Key) :
    ((((l.get k).getD .newNode).next).getD .newLevel).Pruned := by
  cases child : l.get k with
  | none => exact newLevel
  | some n =>
    cases level : n.next with
    | none => simpa [level] using newLevel
    | some next => simpa [level] using pruned.nextPruned child level

end Level.Pruned

theorem Level.numNodes_eq_zero (unique : UniqueKeys l.nodes)
    (gone : ∀ k, l.get k = none) : l.numNodes = 0 := by
  have noPwc : l.pwc = none := gone .pwc
  have noFwc : l.fwc = none := gone .fwc
  have noNodes : l.nodes = [] := by
    refine eq_nil_iff_forall_not_mem.mpr fun e mem => ?_
    have literal := gone (.lit e.1)
    rw [get, unique.lookup_of_mem mem] at literal
    cases literal
  simp [numNodes, noPwc, noFwc, noNodes]

theorem Level.numNodes_set_ne_zero (l : Level) (k : Key) (n : Node) : (l.set k n).numNodes ≠ 0 := by
  intro zero
  have gone := get_of_numNodes_eq_zero zero k
  simp [get_set] at gone

theorem Node.isEmpty_false_iff (n : Node) :
    n.isEmpty = false ↔
      n.psubs ≠ [] ∨ n.qsubs ≠ [] ∨ ∃ next, n.next = some next ∧ next.numNodes ≠ 0 := by
  unfold Node.isEmpty
  cases n.psubs with
  | cons sub psubs => simp
  | nil =>
    cases n.qsubs with
    | cons group qsubs => simp
    | nil => cases n.next <;> simp

section Update

variable (g : Grow)

theorem addToNode_next (h : SubHeap) (sub : Subscription) (n : Node) :
    (addToNode g h sub n).2.next = n.next := by
  rw [addToNode_content]
  rfl

/-- The node holds the subscription now. -/
theorem addToNode_kept (h : SubHeap) (sub : Subscription) (n : Node) :
    (addToNode g h sub n).2.isEmpty = false := by
  rw [Node.isEmpty_false_iff]
  unfold addToNode
  split
  · left
    simp [Node.psubs]
  · right
    left
    split
    next i found =>
      have bound : i < n.qsubs.length := by
        unfold findQSliceForSub at found
        split at found
        · cases found
        · exact (findIdx?_eq_some_iff_findIdx_eq.mp found).1
      rw [getElem?_eq_getElem bound]
      intro none_left
      have length := congrArg List.length none_left
      simp [Node.qsubs] at length
      simp [length, Node.qsubs] at bound
    next => simp [Node.qsubs]

/-- An accepted insertion keeps the level pruned, and leaves a node in it. -/
theorem insertAt_pruned (sub : Subscription) (ts : List Bytes) (sfwc : Bool) (h : SubHeap)
    (l : Level) (nonempty : ts ≠ []) (accepted : insertable ts sfwc = true) (pruned : l.Pruned) :
    (insertAt g sub ts sfwc h l).2.1.Pruned ∧ (insertAt g sub ts sfwc h l).2.1.numNodes ≠ 0 := by
  induction ts generalizing sfwc l with
  | nil => exact absurd rfl nonempty
  | cons t ts ih =>
    obtain ⟨guard, rest⟩ := insertable_cons accepted
    have next := pruned.next_getD (Key.ofToken t)
    cases ts with
    | nil =>
      rw [insertAt_last g sub h l guard]
      refine ⟨pruned.set _ (addToNode_kept g _ _ _) ?_, numNodes_set_ne_zero _ _ _⟩
      intro level here
      rw [addToNode_next] at here
      cases here
      exact next
    | cons t' ts =>
      obtain ⟨nextPruned, some_left⟩ := ih (Key.ofToken t = .fwc) _ (by simp) rest
        next
      rw [insertAt_step g sub h l guard rfl]
      refine ⟨pruned.set _ ?_ ?_, numNodes_set_ne_zero _ _ _⟩
      · rw [Node.isEmpty_false_iff]
        exact Or.inr (Or.inr ⟨_, rfl, some_left⟩)
      · intro level here
        cases here
        exact nextPruned

/-- The pruning on the way back up leaves no empty node. -/
theorem removeAt_pruned (sub : Subscription) (ts : List Bytes) (sfwc : Bool) (h : SubHeap)
    (l : Option Level) (pruned : ∀ level, l = some level → level.Pruned) {h' : SubHeap} {l' : Level}
    (removed : removeAt g sub ts sfwc h l = .ok (h', l')) : l'.Pruned := by
  induction ts generalizing sfwc l h' l' with
  | nil => cases removed
  | cons t ts ih =>
    by_cases guard : t = [] ∨ sfwc = true
    · rw [removeAt_guard g sub ts h l guard] at removed
      cases removed
    cases l with
    | none => simp [removeAt, guard] at removed
    | some l =>
      have here := pruned l rfl
      cases ts with
      | nil =>
        rw [removeAt_last g sub h l guard] at removed
        cases child : l.get (Key.ofToken t) with
        | none => simp [child] at removed
        | some n =>
          rw [child, Option.bind_some, removeFromNode_content] at removed
          cases taken : removeFromNode g h sub (.mk none n.psubs n.qsubs) with
          | none => simp [taken] at removed
          | some pair =>
            rw [taken] at removed
            cases removed
            exact here.setOrPrune _ fun next level => here.nextPruned child level
      | cons t' ts =>
        rw [removeAt_step g sub h l guard] at removed
        cases ran : removeAt g sub (t' :: ts) (Key.ofToken t = .fwc) h
          ((l.get (Key.ofToken t)).bind Node.next) with
        | error e => simp [ran] at removed
        | ok pair =>
          rw [ran] at removed
          cases removed
          refine here.setOrPrune _ fun next level => ?_
          cases level
          refine ih _ _ (fun level found => ?_) ran
          obtain ⟨n, child, inNode⟩ := Option.bind_eq_some_iff.mp found
          exact here.nextPruned child inNode

/-- The source assigns the node's lists in either case; where nothing is found this assigns what was
there, since the group it looks at shows a subscription. -/
theorem removeFromNodeInPlace_eq (h : SubHeap) (sub : Subscription) (n : Node) :
    removeFromNodeInPlace g h sub n =
      match removeFromNode g h sub n with
      | some (h', n') => (h', n', true)
      | none => (h, n, false) := by
  obtain ⟨next, psubs, qsubs⟩ := n
  unfold removeFromNodeInPlace removeFromNode
  by_cases plain : sub.queue = none
  · simp only [plain, if_true]
    cases removeSubFromList sub (Node.mk next psubs qsubs).psubs <;> rfl
  · simp only [plain, if_false]
    cases found : findQSliceForSub h sub (Node.mk next psubs qsubs).qsubs with
    | none => rfl
    | some i =>
      cases group : (Node.mk next psubs qsubs).qsubs[i]? with
      | none => simp only [group]
      | some qr =>
        simp only [group]
        cases removed : removeSubFromSlice g h sub qr with
        | some pair =>
          by_cases emptied : pair.2.len = 0 <;> simp [emptied]
        | none =>
          have shows : qr.len ≠ 0 := by
            simp only [findQSliceForSub, plain, if_false] at found
            obtain ⟨bound, first, -⟩ := findIdx?_eq_some_iff_getElem.mp found
            rw [getElem?_eq_getElem bound] at group
            cases group
            intro empty
            simp [Heap.read, empty] at first
          have same : (Node.mk next psubs qsubs).qsubs.set i qr = qsubs := by
            refine ext_getElem? fun j => ?_
            rw [getElem?_set]
            split
            next here =>
              subst here
              split
              · exact group.symm
              next outside =>
                exact (getElem?_eq_none (Nat.le_of_not_lt outside)).symm
            next => rfl
          simp [shows, same, Node.next, Node.psubs]

end Update

/-- A path of several keys goes through a child and its next level. -/
theorem nodeAt_through (more : p ≠ [])
    (at' : nodeAt (some l) (k :: p) = some n) :
    ∃ m next, l.get k = some m ∧ m.next = some next ∧ nodeAt (some next) p = some n := by
  rw [nodeAt_cons more] at at'
  cases child : l.get k with
  | none => simp [child] at at'
  | some m =>
    cases level : m.next with
    | none => simp [child, level] at at'
    | some next =>
      rw [child, Option.bind_some, level] at at'
      exact ⟨m, next, rfl, level, at'⟩

section Depth

/-- `visitNodes` is the maximum of its bound and the depths below the children. -/
theorem visitNodes_le_iff (nodes : List (Bytes × Node)) (depth maxDepth b : Nat) :
    visitNodes nodes depth maxDepth ≤ b ↔
      maxDepth ≤ b ∧ ∀ e ∈ nodes, visitLevel e.2.next depth ≤ b := by
  induction nodes generalizing maxDepth with
  | nil => simp [visitNodes]
  | cons e nodes ih =>
    obtain ⟨t, next, psubs, qsubs⟩ := e
    rw [visitNodes, ih]
    simp [Node.next, and_assoc]

theorem visitChild_le_iff (n : Option Node) (depth maxDepth b : Nat) :
    visitChild n depth maxDepth ≤ b ↔
      maxDepth ≤ b ∧ ∀ m, n = some m → visitLevel m.next depth ≤ b := by
  cases n with
  | none => simp [visitChild]
  | some n =>
    obtain ⟨next, psubs, qsubs⟩ := n
    simp [visitChild, Node.next]

/-- One level: it counts itself when it has a node, and the deepest of its children's levels. -/
theorem visitLevel_le_iff (unique : UniqueKeys l.nodes) (depth b : Nat) :
    visitLevel (some l) depth ≤ b ↔
      depth ≤ b ∧ ∀ k n, l.get k = some n → depth + 1 ≤ b ∧ visitLevel n.next (depth + 1) ≤ b := by
  obtain ⟨nodes, pwc, fwc⟩ := l
  rw [visitLevel]
  split
  next zero =>
    constructor
    · intro le
      refine ⟨le, fun k n child => ?_⟩
      rw [get_of_numNodes_eq_zero zero] at child
      cases child
    · exact And.left
  next some_left =>
    rw [visitChild_le_iff, visitChild_le_iff, visitNodes_le_iff]
    constructor
    · rintro ⟨⟨⟨le, literals⟩, star⟩, full⟩
      refine ⟨by omega, fun k n child => ⟨le, ?_⟩⟩
      cases k with
      | pwc => exact star n child
      | fwc => exact full n child
      | lit t => exact literals (t, n) (mem_of_lookup child)
    · rintro ⟨-, children⟩
      have le : depth + 1 ≤ b := by
        by_contra above
        refine some_left (numNodes_eq_zero unique fun k => ?_)
        exact Option.eq_none_iff_forall_not_mem.mpr fun n child => above (children k n child).1
      refine ⟨⟨⟨le, fun e mem => ?_⟩, fun n here => (children .pwc n here).2⟩,
        fun n here => (children .fwc n here).2⟩
      exact (children (.lit e.1) e.2 (unique.lookup_of_mem mem)).2

/-- The depth of a pruned level is that of its deepest node. -/
theorem visitLevel_le_iff_nodeAt (pruned : l.Pruned) (depth b : Nat) :
    visitLevel (some l) depth ≤ b ↔
      depth ≤ b ∧ ∀ p n, nodeAt (some l) p = some n → depth + p.length ≤ b := by
  induction pruned generalizing depth with
  | @intro l unique kept below ih =>
    rw [visitLevel_le_iff unique]
    refine and_congr_right fun le => ⟨fun children p n at' => ?_, fun nodes k n child => ?_⟩
    · cases p with
      | nil => simp at at'
      | cons k ks =>
        cases ks with
        | nil => exact (children k n at').1
        | cons k' ks =>
          obtain ⟨m, next, child, level, at'⟩ := nodeAt_through (by simp) at'
          have deep := (children k m child).2
          rw [level, ih k m next child level] at deep
          have bound := deep.2 (k' :: ks) n at'
          simp only [length_cons] at bound ⊢
          omega
    · have here : depth + 1 ≤ b := nodes [k] n child
      refine ⟨here, ?_⟩
      cases level : n.next with
      | none => simpa [visitLevel] using here
      | some next =>
        rw [ih k n next child level]
        refine ⟨here, fun p m at' => ?_⟩
        have more : p ≠ [] := by
          rintro rfl
          simp at at'
        have bound := nodes (k :: p) m (by
          rw [nodeAt_cons more, child, Option.bind_some, level]
          exact at')
        simp only [length_cons] at bound
        omega

end Depth

section Nodes

/-- A level with a node leads to contents. -/
theorem Level.Pruned.contents (pruned : l.Pruned)
    (child : l.get k = some n) :
    ∃ q, psubsAt (some l) (k :: q) ≠ [] ∨ qsubsAt (some l) (k :: q) ≠ [] := by
  induction pruned generalizing k n with
  | @intro l unique kept below ih =>
    rcases (Node.isEmpty_false_iff n).mp (kept k n child) with plain | queued | deeper
    · exact ⟨[], Or.inl (by simpa [psubsAt, nodeAt, child] using plain)⟩
    · exact ⟨[], Or.inr (by simpa [qsubsAt, nodeAt, child] using queued)⟩
    · obtain ⟨next, level, some_left⟩ := deeper
      obtain ⟨k', n', child'⟩ : ∃ k' n', next.get k' = some n' := by
        by_contra none_left
        push Not at none_left
        refine some_left (numNodes_eq_zero (below k n next child level).unique fun k' => ?_)
        exact Option.eq_none_iff_forall_not_mem.mpr fun n' => none_left k' n'
      obtain ⟨q, contents⟩ := ih k n next child level child'
      refine ⟨k' :: q, ?_⟩
      have same := contents_cons l k (k' :: q)
      rw [if_neg (by simp), if_neg (by simp), child, Option.bind_some, level] at same
      rw [same.1, same.2]
      exact contents

theorem Level.Pruned.kept_at (pruned : l.Pruned)
    (at' : nodeAt (some l) p = some n) : n.isEmpty = false := by
  induction p generalizing l with
  | nil => simp at at'
  | cons k p ih =>
    cases p with
    | nil => exact pruned.kept at'
    | cons k' p =>
      obtain ⟨m, next, child, level, at'⟩ := nodeAt_through (by simp) at'
      exact ih (pruned.nextPruned child level) at'

/-- Every node of a pruned trie leads to contents, at it or below it. -/
theorem Level.Pruned.contents_below (pruned : l.Pruned)
    (at' : nodeAt (some l) p = some n) :
    ∃ q, psubsAt (some l) (p ++ q) ≠ [] ∨ qsubsAt (some l) (p ++ q) ≠ [] := by
  induction p generalizing l with
  | nil => simp at at'
  | cons k p ih =>
    cases p with
    | nil => exact pruned.contents at'
    | cons k' p =>
      obtain ⟨m, next, child, level, at'⟩ := nodeAt_through (by simp) at'
      obtain ⟨q, contents⟩ := ih (pruned.nextPruned child level) at'
      have same := contents_cons l k (k' :: p ++ q)
      rw [if_neg (by simp), if_neg (by simp), child, Option.bind_some, level] at same
      refine ⟨q, ?_⟩
      rw [cons_append, same.1, same.2]
      exact contents

/-- What is at a path is live. -/
theorem Holds.live_of_contents {l : Option Level} {h : SubHeap}
    (holds : Holds l h live) (contents : psubsAt l p ≠ [] ∨ qsubsAt l p ≠ []) :
    ∃ x ∈ live, pathOf (tokens x.subject) = p := by
  rcases contents with plain | queued
  · obtain ⟨x, inNode⟩ := exists_mem_of_ne_nil _ plain
    have mem := (holds.plain p).mem_iff.mp inNode
    simp only [plainAt, mem_filter, Bool.and_eq_true, decide_eq_true_eq] at mem
    exact ⟨x, mem.1, mem.2.2⟩
  · obtain ⟨gs, reads, grouped, members⟩ := holds.queued p
    have some_group : gs ≠ [] := by
      intro none_left
      have length := reads.length
      rw [none_left, length_nil, length_eq_zero_iff] at length
      exact queued length
    obtain ⟨group, inGroups⟩ := exists_mem_of_ne_nil _ some_group
    obtain ⟨x, inGroup⟩ := exists_mem_of_ne_nil _ (grouped.nonempty group inGroups)
    have mem := members.mem_iff.mp (mem_flatten.mpr ⟨group, inGroups, inGroup⟩)
    simp only [queuedAt, mem_filter, Bool.and_eq_true, decide_eq_true_eq] at mem
    exact ⟨x, mem.1, mem.2.2⟩

/-- What is live is at its path. -/
theorem Holds.nodeAt_of_live {l : Option Level} {h : SubHeap}
    (holds : Holds l h live) {x : Subscription} (mem : x ∈ live) :
    ∃ n, nodeAt l (pathOf (tokens x.subject)) = some n := by
  cases at' : nodeAt l (pathOf (tokens x.subject)) with
  | some n => exact ⟨n, rfl⟩
  | none =>
    by_cases plain : x.queue = none
    · have here : x ∈ plainAt live (pathOf (tokens x.subject)) := by simp [plainAt, mem, plain]
      have inNode := (holds.plain _).mem_iff.mpr here
      simp [psubsAt, at'] at inNode
    · have here : x ∈ queuedAt live (pathOf (tokens x.subject)) := by simp [queuedAt, mem, plain]
      obtain ⟨gs, reads, -, members⟩ := holds.queued (pathOf (tokens x.subject))
      have inGroups := members.mem_iff.mpr here
      have length := reads.length
      rw [qsubsAt, at', Option.map_none, Option.getD_none, length_nil] at length
      rw [eq_nil_of_length_eq_zero length.symm] at inGroups
      simp at inGroups

end Nodes

section Runs

variable (g : Grow)

/-- The token count of the longest live subject. -/
def longestTokenCount (live : List Subscription) : Nat :=
  (live.map fun x => (tokens x.subject).length).foldr max 0

theorem longestTokenCount_le_iff (live : List Subscription) (b : Nat) :
    longestTokenCount live ≤ b ↔ ∀ x ∈ live, (tokens x.subject).length ≤ b := by
  unfold longestTokenCount
  induction live with
  | nil => simp
  | cons x live ih => simp [ih]

/-- Every node lies on the path of a live subscription. -/
theorem onPath {s : Sublist} (inv : Inv s live) (pruned : s.root.Pruned) (at' : nodeAt (some s.root) p = some n) :
    ∃ x ∈ live, p <+: pathOf (tokens x.subject) := by
  obtain ⟨q, contents⟩ := pruned.contents_below at'
  obtain ⟨x, mem, path⟩ := inv.holds.live_of_contents contents
  exact ⟨x, mem, path ▸ prefix_append p q⟩

theorem numLevels_eq {s : Sublist} (inv : Inv s live)
    (pruned : s.root.Pruned) : s.numLevels = longestTokenCount live := by
  refine eq_of_forall_ge_iff fun b => ?_
  rw [Sublist.numLevels, visitLevel_le_iff_nodeAt pruned, longestTokenCount_le_iff]
  constructor
  · rintro ⟨-, nodes⟩ x mem
    obtain ⟨n, at'⟩ := inv.holds.nodeAt_of_live mem
    simpa [pathOf] using nodes _ n at'
  · intro short
    refine ⟨Nat.zero_le b, fun p n at' => ?_⟩
    obtain ⟨x, mem, isPrefix⟩ := onPath inv pruned at'
    have length := isPrefix.length_le
    have bound := short x mem
    simp only [pathOf, length_map] at length
    omega

/-- Every call but a refused `Insert` keeps the trie pruned. -/
theorem pruned_applyOp {st : Sublist × List Subscription} (pruned : st.1.root.Pruned)
    (op : SublistOp) (accepted : ∀ sub, op = .insert sub → (st.1.insert g sub).2 = none) :
    (applyOp g st op).1.root.Pruned := by
  cases op with
  | insert sub =>
    have ok : insertable (tokens sub.subject) false = true := by
      cases refused : insertable (tokens sub.subject) false with
      | true => rfl
      | false =>
        obtain ⟨l', ran, -⟩ := insertAt_refused g sub _ false st.1.heap st.1.root refused
        have returned := accepted sub rfl
        simp [Sublist.insert, ran] at returned
    obtain ⟨l', ran, -⟩ := insertAt_accepted g sub _ false st.1.heap st.1.root
      (tokens_ne_nil _) ok
    have kept := (insertAt_pruned g sub _ false st.1.heap st.1.root (tokens_ne_nil _) ok pruned).1
    rw [ran] at kept
    simpa [applyOp, Sublist.insert, ran] using kept
  | remove sub =>
    cases ran : removeAt g sub (tokens sub.subject) false st.1.heap (some st.1.root) with
    | error e => simpa [applyOp, Sublist.remove, ran] using pruned
    | ok pair =>
      have kept := removeAt_pruned g sub _ false st.1.heap (some st.1.root)
        (fun level here => by cases here; exact pruned) ran
      simpa [applyOp, Sublist.remove, ran] using kept
  | matchSubject subject pick =>
    simp only [applyOp, Sublist.matchSubject]
    split
    · exact pruned
    · exact pruned

/-- No `Insert` of the run was refused. -/
def InsertsSucceed (ops : List SublistOp) : Prop :=
  ∀ before sub after, ops = before ++ .insert sub :: after →
    ((runOps g before).1.insert g sub).2 = none

/-- Whether `Insert` succeeds only depends on the subject. -/
theorem insertsSucceed_of_insertable {ops : List SublistOp}
    (valid : ∀ sub, .insert sub ∈ ops → insertable (tokens sub.subject) false = true) :
    InsertsSucceed g ops := by
  intro before sub after split
  have ok := valid sub (by simp [split])
  exact (insert_accepted g (inv_runOps g before) ok).1

theorem pruned_runOps (ops : List SublistOp) (succeed : InsertsSucceed g ops) :
    (runOps g ops).1.root.Pruned := by
  induction ops using reverseRecOn with
  | nil => exact .newLevel
  | append_singleton ops op ih =>
    have before : InsertsSucceed g ops := by
      intro earlier sub after split
      exact succeed earlier sub (after ++ [op]) (by simp [split])
    have step : runOps g (ops ++ [op]) = applyOp g (runOps g ops) op := by
      simp [runOps]
    rw [step]
    exact pruned_applyOp g (ih before) op fun sub here => succeed ops sub [] (by rw [here])

/-- The trie is pruned back exactly: after every run of successful calls each node holds something
or has a non-empty next level and lies on the path of a live subscription, `numLevels` is the
longest token count that is live, nothing live leaves no node, and a `Remove` that fails changes
nothing: neither the sublist nor, by what it assigns in place, the node the subject leads to. -/
theorem pruned_exactly (ops : List SublistOp) (succeed : InsertsSucceed g ops) :
    (∀ p n, nodeAt (some (runOps g ops).1.root) p = some n →
      (n.psubs ≠ [] ∨ n.qsubs ≠ [] ∨ ∃ next, n.next = some next ∧ next.numNodes ≠ 0) ∧
        ∃ x ∈ (runOps g ops).2, p <+: pathOf (tokens x.subject)) ∧
      (runOps g ops).1.numLevels = longestTokenCount (runOps g ops).2 ∧
      ((runOps g ops).2 = [] → (runOps g ops).1.root.numNodes = 0) ∧
      ∀ sub, ((runOps g ops).1.remove g sub).2 ≠ none →
        ((runOps g ops).1.remove g sub).1 = (runOps g ops).1 ∧
          ∀ n, nodeAt (some (runOps g ops).1.root) (pathOf (tokens sub.subject)) = some n →
            removeFromNodeInPlace g (runOps g ops).1.heap sub n =
              ((runOps g ops).1.heap, n, false) := by
  have inv := inv_runOps g ops
  have pruned := pruned_runOps g ops succeed
  refine ⟨fun p n at' => ⟨?_, onPath inv pruned at'⟩, numLevels_eq inv pruned, ?_, ?_⟩
  · rw [← Node.isEmpty_false_iff]
    exact pruned.kept_at at'
  · intro none_live
    refine numNodes_eq_zero pruned.unique fun k => ?_
    refine Option.eq_none_iff_forall_not_mem.mpr fun n child => ?_
    obtain ⟨x, mem, -⟩ := onPath inv pruned (p := [k]) child
    simp [none_live] at mem
  · intro sub failed
    by_cases live : sub ∈ (runOps g ops).2
    · exact absurd (remove_live g inv live).1 failed
    · refine ⟨(remove_not_live g inv live).1, fun n at' => ?_⟩
      have missing := removeFromNode_not_live g inv.holds live
      have content : contentAt (some (runOps g ops).1.root) (pathOf (tokens sub.subject)) =
          .mk none n.psubs n.qsubs := by
        simp [contentAt, psubsAt, qsubsAt, at']
      rw [removeFromNodeInPlace_eq, removeFromNode_content, ← content, missing]
      rfl

end Runs

/-- Two subscriptions share `foo`; when the longer one is removed its node goes and `foo` stays. -/
theorem pruned_exactly_foo :
    (runOps .double [.insert { ptr := 1, subject := bytesOf "foo.bar.baz" },
      .insert { ptr := 2, subject := bytesOf "foo.*", queue := some (bytesOf "q") },
      .remove { ptr := 1, subject := bytesOf "foo.bar.baz" }]).1.numLevels = 2 := by
  rw [(pruned_exactly .double [.insert { ptr := 1, subject := bytesOf "foo.bar.baz" },
      .insert { ptr := 2, subject := bytesOf "foo.*", queue := some (bytesOf "q") },
      .remove { ptr := 1, subject := bytesOf "foo.bar.baz" }]
    (insertsSucceed_of_insertable .double fun sub mem => ?_)).2.1]
  · decide +kernel
  · simp only [mem_cons, SublistOp.insert.injEq, reduceCtorEq, not_mem_nil, or_false] at mem
    rcases mem with rfl | rfl
    · decide +kernel
    · decide

end Hnatsd.Server
