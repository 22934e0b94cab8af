import Hnatsd.Server.Sublist

/-!
# The trie as a map from paths to node contents

A path is the list of keys from the root to a node. `psubsAt` and `qsubsAt` read a node's
contents through its path, and read nothing where there is no node, so creating an empty node and
pruning one leave both as they were. `insertAt` and `removeAt` then change the contents at one
path, and `matchLevel` is a fold over the paths that match its tokens.
-/

namespace Hnatsd.Server
open Misc Level

variable {sfwc : Bool} {t : Bytes} {k : Key} {l next : Level} {ts : List Bytes} {path : List Key}
  {n : Node} {l' : Option Level}

namespace Level

theorem get_set (l : Level) (k k' : Key) (n : Node) :
    (l.set k n).get k' = if k' = k then some n else l.get k' := by
  cases k with
  | lit t =>
    cases k' with
    | lit t' => simp [set, get, nodes, lookup_assocSet]
    | _ => simp [set, get, pwc, fwc]
  | _ =>
    cases k' <;> simp [set, get, nodes, pwc, fwc]

theorem get_pruneNode (l : Level) (k k' : Key) :
    (l.pruneNode k).get k' = if k' = k then none else l.get k' := by
  cases k with
  | lit t =>
    cases k' with
    | lit t' => simp [pruneNode, get, nodes, lookup_assocErase]
    | _ => simp [pruneNode, get, pwc, fwc]
  | _ =>
    cases k' <;> simp [pruneNode, get, nodes, pwc, fwc]

@[simp] theorem get_newLevel (k : Key) : newLevel.get k = none := by
  cases k <;> rfl

theorem get_of_numNodes_eq_zero (none_left : l.numNodes = 0) (k : Key) :
    l.get k = none := by
  simp only [numNodes, Nat.add_eq_zero_iff, List.length_eq_zero_iff] at none_left
  obtain ⟨⟨nodes, noPwc⟩, noFwc⟩ := none_left
  cases k with
  | pwc => simpa [get] using noPwc
  | fwc => simpa [get] using noFwc
  | lit t => simp [get, nodes]

end Level

/-- The node a path leads to. -/
def nodeAt : Option Level → List Key → Option Node
  | none, _ => none
  | some _, [] => none
  | some l, [k] => l.get k
  | some l, k :: k' :: ks => nodeAt ((l.get k).bind Node.next) (k' :: ks)

def psubsAt (l : Option Level) (p : List Key) : List Subscription :=
  ((nodeAt l p).map Node.psubs).getD []

def qsubsAt (l : Option Level) (p : List Key) : List Slice :=
  ((nodeAt l p).map Node.qsubs).getD []

/-- A node with the contents at a path and no children. -/
def contentAt (l : Option Level) (p : List Key) : Node :=
  .mk none (psubsAt l p) (qsubsAt l p)

@[simp] theorem nodeAt_none (p : List Key) : nodeAt none p = none := by
  cases p <;> rfl

@[simp] theorem nodeAt_nil (l : Option Level) : nodeAt l [] = none := by
  cases l <;> rfl

theorem nodeAt_cons {p : List Key} (more : p ≠ []) :
    nodeAt (some l) (k :: p) = nodeAt ((l.get k).bind Node.next) p := by
  cases p with
  | nil => exact absurd rfl more
  | cons k' ks => rfl

@[simp] theorem psubsAt_none (p : List Key) : psubsAt none p = [] := by simp [psubsAt]
@[simp] theorem qsubsAt_none (p : List Key) : qsubsAt none p = [] := by simp [qsubsAt]

/-- Two tries have the same contents when they do so through every path. -/
def SameContents (l l' : Option Level) : Prop :=
  ∀ p, psubsAt l p = psubsAt l' p ∧ qsubsAt l p = qsubsAt l' p

theorem sameContents_refl (l : Option Level) : SameContents l l := fun _ => ⟨rfl, rfl⟩

/-- `l'` has contents `n` at `path` and those of `l` everywhere else. -/
def UpdatedAt (l l' : Option Level) (path : List Key) (n : Node) : Prop :=
  ∀ p, psubsAt l' p = (if p = path then n.psubs else psubsAt l p) ∧
    qsubsAt l' p = (if p = path then n.qsubs else qsubsAt l p)

/-- Setting one child updates the contents at the paths through it only. -/
theorem contents_set (l : Level) (k : Key) (n : Node) (p : List Key) :
    psubsAt (some (l.set k n)) p =
      (if p = [k] then n.psubs
        else if p.head? = some k then psubsAt n.next p.tail else psubsAt (some l) p) ∧
    qsubsAt (some (l.set k n)) p =
      (if p = [k] then n.qsubs
        else if p.head? = some k then qsubsAt n.next p.tail else qsubsAt (some l) p) := by
  cases p with
  | nil => simp [psubsAt, qsubsAt]
  | cons k' ks =>
    cases ks with
    | nil =>
      by_cases same : k' = k
      · simp [psubsAt, qsubsAt, nodeAt, get_set, same]
      · simp [psubsAt, qsubsAt, nodeAt, get_set, same]
    | cons k'' ks =>
      by_cases same : k' = k
      · simp [psubsAt, qsubsAt, nodeAt, get_set, same]
      · simp [psubsAt, qsubsAt, nodeAt, get_set, same]

/-- The contents of a trie below a child, or at it. -/
theorem contents_cons (l : Level) (k : Key) (p : List Key) :
    psubsAt (some l) (k :: p) =
      (if p = [] then ((l.get k).map Node.psubs).getD []
        else psubsAt ((l.get k).bind Node.next) p) ∧
    qsubsAt (some l) (k :: p) =
      (if p = [] then ((l.get k).map Node.qsubs).getD []
        else qsubsAt ((l.get k).bind Node.next) p) := by
  cases p with
  | nil => simp [psubsAt, qsubsAt, nodeAt]
  | cons k' ks => simp [psubsAt, qsubsAt, nodeAt]

/-- An empty node hides nothing: pruning it does not change the contents. -/
theorem contents_prune (l : Level) (k : Key) (n : Node) :
    SameContents (some (if n.isEmpty then l.pruneNode k else l.set k n)) (some (l.set k n)) := by
  by_cases empty : n.isEmpty = true
  · simp only [empty, if_true]
    simp only [Node.isEmpty, Bool.and_eq_true, List.isEmpty_iff] at empty
    obtain ⟨⟨noPsubs, noQsubs⟩, noNext⟩ := empty
    have below : ∀ k' ks, nodeAt n.next (k' :: ks) = none := by
      intro k' ks
      cases next : n.next with
      | none => simp
      | some level =>
        have zero : level.numNodes = 0 := by simpa [next] using noNext
        cases ks with
        | nil => exact get_of_numNodes_eq_zero zero k'
        | cons k'' ks => simp [nodeAt, get_of_numNodes_eq_zero zero k']
    intro p
    cases p with
    | nil => simp [psubsAt, qsubsAt]
    | cons k' ks =>
      by_cases same : k' = k
      · cases ks with
        | nil =>
          simp [psubsAt, qsubsAt, nodeAt, get_pruneNode, get_set, same, noPsubs, noQsubs]
        | cons k'' ks =>
          simp [psubsAt, qsubsAt, nodeAt, get_pruneNode, get_set, same, below]
      · cases ks with
        | nil => simp [psubsAt, qsubsAt, nodeAt, get_pruneNode, get_set, same]
        | cons k'' ks =>
          simp [psubsAt, qsubsAt, nodeAt, get_pruneNode, get_set, same]
  · simp only [empty]
    exact sameContents_refl _

/-- Updating below a child updates below the whole level. -/
theorem updatedAt_set_next
    (nonempty : path ≠ []) (below : UpdatedAt ((l.get k).bind Node.next) (some next) path n) :
    UpdatedAt (some l) (some (l.set k (((l.get k).getD .newNode).setNext next))) (k :: path) n := by
  intro p
  obtain ⟨psubsSet, qsubsSet⟩ := contents_set l k (((l.get k).getD .newNode).setNext next) p
  rw [psubsSet, qsubsSet]
  cases p with
  | nil => simp [psubsAt, qsubsAt]
  | cons k' ks =>
    by_cases same : k' = k
    · subst same
      obtain ⟨psubsCons, qsubsCons⟩ := contents_cons l k' ks
      rw [psubsCons, qsubsCons]
      cases ks with
      | nil =>
        cases l.get k' <;>
          simp [Node.setNext, Node.psubs, Node.qsubs, Node.newNode, Ne.symm nonempty]
      | cons k'' ks =>
        obtain ⟨psubsBelow, qsubsBelow⟩ := below (k'' :: ks)
        simp [Node.setNext, Node.next, psubsBelow, qsubsBelow]
    · simp [same]

theorem updatedAt_of_sameContents {l l'' : Option Level}
    (updated : UpdatedAt l l' path n) (same : SameContents l'' l') : UpdatedAt l l'' path n := by
  intro p
  rw [(same p).1, (same p).2]
  exact updated p

/-- Updating a child itself, when the new node keeps what is below the old one. -/
theorem updatedAt_set_node {l : Level} {k : Key} {n : Node}
    (below : SameContents n.next ((l.get k).bind Node.next)) :
    UpdatedAt (some l) (some (l.set k n)) [k] n := by
  intro p
  obtain ⟨psubsSet, qsubsSet⟩ := contents_set l k n p
  rw [psubsSet, qsubsSet]
  cases p with
  | nil => simp [psubsAt, qsubsAt]
  | cons k' ks =>
    by_cases same : k' = k
    · subst same
      obtain ⟨psubsCons, qsubsCons⟩ := contents_cons l k' ks
      rw [psubsCons, qsubsCons]
      cases ks with
      | nil => simp
      | cons k'' ks =>
        obtain ⟨psubsBelow, qsubsBelow⟩ := below (k'' :: ks)
        simp [psubsBelow, qsubsBelow]
    · simp [same]

/-- An update that writes what was there changes no contents. -/
theorem UpdatedAt.sameContents {l : Option Level}
    (updated : UpdatedAt l l' path n) (psubs : n.psubs = psubsAt l path)
    (qsubs : n.qsubs = qsubsAt l path) : SameContents l' l := by
  intro p
  rw [(updated p).1, (updated p).2]
  by_cases here : p = path
  · rw [if_pos here, if_pos here, here]
    exact ⟨psubs, qsubs⟩
  · rw [if_neg here, if_neg here]
    exact ⟨rfl, rfl⟩

/-- Replacing a child by itself, or by an empty node where there was none, changes no contents. -/
theorem contents_set_next
    (below : SameContents (some next) ((l.get k).bind Node.next)) :
    SameContents (some (l.set k (((l.get k).getD .newNode).setNext next))) (some l) := by
  have updated := @updatedAt_set_node l k (((l.get k).getD .newNode).setNext next) below
  refine updated.sameContents ?_ ?_ <;>
    cases found : l.get k <;>
    simp [psubsAt, qsubsAt, nodeAt, found, Node.setNext, Node.psubs, Node.qsubs, Node.newNode]

theorem sameContents_newLevel : SameContents (some .newLevel) none := by
  intro p
  cases p with
  | nil => simp [psubsAt, qsubsAt]
  | cons k ks => cases ks <;> simp [psubsAt, qsubsAt, nodeAt]

/-- The level `Insert` descends into has the contents of the one that was there, if any. -/
theorem sameContents_next (l : Level) (k : Key) :
    SameContents (some ((((l.get k).getD .newNode).next).getD .newLevel))
      ((l.get k).bind Node.next) := by
  cases found : l.get k with
  | none => exact sameContents_newLevel
  | some n =>
    cases next : n.next with
    | none => simpa [next] using sameContents_newLevel
    | some level => simpa [next] using sameContents_refl (some level)

theorem updatedAt_congr {l₁ l₂ : Option Level}
    (same : SameContents l₁ l₂) (updated : UpdatedAt l₁ l' path n) : UpdatedAt l₂ l' path n := by
  intro p
  rw [← (same p).1, ← (same p).2]
  exact updated p

theorem contentAt_congr {l₁ l₂ : Option Level} (same : SameContents l₁ l₂) (p : List Key) :
    contentAt l₁ p = contentAt l₂ p := by
  rw [contentAt, contentAt, (same p).1, (same p).2]

/-- The keys of a list of tokens. -/
def pathOf (ts : List Bytes) : List Key := ts.map Key.ofToken

/-- The tokens `Insert` takes: none is empty, and none follows one that starts with `>`. -/
def insertable : List Bytes → Bool → Bool
  | [], _ => true
  | t :: ts, sfwc => t ≠ [] && !sfwc && insertable ts (Key.ofToken t = .fwc)

theorem insertable_cons
    (accepted : insertable (t :: ts) sfwc = true) :
    ¬(t = [] ∨ sfwc = true) ∧ insertable ts (Key.ofToken t = .fwc) = true := by
  simp only [insertable, Bool.and_eq_true, decide_eq_true_eq, Bool.not_eq_true'] at accepted
  obtain ⟨⟨tokenNonempty, noFwc⟩, rest⟩ := accepted
  exact ⟨by simp [tokenNonempty, noFwc], rest⟩

theorem insertable_after_fwc (ts : List Bytes) : insertable ts true = true ↔ ts = [] := by
  cases ts <;> simp [insertable]

section Update

variable (g : Grow)

/-- `addToNode` keeps what is below the node and does not look at it. -/
theorem addToNode_content (h : SubHeap) (sub : Subscription) (n : Node) :
    addToNode g h sub n =
      ((addToNode g h sub (.mk none n.psubs n.qsubs)).1,
        .mk n.next (addToNode g h sub (.mk none n.psubs n.qsubs)).2.psubs
          (addToNode g h sub (.mk none n.psubs n.qsubs)).2.qsubs) := by
  obtain ⟨next, psubs, qsubs⟩ := n
  simp only [addToNode, Node.next, Node.psubs, Node.qsubs]
  by_cases plain : sub.queue = none
  · simp [plain]
  · simp only [plain, if_false]
    cases found : findQSliceForSub h sub qsubs with
    | none => rfl
    | some i =>
      cases group : qsubs[i]? with
      | none => simp [group]
      | some qr => simp [group]

theorem removeFromNode_content (h : SubHeap) (sub : Subscription) (n : Node) :
    removeFromNode g h sub n =
      (removeFromNode g h sub (.mk none n.psubs n.qsubs)).map
        fun (h, n') => (h, .mk n.next n'.psubs n'.qsubs) := by
  obtain ⟨next, psubs, qsubs⟩ := n
  simp only [removeFromNode, Node.next, Node.psubs, Node.qsubs]
  by_cases plain : sub.queue = none
  · simp only [plain, if_true, Option.map_map]
    rfl
  · simp only [plain, if_false]
    cases found : findQSliceForSub h sub qsubs with
    | none => rfl
    | some i =>
      cases group : qsubs[i]? with
      | none => simp [group]
      | some qr =>
        cases removed : removeSubFromSlice g h sub qr with
        | none => simp [group, removed]
        | some pair =>
          by_cases emptied : pair.2.len = 0 <;> simp [group, removed, emptied]

theorem removeFromNode_empty (h : SubHeap) (sub : Subscription) (next : Option Level) :
    removeFromNode g h sub (.mk next [] []) = none := by
  by_cases plain : sub.queue = none
  · simp [removeFromNode, plain, removeSubFromList, Node.psubs]
  · simp [removeFromNode, plain, findQSliceForSub, Node.qsubs]

theorem insertAt_last (sub : Subscription) (h : SubHeap) (l : Level)
    (guard : ¬(t = [] ∨ sfwc = true)) :
    insertAt g sub [t] sfwc h l =
      ((addToNode g h sub (((l.get (Key.ofToken t)).getD .newNode).setNext
          ((((l.get (Key.ofToken t)).getD .newNode).next).getD .newLevel))).1,
        l.set (Key.ofToken t) (addToNode g h sub (((l.get (Key.ofToken t)).getD .newNode).setNext
          ((((l.get (Key.ofToken t)).getD .newNode).next).getD .newLevel))).2, true) := by
  rw [insertAt, if_neg guard]

theorem insertAt_step (sub : Subscription) {t' : Bytes}
    (h : SubHeap) (l : Level) (guard : ¬(t = [] ∨ sfwc = true)) {h' : SubHeap}
    {ok : Bool}
    (below : insertAt g sub (t' :: ts) (Key.ofToken t = .fwc) h
      ((((l.get (Key.ofToken t)).getD .newNode).next).getD .newLevel) = (h', next, ok)) :
    insertAt g sub (t :: t' :: ts) sfwc h l =
      (h', l.set (Key.ofToken t) (((l.get (Key.ofToken t)).getD .newNode).setNext next), ok) := by
  rw [insertAt, if_neg guard]
  simp only [below]

theorem removeAt_guard (sub : Subscription) (ts : List Bytes)
    (h : SubHeap) (l : Option Level) (guard : t = [] ∨ sfwc = true) :
    removeAt g sub (t :: ts) sfwc h l = .error .invalidSubject := by
  cases l <;> rw [removeAt, if_pos guard]

theorem removeAt_last (sub : Subscription) (h : SubHeap) (l : Level)
    (guard : ¬(t = [] ∨ sfwc = true)) :
    removeAt g sub [t] sfwc h (some l) =
      match (l.get (Key.ofToken t)).bind (removeFromNode g h sub) with
      | none => .error .notFound
      | some (h, n) =>
          .ok (h, if n.isEmpty then l.pruneNode (Key.ofToken t) else l.set (Key.ofToken t) n) :=
  if_neg guard

theorem removeAt_step (sub : Subscription) {t' : Bytes}
    (h : SubHeap) (l : Level) (guard : ¬(t = [] ∨ sfwc = true)) :
    removeAt g sub (t :: t' :: ts) sfwc h (some l) =
      match removeAt g sub (t' :: ts) (Key.ofToken t = .fwc) h
        ((l.get (Key.ofToken t)).bind Node.next) with
      | .error e => .error e
      | .ok (h, next) =>
          .ok (h, if (((l.get (Key.ofToken t)).getD .newNode).setNext next).isEmpty
            then l.pruneNode (Key.ofToken t)
            else l.set (Key.ofToken t) (((l.get (Key.ofToken t)).getD .newNode).setNext next)) :=
  if_neg guard

/-- An accepted insertion changes the contents at the path of its tokens only. -/
theorem insertAt_accepted (sub : Subscription) (ts : List Bytes) (sfwc : Bool) (h : SubHeap)
    (l : Level) (nonempty : ts ≠ []) (accepted : insertable ts sfwc = true) :
    ∃ l', insertAt g sub ts sfwc h l =
        ((addToNode g h sub (contentAt (some l) (pathOf ts))).1, l', true) ∧
      UpdatedAt (some l) (some l') (pathOf ts)
        (addToNode g h sub (contentAt (some l) (pathOf ts))).2 := by
  induction ts generalizing sfwc l with
  | nil => exact absurd rfl nonempty
  | cons t ts ih =>
    obtain ⟨guard, rest⟩ := insertable_cons accepted
    have below := sameContents_next l (Key.ofToken t)
    cases ts with
    | nil =>
      -- the node's own contents are those at the one-key path
      have content : contentAt (some l) (pathOf [t]) =
          .mk none ((l.get (Key.ofToken t)).getD .newNode).psubs
            ((l.get (Key.ofToken t)).getD .newNode).qsubs := by
        cases found : l.get (Key.ofToken t) <;>
          simp [contentAt, pathOf, psubsAt, qsubsAt, nodeAt, found, Node.newNode, Node.psubs,
            Node.qsubs]
      rw [insertAt_last g sub h l guard, addToNode_content]
      simp only [Node.setNext, Node.psubs, Node.qsubs, Node.next, content]
      refine ⟨_, rfl, ?_⟩
      exact updatedAt_set_node (n := .mk _ _ _) below
    | cons t' ts =>
      obtain ⟨l', ran, updated⟩ := ih (Key.ofToken t = .fwc)
        ((((l.get (Key.ofToken t)).getD .newNode).next).getD .newLevel) (by simp) rest
      have content : contentAt (some ((((l.get (Key.ofToken t)).getD .newNode).next).getD .newLevel))
          (pathOf (t' :: ts)) = contentAt (some l) (pathOf (t :: t' :: ts)) := by
        rw [contentAt_congr below]
        rfl
      rw [content] at ran updated
      exact ⟨_, insertAt_step g sub h l guard ran,
        updatedAt_set_next (by simp) (updatedAt_congr below updated)⟩

/-- A refused insertion may leave new nodes behind, but changes no contents. -/
theorem insertAt_refused (sub : Subscription) (ts : List Bytes) (sfwc : Bool) (h : SubHeap)
    (l : Level) (refused : insertable ts sfwc = false) :
    ∃ l', insertAt g sub ts sfwc h l = (h, l', false) ∧ SameContents (some l') (some l) := by
  induction ts generalizing sfwc l with
  | nil => simp [insertable] at refused
  | cons t ts ih =>
    by_cases guard : t = [] ∨ sfwc = true
    · exact ⟨l, by simp [insertAt, guard], sameContents_refl _⟩
    · have rest : insertable ts (Key.ofToken t = .fwc) = false := by
        simp only [not_or, Bool.not_eq_true] at guard
        simpa [insertable, guard] using refused
      have below := sameContents_next l (Key.ofToken t)
      cases ts with
      | nil => simp [insertable] at rest
      | cons t' ts =>
        obtain ⟨l', ran, same⟩ := ih (Key.ofToken t = .fwc)
          ((((l.get (Key.ofToken t)).getD .newNode).next).getD .newLevel) (by simpa using rest)
        refine ⟨_, insertAt_step g sub h l guard ran, contents_set_next ?_⟩
        intro p
        rw [(same p).1, (same p).2]
        exact below p

/-- Nothing is found where there is nothing, and then nothing changes. -/
theorem removeAt_missing (sub : Subscription) (ts : List Bytes) (sfwc : Bool) (h : SubHeap)
    (l : Option Level) (missing : removeFromNode g h sub (contentAt l (pathOf ts)) = none) :
    ∃ e, removeAt g sub ts sfwc h l = .error e := by
  induction ts generalizing sfwc l with
  | nil => exact ⟨.notFound, rfl⟩
  | cons t ts ih =>
    by_cases guard : t = [] ∨ sfwc = true
    · exact ⟨.invalidSubject, removeAt_guard g sub ts h l guard⟩
    · cases l with
      | none => exact ⟨.notFound, by simp [removeAt, guard]⟩
      | some l =>
        cases ts with
        | nil =>
          refine ⟨.notFound, ?_⟩
          cases found : l.get (Key.ofToken t) with
          | none => rw [removeAt_last g sub h l guard, found, Option.bind_none]
          | some n =>
            have content : contentAt (some l) (pathOf [t]) = .mk none n.psubs n.qsubs := by
              simp [contentAt, pathOf, psubsAt, qsubsAt, nodeAt, found]
            rw [content] at missing
            have gone : removeFromNode g h sub n = none := by
              rw [removeFromNode_content, missing]
              rfl
            rw [removeAt_last g sub h l guard, found, Option.bind_some, gone]
        | cons t' ts =>
          obtain ⟨e, ran⟩ := ih (Key.ofToken t = .fwc) ((l.get (Key.ofToken t)).bind Node.next)
            missing
          exact ⟨e, by rw [removeAt_step g sub h l guard, ran]⟩

/-- A removal that finds its subscription changes the contents at the path of its tokens only;
the nodes pruned on the way back had none. -/
theorem removeAt_found (sub : Subscription) (ts : List Bytes) (sfwc : Bool) (h : SubHeap)
    (l : Option Level) (nonempty : ts ≠ []) (accepted : insertable ts sfwc = true)
    {h' : SubHeap} {n' : Node}
    (found : removeFromNode g h sub (contentAt l (pathOf ts)) = some (h', n')) :
    ∃ l', removeAt g sub ts sfwc h l = .ok (h', l') ∧
      UpdatedAt l (some l') (pathOf ts) n' := by
  induction ts generalizing sfwc l with
  | nil => exact absurd rfl nonempty
  | cons t ts ih =>
    obtain ⟨guard, rest⟩ := insertable_cons accepted
    cases l with
    | none =>
      rw [contentAt, psubsAt_none, qsubsAt_none, removeFromNode_empty] at found
      cases found
    | some l =>
      cases ts with
      | nil =>
        cases child : l.get (Key.ofToken t) with
        | none =>
          have content : contentAt (some l) (pathOf [t]) = .mk none [] [] := by
            simp [contentAt, pathOf, psubsAt, qsubsAt, nodeAt, child]
          rw [content, removeFromNode_empty] at found
          cases found
        | some n =>
          have content : contentAt (some l) (pathOf [t]) = .mk none n.psubs n.qsubs := by
            simp [contentAt, pathOf, psubsAt, qsubsAt, nodeAt, child]
          rw [content] at found
          have removed : removeFromNode g h sub n = some (h', .mk n.next n'.psubs n'.qsubs) := by
            rw [removeFromNode_content, found]
            rfl
          refine ⟨_, by rw [removeAt_last g sub h l guard, child, Option.bind_some, removed], ?_⟩
          refine updatedAt_of_sameContents ?_ (contents_prune _ _ _)
          have below : SameContents (Node.mk n.next n'.psubs n'.qsubs).next
              ((l.get (Key.ofToken t)).bind Node.next) := by
            rw [child]
            exact sameContents_refl _
          exact updatedAt_set_node below
      | cons t' ts =>
        obtain ⟨l', ran, updated⟩ := ih (Key.ofToken t = .fwc)
          ((l.get (Key.ofToken t)).bind Node.next) (by simp) rest found
        refine ⟨_, by rw [removeAt_step g sub h l guard, ran], ?_⟩
        exact updatedAt_of_sameContents (updatedAt_set_next (by simp) updated)
          (contents_prune _ _ _)

end Update

/-- The paths `matchLevel` visits for a list of tokens, in its order. -/
def matchPaths : List Bytes → List (List Key)
  | [] => []
  | [t] => [[.fwc], [.lit t], [.pwc]]
  | t :: t' :: ts =>
      [.fwc] :: ((matchPaths (t' :: ts)).map (.pwc :: ·) ++ (matchPaths (t' :: ts)).map (.lit t :: ·))

theorem matchPaths_ne_nil {p : List Key} (mem : p ∈ matchPaths ts) : p ≠ [] := by
  cases ts with
  | nil => simp [matchPaths] at mem
  | cons t ts =>
    cases ts with
    | nil =>
      simp only [matchPaths, List.mem_cons, List.not_mem_nil, or_false] at mem
      rcases mem with rfl | rfl | rfl <;> simp
    | cons t' ts =>
      simp only [matchPaths, List.mem_cons, List.mem_append, List.mem_map] at mem
      rcases mem with rfl | ⟨q, -, rfl⟩ | ⟨q, -, rfl⟩ <;> simp

/-- Folding over the paths below a child is folding over their tails in the level below it. -/
private theorem foldl_below (g : Grow) (l : Level) (k : Key) (ps : List (List Key))
    (nonempty : ∀ p ∈ ps, p ≠ []) (hr : SubHeap × SublistResult) :
    (ps.map (k :: ·)).foldl (fun hr p => addOptNode g (nodeAt (some l) p) hr) hr =
      ps.foldl (fun hr p => addOptNode g (nodeAt ((l.get k).bind Node.next) p) hr) hr := by
  induction ps generalizing hr with
  | nil => rfl
  | cons p ps ih =>
    simp only [List.map_cons, List.foldl_cons]
    rw [nodeAt_cons (nonempty p (by simp)), ih (fun q mem => nonempty q (by simp [mem]))]

/-- `matchLevel` adds the nodes at the matching paths, one after the other. -/
theorem matchLevel_eq_foldl (g : Grow) (l : Option Level) (ts : List Bytes)
    (hr : SubHeap × SublistResult) :
    matchLevel g l ts hr =
      (matchPaths ts).foldl (fun hr p => addOptNode g (nodeAt l p) hr) hr := by
  induction ts generalizing l hr with
  | nil => cases l <;> rfl
  | cons t ts ih =>
    cases l with
    | none =>
      have skip : ∀ ps : List (List Key),
          ps.foldl (fun hr p => addOptNode g (nodeAt none p) hr) hr = hr := by
        intro ps
        induction ps with
        | nil => rfl
        | cons p ps ihp => simp [addOptNode]
      rw [skip]
      rfl
    | some l =>
      cases ts with
      | nil =>
        rw [matchLevel, ih]
        rfl
      | cons t' ts =>
        have nonempty : ∀ p ∈ matchPaths (t' :: ts), p ≠ [] := fun p mem => matchPaths_ne_nil mem
        rw [matchLevel]
        simp only [ih, matchPaths, List.foldl_cons, List.foldl_append]
        rw [foldl_below g l .pwc _ nonempty, foldl_below g l (.lit t) _ nonempty]
        rfl

end Hnatsd.Server
