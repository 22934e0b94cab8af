import Hnatsd.Server.Proofs.SublistPaths

/-!
# Refused insertions

`Insert` checks a token when it comes to it and has by then created the nodes for the tokens before.
A refused insertion leaves the counters, the generation, the cache and the queue groups alone; it
leaves the trie as it was exactly when the nodes for the tokens it took were there.
-/

namespace Hnatsd.Server
open Misc List Sublist

/-- What a node is apart from the nodes below it: its subscriptions, and whether it has a next
level. -/
def Node.own (n : Node) : List Subscription × List Slice × Bool :=
  (n.psubs, n.qsubs, n.next.isSome)

theorem Node.own_setNext (n : Node) {next : Level} (level : n.next = some next) (next' : Level) :
    (n.setNext next').own = n.own := by
  rw [own, own, level]
  rfl

/-- Two tries are the same node for node. The children of a level are a map: the order in which they
are listed is not part of it. -/
def SameNodes (l l' : Option Level) : Prop :=
  ∀ p, (nodeAt l p).map Node.own = (nodeAt l' p).map Node.own

theorem SameNodes.trans {l l' l'' : Option Level} (first : SameNodes l l')
    (second : SameNodes l' l'') : SameNodes l l'' :=
  fun p => (first p).trans (second p)

/-- A path that a descent can follow to its end and go on from: there is a next level. -/
def leadsOn (l : Level) (p : List Key) : Bool :=
  p.isEmpty || ((nodeAt (some l) p).bind Node.next).isSome

theorem leadsOn_cons (l : Level) (k : Key) (p : List Key) :
    leadsOn l (k :: p) = true ↔ ∃ n next, l.get k = some n ∧ n.next = some next ∧
      leadsOn next p = true := by
  cases p with
  | nil =>
    cases child : l.get k with
    | none => simp [leadsOn, nodeAt, child]
    | some n => simp [leadsOn, nodeAt, child, Option.isSome_iff_exists]
  | cons k' p =>
    cases child : l.get k with
    | none => simp [leadsOn, nodeAt, child]
    | some n =>
      cases level : n.next with
      | none => simp [leadsOn, nodeAt, child, level]
      | some next => simp [leadsOn, nodeAt, child, level]

theorem leadsOn_of_sameNodes {l l' : Level} (same : SameNodes (some l) (some l')) {p : List Key}
    (leads : leadsOn l p = true) : leadsOn l' p = true := by
  cases p with
  | nil => rfl
  | cons k p =>
    have here := same (k :: p)
    simp only [leadsOn, isEmpty_cons, Bool.false_or, Option.isSome_bind] at leads ⊢
    cases found : nodeAt (some l) (k :: p) with
    | none => simp [found] at leads
    | some n =>
      cases found' : nodeAt (some l') (k :: p) with
      | none => simp [found, found'] at here
      | some n' =>
        simp only [found, found', Option.map_some, Option.some.injEq, Node.own,
          Prod.mk.injEq] at here
        simpa [found, found', here.2.2] using leads

/-- The tokens `Insert` takes before it refuses one. -/
def takenTokens : List Bytes → Bool → List Bytes
  | [], _ => []
  | t :: ts, sfwc => if t = [] ∨ sfwc then [] else t :: takenTokens ts (Key.ofToken t = .fwc)

section Descent

variable {l : Level} {k : Key} {n : Node}

theorem nodeAt_set (p : List Key) (k' : Key) :
    nodeAt (some (l.set k n)) (k' :: p) =
      if k' = k then (if p = [] then some n else nodeAt n.next p)
      else nodeAt (some l) (k' :: p) := by
  cases p with
  | nil =>
    simp only [nodeAt, Level.get_set]
    split <;> simp
  | cons k'' p =>
    simp only [nodeAt, Level.get_set]
    split <;> simp

/-- A child that stays, with the level below it changed to one that is the same, is the same. -/
theorem sameNodes_set_next {next next' : Level} (child : l.get k = some n)
    (level : n.next = some next) (same : SameNodes (some next') (some next)) :
    SameNodes (some (l.set k (n.setNext next'))) (some l) := by
  intro p
  cases p with
  | nil => rfl
  | cons k' p =>
    rw [nodeAt_set]
    split_ifs with here last
    · subst here last
      rw [nodeAt, child, Option.map_some, Option.map_some, n.own_setNext level]
    · subst here
      rw [nodeAt_cons last, child, Option.bind_some, level]
      exact same p
    · rfl

/-- Paths through other children go on as before, and through this one as below it. -/
theorem leadsOn_set_next {next' : Level} (p : List Key) (k' : Key) :
    leadsOn (l.set k (n.setNext next')) (k' :: p) =
      if k' = k then leadsOn next' p else leadsOn l (k' :: p) := by
  simp only [leadsOn, isEmpty_cons, Bool.false_or, nodeAt_set]
  split_ifs with here last
  · subst last
    rfl
  · rw [isEmpty_eq_false_iff.mpr last, Bool.false_or]
    rfl
  · rfl

end Descent

section Insert

variable (g : Grow)

/-- What a refused descent does to the trie. -/
structure Descended (l l' : Level) (taken : List Key) : Prop where
  grows : ∀ p, leadsOn l p = true → leadsOn l' p = true
  made : leadsOn l' taken = true
  kept : leadsOn l taken = true → SameNodes (some l') (some l)

theorem insertAt_descended (sub : Subscription) (ts : List Bytes) (sfwc : Bool) (h : SubHeap)
    (l : Level) (refused : insertable ts sfwc = false) :
    ∃ l', insertAt g sub ts sfwc h l = (h, l', false) ∧
      Descended l l' (pathOf (takenTokens ts sfwc)) := by
  induction ts generalizing sfwc l with
  | nil => simp [insertable] at refused
  | cons t ts ih =>
    by_cases guard : t = [] ∨ sfwc = true
    · refine ⟨l, by simp [insertAt, guard], fun p leads => leads, ?_, fun _ p => rfl⟩
      simp [takenTokens, guard, pathOf, leadsOn]
    · have rest : insertable ts (Key.ofToken t = .fwc) = false := by
        simp only [not_or, Bool.not_eq_true] at guard
        simpa [insertable, guard] using refused
      cases ts with
      | nil => simp [insertable] at rest
      | cons t' ts =>
        obtain ⟨next', ran, below⟩ := ih (Key.ofToken t = .fwc)
          ((((l.get (Key.ofToken t)).getD .newNode).next).getD .newLevel) (by simpa using rest)
        have taken : pathOf (takenTokens (t :: t' :: ts) sfwc) = Key.ofToken t ::
            pathOf (takenTokens (t' :: ts) (Key.ofToken t = .fwc)) := by
          rw [takenTokens, if_neg guard, pathOf, map_cons, pathOf]
        refine ⟨_, insertAt_step g sub h l guard ran, ?_, ?_, ?_⟩
        · intro p leads
          cases p with
          | nil => rfl
          | cons k p =>
            rw [leadsOn_set_next]
            split_ifs with here
            · subst here
              obtain ⟨n, next, child, level, further⟩ := (leadsOn_cons _ _ _).mp leads
              apply below.grows
              simpa [child, level] using further
            · exact leads
        · rw [taken, leadsOn_set_next, if_pos rfl]
          exact below.made
        · intro leads
          rw [taken] at leads
          obtain ⟨n, next, child, level, further⟩ := (leadsOn_cons _ _ _).mp leads
          simp only [child, level, Option.getD_some] at below ⊢
          exact sameNodes_set_next child level (below.kept further)

/-- A sublist that a call has left as it was: the trie node for node, the queue groups, the cache,
the counters and the generation. -/
structure Sublist.Unchanged (s s' : Sublist) : Prop where
  trie : SameNodes (some s'.root) (some s.root)
  rest : { s' with root := s.root } = s

theorem Sublist.insert_refused_iff (s : Sublist) (sub : Subscription) :
    (s.insert g sub).2 = some .invalidSubject ↔
      insertable (tokens sub.subject) false = false := by
  constructor
  · intro refused
    by_contra taken
    obtain ⟨l', ran, -⟩ := insertAt_accepted g sub (tokens sub.subject) false s.heap s.root
      (splitOn_ne_nil _ _) (by simpa using taken)
    simp [insert, ran] at refused
  · intro refused
    obtain ⟨l', ran, -⟩ := insertAt_descended g sub (tokens sub.subject) false s.heap s.root refused
    simp [insert, ran]

/-- The path of the tokens that `Insert` takes of a subject before it refuses one. -/
def takenPath (subject : Bytes) : List Key := pathOf (takenTokens (tokens subject) false)

/-- A refused call changes the trie and nothing else. -/
theorem Sublist.insert_descended {s : Sublist} {sub : Subscription}
    (refused : insertable (tokens sub.subject) false = false) :
    { (s.insert g sub).1 with root := s.root } = s ∧
      Descended s.root (s.insert g sub).1.root (takenPath sub.subject) := by
  obtain ⟨l', ran, descended⟩ :=
    insertAt_descended g sub (tokens sub.subject) false s.heap s.root refused
  have result : (s.insert g sub).1 = { s with root := l' } := by rw [insert, ran]
  rw [result]
  exact ⟨rfl, descended⟩

/-- A number of calls one after another. -/
def Sublist.insertAll (s : Sublist) (subs : List Subscription) : Sublist :=
  subs.foldl (fun s sub => (s.insert g sub).1) s

/-- What a stream of refused calls does: the nodes it needs are there afterwards, and if they were
there before nothing has changed. -/
theorem Sublist.insertAll_descended {s : Sublist} {subs : List Subscription}
    (refused : ∀ sub ∈ subs, insertable (tokens sub.subject) false = false) :
    { s.insertAll g subs with root := s.root } = s ∧
      (∀ p, leadsOn s.root p = true → leadsOn (s.insertAll g subs).root p = true) ∧
      (∀ sub ∈ subs, leadsOn (s.insertAll g subs).root (takenPath sub.subject) = true) ∧
      ((∀ sub ∈ subs, leadsOn s.root (takenPath sub.subject) = true) →
        SameNodes (some (s.insertAll g subs).root) (some s.root)) := by
  induction subs generalizing s with
  | nil => exact ⟨rfl, fun p leads => leads, fun sub mem => (not_mem_nil mem).elim,
      fun _ p => rfl⟩
  | cons sub subs ih =>
    obtain ⟨others, first⟩ := s.insert_descended g (refused sub mem_cons_self)
    obtain ⟨othersLater, grows, made, kept⟩ :=
      @ih (s.insert g sub).1 fun sub' mem => refused sub' (mem_cons_of_mem _ mem)
    have later : s.insertAll g (sub :: subs) = (s.insert g sub).1.insertAll g subs := rfl
    rw [later]
    refine ⟨?_, fun p leads => grows p (first.grows p leads), ?_, ?_⟩
    · have joined := congrArg (fun t : Sublist => { t with root := s.root }) othersLater
      exact joined.trans others
    · intro sub' mem
      rcases mem_cons.mp mem with rfl | further
      · exact grows _ first.made
      · exact made sub' further
    · intro present
      refine SameNodes.trans (kept ?_) (first.kept (present sub mem_cons_self))
      intro sub' mem
      exact first.grows _ (present sub' (mem_cons_of_mem _ mem))

/-- A stream of refused insertions leaves a sublist as it was exactly when the trie already had the
nodes for the tokens that precede the refused one of each subject. -/
theorem refused_inserts_unchanged_iff (s : Sublist) (subs : List Subscription)
    (refused : ∀ sub ∈ subs, (s.insert g sub).2 = some .invalidSubject) :
    s.Unchanged (s.insertAll g subs) ↔
      ∀ sub ∈ subs, leadsOn s.root (takenPath sub.subject) = true := by
  obtain ⟨others, -, made, kept⟩ := s.insertAll_descended g fun sub mem =>
    (s.insert_refused_iff g sub).mp (refused sub mem)
  constructor
  · intro unchanged sub mem
    exact leadsOn_of_sameNodes unchanged.trie (made sub mem)
  · intro present
    exact ⟨kept present, others⟩

end Insert

/-- With `foo` subscribed to, `foo..bar` is refused and leaves no trace. -/
theorem refused_inserts_unchanged_foo :
    (newSublist.insert .double { ptr := 1, subject := bytesOf "foo" }).1.Unchanged
      ((newSublist.insert .double { ptr := 1, subject := bytesOf "foo" }).1.insertAll
        .double [{ ptr := 2, subject := bytesOf "foo..bar" }]) := by
  refine (refused_inserts_unchanged_iff .double _ _ ?_).mpr ?_
  · intro sub mem
    rw [mem_singleton.mp mem]
    rfl
  · intro sub mem
    rw [mem_singleton.mp mem]
    decide

/-- In a fresh sublist the refused `foo..bar` leaves a node for `foo`. -/
theorem refused_insert_leaves_node :
    (newSublist.insert .double { ptr := 1, subject := bytesOf "foo..bar" }).2 =
        some .invalidSubject ∧
      newSublist.root.numNodes = 0 ∧
      (newSublist.insert .double { ptr := 1, subject := bytesOf "foo..bar" }).1.root.numNodes
        = 1 ∧
      ¬newSublist.Unchanged
        (newSublist.insert .double { ptr := 1, subject := bytesOf "foo..bar" }).1 := by
  refine ⟨rfl, rfl, rfl, fun unchanged => ?_⟩
  have here := unchanged.trie [.lit (bytesOf "foo")]
  have created : nodeAt (some (newSublist.insert .double
      { ptr := 1, subject := bytesOf "foo..bar" }).1.root) [.lit (bytesOf "foo")] =
      some (.mk (some .newLevel) [] []) := rfl
  rw [created] at here
  cases here

end Hnatsd.Server
