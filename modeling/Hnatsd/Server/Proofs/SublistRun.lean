import Hnatsd.Server.Proofs.SublistInvariant

/-!
# Runs of a sublist

A run makes calls on a fresh sublist and keeps a ledger of the live subscriptions: those whose
insertion returned no error, less one occurrence for each removal that returned none. After every
run the trie holds the ledger, so an uncached lookup returns the subscriptions that match.
-/

namespace Hnatsd.Server
open Misc List

variable {live : List Subscription} {l : Option Level} {h : SubHeap} {s : Sublist}
  {sub : Subscription}

theorem tokens_ne_nil (subject : Bytes) : tokens subject ≠ [] := splitOn_ne_nil _ _

/-- Selecting by key, key after key, selects by membership of the key. -/
theorem flatMap_filter_perm {α κ : Type} [DecidableEq κ] (keys : List κ) (key : α → κ)
    (choose : α → Bool) (xs : List α) (nodup : keys.Nodup) :
    (keys.flatMap fun k => xs.filter fun x => choose x && key x = k).Perm
      (xs.filter fun x => choose x && decide (key x ∈ keys)) := by
  induction keys with
  | nil => simp
  | cons k keys ih =>
    obtain ⟨new, rest⟩ := nodup_cons.mp nodup
    rw [flatMap_cons]
    refine ((ih rest).append_left _).trans ?_
    -- an element has key `k` or a later key, never both
    clear ih
    induction xs with
    | nil => simp
    | cons x xs ihx =>
      by_cases chosen : choose x = true
      · by_cases here : key x = k
        · have later : key x ∉ keys := here ▸ new
          simpa [filter_cons, chosen, here, later, new] using ihx.cons x
        · by_cases later : key x ∈ keys
          · simpa [filter_cons, chosen, here, later] using
              perm_middle.trans (ihx.cons x)
          · simpa [filter_cons, chosen, here, later] using ihx
      · simpa [filter_cons, chosen] using ihx

section Lookup

variable (g : Grow)

/-- The slices a lookup visits, in order. -/
def visited (l : Option Level) (subject : Bytes) : List Slice :=
  (matchPaths (tokens subject)).flatMap (qsubsAt l)

theorem mem_visited {subject : Bytes} {s : Slice} :
    s ∈ visited l subject ↔ ∃ p ∈ matchPaths (tokens subject), s ∈ qsubsAt l p :=
  mem_flatMap

theorem visited_separate (ok : HeapOk l h) (subject : Bytes) :
    Separate h (visited l subject) := by
  refine ⟨fun s mem => ?_, ?_⟩
  · obtain ⟨p, -, inNode⟩ := mem_visited.mp mem
    exact (ok.separate p).valid s inNode
  · rw [visited, map_flatMap, nodup_flatMap]
    refine ⟨fun p _ => (ok.separate p).distinct, ?_⟩
    refine (matchPaths_nodup (tokens subject)).imp ?_
    intro p q differ a left right
    obtain ⟨s, inP, rfl⟩ := mem_map.mp left
    obtain ⟨t, inQ, same⟩ := mem_map.mp right
    exact differ (ok.apart p q s inP t inQ same.symm)

/-- A slice of the trie is the only one there that has its array. -/
theorem HeapOk.eq_of_arr (ok : HeapOk l h) {p q : List Key}
    {s t : Slice} (inP : s ∈ qsubsAt l p) (inQ : t ∈ qsubsAt l q) (same : s.arr = t.arr) :
    s = t := by
  obtain rfl := ok.apart p q s inP t inQ same
  exact inj_on_of_nodup_map (ok.separate p).distinct inP inQ same

/-- The subscriptions of a list that match a subject. -/
def matching (live : List Subscription) (queued : Bool) (subject : Bytes) : List Subscription :=
  live.filter fun x =>
    decide (x.queue.isSome = queued) && tokensMatch (tokens x.subject) (tokens subject)

/-- The paths that are visited lead to the subscriptions that match. -/
theorem chosen_matching (choose : Subscription → Bool) (live : List Subscription)
    (subject : Bytes) :
    ((matchPaths (tokens subject)).flatMap fun p =>
      live.filter fun x => choose x && pathOf (tokens x.subject) = p).Perm
      (live.filter fun x => choose x && tokensMatch (tokens x.subject) (tokens subject)) := by
  refine (flatMap_filter_perm _ _ _ live (matchPaths_nodup (tokens subject))).trans ?_
  refine List.Perm.of_eq (filter_congr fun x _ => ?_)
  have selected := mem_matchPaths (tokens x.subject) (tokens_ne_nil subject)
  simp only [selected, Bool.decide_eq_true]

theorem plain_matching (live : List Subscription) (subject : Bytes) :
    ((matchPaths (tokens subject)).flatMap (plainAt live)).Perm (matching live false subject) := by
  refine (chosen_matching (fun x => x.queue = none) live subject).trans ?_
  refine List.Perm.of_eq (filter_congr fun x _ => ?_)
  cases x.queue <;> rfl

theorem queued_matching (live : List Subscription) (subject : Bytes) :
    ((matchPaths (tokens subject)).flatMap (queuedAt live)).Perm (matching live true subject) := by
  refine (chosen_matching (fun x => x.queue ≠ none) live subject).trans ?_
  refine List.Perm.of_eq (filter_congr fun x _ => ?_)
  cases x.queue <;> rfl

/-- What a lookup returns when the trie holds `live`, and what it does to the heap. -/
theorem lookup_spec {l : Level}
    (holds : Holds (some l) h live) (subject : Bytes) :
    ∃ gs, Visiting h (matchLevel g (some l) (tokens subject) (h, {})).1 (visited (some l) subject)
        (matchLevel g (some l) (tokens subject) (h, {})).2.qsubs gs ∧
      Grouped queueKey gs ∧ gs.flatten.Perm (matching live true subject) ∧
      (matchLevel g (some l) (tokens subject) (h, {})).2.psubs.Perm (matching live false subject) := by
  choose gsAt reads grouped members using holds.queued
  have readsAll : Reads h (visited (some l) subject)
      ((matchPaths (tokens subject)).flatMap gsAt) := by
    rw [Reads, visited, map_flatMap, map_flatMap]
    exact congrArg (flatMap · _) (funext reads)
  have proper : ∀ group ∈ (matchPaths (tokens subject)).flatMap gsAt, group ≠ [] ∧
      (∀ x ∈ group, x.queue ≠ none) ∧ ∀ x ∈ group, ∀ y ∈ group, queueKey x = queueKey y := by
    intro group mem
    obtain ⟨p, -, inNode⟩ := mem_flatMap.mp mem
    refine ⟨(grouped p).nonempty group inNode, fun x inGroup => ?_, (grouped p).same group inNode⟩
    have inQueued := (members p).mem_iff.mp (mem_flatten.mpr ⟨group, inNode, inGroup⟩)
    simp only [queuedAt, mem_filter, Bool.and_eq_true, decide_eq_true_eq] at inQueued
    exact inQueued.2.1
  obtain ⟨gs, visiting, groupedAll, flat⟩ := visiting_run g (visiting_start h) grouped_nil
    (by simpa using visited_separate holds.heapOk subject) readsAll proper
  rw [matchLevel_eq]
  refine ⟨gs, visiting, groupedAll, ?_, ?_⟩
  · refine flat.trans ?_
    have flatten : ((matchPaths (tokens subject)).flatMap gsAt).flatten =
        (matchPaths (tokens subject)).flatMap fun p => (gsAt p).flatten := by
      induction matchPaths (tokens subject) with
      | nil => rfl
      | cons p ps ih => simp [ih]
    rw [flatten_nil, nil_append, flatten]
    exact (List.Perm.flatMap_left _ fun p _ => members p).trans (queued_matching live subject)
  · exact (List.Perm.flatMap_left _ fun p _ => holds.plain p).trans (plain_matching live subject)

/-- A lookup appends to slices of visited nodes, but no node can see it. -/
theorem Visiting.keepsNodes {h' : SubHeap} {subject : Bytes}
    {qs : List Slice} {gs : List (List Subscription)} (ok : HeapOk l h)
    (visiting : Visiting h h' (visited l subject) qs gs) : KeepsNodes l h h' := by
  intro p t mem
  refine visiting.frame t ((ok.separate p).valid t mem) fun s s' order _ same => ?_
  obtain ⟨q, -, inNode⟩ := mem_visited.mp (order.subset (mem_cons_self ..))
  rw [ok.eq_of_arr inNode mem same]

end Lookup

/-- The sublist holds the ledger, and counts it as far as 32 bits go. -/
structure Inv (s : Sublist) (live : List Subscription) : Prop where
  holds : Holds (some s.root) s.heap live
  accepted : ∀ x ∈ live, insertable (tokens x.subject) false = true
  count : s.count = UInt32.ofNat live.length

theorem inv_newSublist : Inv Sublist.newSublist [] := by
  have none_at : ∀ p, nodeAt (some Level.newLevel) p = none := by
    intro p
    cases p with
    | nil => rfl
    | cons k ks => cases ks <;> simp [nodeAt]
  refine ⟨⟨⟨fun p => ?_, fun p q s mem => ?_⟩, fun p => ?_, fun p => ?_⟩, by simp, rfl⟩
  · simp only [Sublist.newSublist, qsubsAt, none_at]
    exact separate_nil _
  · simp [Sublist.newSublist, qsubsAt, none_at] at mem
  · simp [Sublist.newSublist, psubsAt, none_at, plainAt]
  · simp only [Sublist.newSublist, qsubsAt, none_at]
    exact ⟨[], reads_nil _, grouped_nil, by simp [queuedAt]⟩

section Calls

variable (g : Grow)

/-- `Insert` succeeds on the subjects it accepts. -/
theorem insert_accepted {s : Sublist} {live : List Subscription} {sub : Subscription}
    (inv : Inv s live) (ok : insertable (tokens sub.subject) false = true) :
    (s.insert g sub).2 = none ∧ Inv (s.insert g sub).1 (sub :: live) := by
  obtain ⟨l', ran, updated⟩ := insertAt_accepted g sub (tokens sub.subject) false s.heap s.root
    (tokens_ne_nil _) ok
  simp only [Sublist.insert, ran]
  refine ⟨trivial, ?_, ?_, ?_⟩
  · have holds := holds_addToNode g inv.holds updated
    exact holds.of_keepsNodes (holds.heapOk.keepsNodes (addToCache_extends g _ _ _ _))
  · intro x mem
    rcases mem_cons.mp mem with rfl | mem
    · exact ok
    · exact inv.accepted x mem
  · simp [inv.count, UInt32.ofNat_add]

theorem insert_refused {s : Sublist} {live : List Subscription} {sub : Subscription}
    (inv : Inv s live) (bad : insertable (tokens sub.subject) false = false) :
    (s.insert g sub).2 = some .invalidSubject ∧ Inv (s.insert g sub).1 live := by
  obtain ⟨l', ran, same⟩ := insertAt_refused g sub (tokens sub.subject) false s.heap s.root bad
  simp only [Sublist.insert, ran]
  exact ⟨trivial, inv.holds.of_sameContents same, inv.accepted, inv.count⟩

/-- `Remove` succeeds on the live subscriptions. -/
theorem remove_live
    (inv : Inv s live) (mem : sub ∈ live) :
    (s.remove g sub).2 = none ∧ Inv (s.remove g sub).1 (live.erase sub) := by
  obtain ⟨h', n', removed, -, after⟩ := holds_removeFromNode g inv.holds mem
  obtain ⟨l', ran, updated⟩ := removeAt_found g sub (tokens sub.subject) false s.heap (some s.root)
    (tokens_ne_nil _) (inv.accepted sub mem) removed
  simp only [Sublist.remove, ran]
  refine ⟨trivial, after _ updated, fun x left => inv.accepted x (mem_of_mem_erase left), ?_⟩
  have length : live.length = (live.erase sub).length + 1 :=
    (perm_cons_erase mem).length_eq
  have count := inv.count
  rw [length, UInt32.ofNat_add] at count
  rw [count]
  exact UInt32.add_sub_cancel _ 1

theorem remove_not_live
    (inv : Inv s live) (absent : sub ∉ live) :
    (s.remove g sub).1 = s ∧ (s.remove g sub).2 ≠ none := by
  obtain ⟨e, ran⟩ := removeAt_missing g sub (tokens sub.subject) false s.heap (some s.root)
    (removeFromNode_not_live g inv.holds absent)
  simp [Sublist.remove, ran]

/-- `Match` changes the cache, and only such cells of the heap as no node shows. -/
theorem matchSubject_inv (inv : Inv s live)
    (subject : Bytes) (pick : Nat) : Inv (s.matchSubject g subject pick).1 live := by
  unfold Sublist.matchSubject
  split
  · exact inv
  · obtain ⟨gs, visiting, -⟩ := lookup_spec g inv.holds subject
    exact ⟨inv.holds.of_keepsNodes (visiting.keepsNodes inv.holds.heapOk), inv.accepted, inv.count⟩

end Calls

/-- The calls a run makes; `pick` is the choice of an evicted cache entry. -/
inductive SublistOp where
  | insert (sub : Subscription)
  | remove (sub : Subscription)
  | matchSubject (subject : Bytes) (pick : Nat)

/-- One call, with the ledger kept by what it returns. -/
def applyOp (g : Grow) (st : Sublist × List Subscription) : SublistOp → Sublist × List Subscription
  | .insert sub =>
      let (s, err) := st.1.insert g sub
      (s, if err = none then sub :: st.2 else st.2)
  | .remove sub =>
      let (s, err) := st.1.remove g sub
      (s, if err = none then st.2.erase sub else st.2)
  | .matchSubject subject pick => ((st.1.matchSubject g subject pick).1, st.2)

/-- A run on a fresh sublist: the sublist and the live subscriptions. -/
def runOps (g : Grow) (ops : List SublistOp) : Sublist × List Subscription :=
  ops.foldl (applyOp g) (.newSublist, [])

section Runs

variable (g : Grow)

theorem inv_applyOp {st : Sublist × List Subscription} (inv : Inv st.1 st.2) (op : SublistOp) :
    Inv (applyOp g st op).1 (applyOp g st op).2 := by
  cases op with
  | insert sub =>
    simp only [applyOp]
    cases ok : insertable (tokens sub.subject) false with
    | true =>
      obtain ⟨returned, after⟩ := insert_accepted g inv ok
      simpa [returned] using after
    | false =>
      obtain ⟨returned, after⟩ := insert_refused g inv ok
      simpa [returned] using after
  | remove sub =>
    simp only [applyOp]
    by_cases mem : sub ∈ st.2
    · obtain ⟨returned, after⟩ := remove_live g inv mem
      simpa [returned] using after
    · obtain ⟨same, returned⟩ := remove_not_live g inv mem
      simpa [returned, same] using inv
  | matchSubject subject pick => exact matchSubject_inv g inv subject pick

theorem inv_runOps (ops : List SublistOp) : Inv (runOps g ops).1 (runOps g ops).2 := by
  have run : ∀ (ops : List SublistOp) (st : Sublist × List Subscription), Inv st.1 st.2 →
      Inv (ops.foldl (applyOp g) st).1 (ops.foldl (applyOp g) st).2 := by
    intro ops
    induction ops with
    | nil => exact fun st inv => inv
    | cons op ops ih => exact fun st inv => ih _ (inv_applyOp g inv op)
  exact run ops _ inv_newSublist

/-- Inserting an acceptable subscription again and again makes it live that often. -/
theorem live_replicate_insert
    (ok : insertable (tokens sub.subject) false = true) (n : Nat) :
    (runOps g (replicate n (.insert sub))).2.length = n := by
  induction n with
  | zero => rfl
  | succ n ih =>
    have inv := inv_runOps g (replicate n (.insert sub))
    have returned := (insert_accepted g inv ok).1
    have step : runOps g (replicate (n + 1) (.insert sub)) =
        applyOp g (runOps g (replicate n (.insert sub))) (.insert sub) := by
      simp only [runOps, replicate_succ', foldl_append, foldl_cons, foldl_nil]
    rw [step]
    simp [applyOp, returned, ih]

end Runs

end Hnatsd.Server
