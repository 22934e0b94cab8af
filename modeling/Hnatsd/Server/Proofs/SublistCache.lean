import Hnatsd.Server.Proofs.SublistRun
import Hnatsd.Server.Proofs.SublistSubjects

/-!
# The cache of a sublist

A cached result may share the array of a queue group with the trie: the lookup that built it took
the node's own slice and may have appended the members of other nodes behind the node's end.
Whoever appends to the node's slice next writes over them. Runs in which this does not happen keep
every cached result equal to a fresh lookup.
-/

namespace Hnatsd.Server
open Misc List Sublist

variable {subject : Bytes} {e : Bytes × SublistResult} {live : List Subscription}
  {l : Option Level} {h h' : SubHeap} {s : Sublist} {sub : Subscription}

/-- A cached result shows more of an array than the node's slice it shares the array with. -/
def Outgrown (s : Sublist) (qr : Slice) : Prop :=
  ∃ e ∈ s.cache, ∃ t ∈ e.2.qsubs, t.arr = qr.arr ∧ qr.len < t.len

instance (s : Sublist) (qr : Slice) : Decidable (Outgrown s qr) :=
  inferInstanceAs (Decidable (∃ e ∈ s.cache, ∃ t ∈ e.2.qsubs, _ ∧ _))

/-- The slice `Insert` appends to. -/
def insertTarget (s : Sublist) (sub : Subscription) : Option Slice :=
  let qsubs := qsubsAt (some s.root) (pathOf (tokens sub.subject))
  (findQSliceForSub s.heap sub qsubs).bind fun i => qsubs[i]?

/-- A call appends to no slice of a node that a cached result has outgrown. `Insert` appends to
the group it finds; a lookup that is not answered by the cache appends to a visited slice when a
later one has its queue name. -/
def AppendsApart (s : Sublist) : SublistOp → Prop
  | .insert sub =>
      insertable (tokens sub.subject) false = true → ∀ qr ∈ insertTarget s sub, ¬Outgrown s qr
  | .remove _ => True
  | .matchSubject subject _ =>
      s.cache.lookup subject = none →
        (visited (some s.root) subject).Pairwise fun qr qr' =>
          SharesQueue s.heap qr qr' → ¬Outgrown s qr

instance (s : Sublist) (op : SublistOp) : Decidable (AppendsApart s op) :=
  match op with
  | .insert sub => inferInstanceAs (Decidable
      (insertable (tokens sub.subject) false = true → ∀ qr ∈ insertTarget s sub, ¬Outgrown s qr))
  | .remove _ => inferInstanceAs (Decidable True)
  | .matchSubject subject _ =>
      match hit : s.cache.lookup subject with
      | none => decidable_of_iff ((visited (some s.root) subject).Pairwise fun qr qr' =>
          SharesQueue s.heap qr qr' → ¬Outgrown s qr)
          ⟨fun apart _ => apart, fun apart => apart hit⟩
      | some r => isTrue fun miss => absurd (hit.symm.trans miss) (by simp)

/-- Every call of a run appends apart. -/
def RunsApart (g : Grow) (st : Sublist × List Subscription) : List SublistOp → Prop
  | [] => True
  | op :: ops => AppendsApart st.1 op ∧ RunsApart g (applyOp g st op) ops

instance decidableRunsApart (g : Grow) (st : Sublist × List Subscription) :
    (ops : List SublistOp) → Decidable (RunsApart g st ops)
  | [] => inferInstanceAs (Decidable True)
  | op :: ops =>
      have := decidableRunsApart g (applyOp g st op) ops
      inferInstanceAs (Decidable (_ ∧ _))

/-- Wildcards are whole tokens of subscription subjects and matched subjects are literal. -/
def SubjectsOk : SublistOp → Prop
  | .insert sub => wholeWildcards (tokens sub.subject)
  | .remove _ => True
  | .matchSubject subject _ => literalTokens (tokens subject)

instance (op : SublistOp) : Decidable (SubjectsOk op) :=
  match op with
  | .insert sub => inferInstanceAs (Decidable (wholeWildcards (tokens sub.subject)))
  | .remove _ => inferInstanceAs (Decidable True)
  | .matchSubject subject _ => inferInstanceAs (Decidable (literalTokens (tokens subject)))

/-- A cached result is what a lookup would return, and where it shares an array with a node it
begins with the node's slice. -/
structure Cached (l : Option Level) (h : SubHeap) (live : List Subscription)
    (e : Bytes × SublistResult) : Prop where
  literal : literalTokens (tokens e.1)
  plain : e.2.psubs.Perm (matching live false e.1)
  queued : ∃ gs, Reads h e.2.qsubs gs ∧ Grouped queueKey gs ∧
    gs.flatten.Perm (matching live true e.1)
  valid : ∀ t ∈ e.2.qsubs, h.Valid t
  shared : ∀ t ∈ e.2.qsubs, ∀ p, ∀ qr ∈ qsubsAt l p, t.arr = qr.arr →
    t.off = qr.off ∧ qr.len ≤ t.len ∧ p ∈ matchPaths (tokens e.1)

structure CacheInv (s : Sublist) (live : List Subscription) : Prop where
  inv : Inv s live
  whole : ∀ x ∈ live, wholeWildcards (tokens x.subject)
  cached : ∀ e ∈ s.cache, Cached (some s.root) s.heap live e

theorem matching_cons (sub : Subscription) (live : List Subscription) (queued : Bool)
    (subject : Bytes) :
    matching (sub :: live) queued subject =
      if sub.queue.isSome = queued ∧ tokensMatch (tokens sub.subject) (tokens subject) = true then
        sub :: matching live queued subject
      else matching live queued subject := by
  simp [matching, filter_cons]

theorem matching_cons_of_not
    (other : tokensMatch (tokens sub.subject) (tokens subject) = false)
    (live : List Subscription) (queued : Bool) :
    matching (sub :: live) queued subject = matching live queued subject := by
  rw [matching_cons, if_neg]
  simp [other]

/-- A heap in which the slices of a result read the same. -/
theorem reads_of_frame {qs : List Slice} {P : List (List Subscription) → Prop}
    (frame : ∀ t ∈ qs, h'.read t = h.read t) (queued : ∃ gs, Reads h qs gs ∧ P gs) :
    ∃ gs, Reads h' qs gs ∧ P gs := by
  obtain ⟨gs, reads, rest⟩ := queued
  exact ⟨gs, reads_congr reads frame, rest⟩

theorem Cached.extend (cached : Cached l h live e) (ext : Extends h h') :
    Cached l h' live e :=
  ⟨cached.literal, cached.plain,
    reads_of_frame (fun t mem => (ext t (cached.valid t mem)).2) cached.queued,
    fun t mem => (ext t (cached.valid t mem)).1, cached.shared⟩

section Insert

variable (g : Grow)

/-- An entry while `Insert` has added `sub` to the trie and not yet to the cache: it is right for
the subscriptions before, and if `sub` does not match it, it shares arrays as before. -/
structure Stale (l : Option Level) (h : SubHeap) (live : List Subscription) (sub : Subscription)
    (e : Bytes × SublistResult) : Prop where
  literal : literalTokens (tokens e.1)
  plain : e.2.psubs.Perm (matching live false e.1)
  queued : ∃ gs, Reads h e.2.qsubs gs ∧ Grouped queueKey gs ∧
    gs.flatten.Perm (matching live true e.1)
  valid : ∀ t ∈ e.2.qsubs, h.Valid t
  shared : tokensMatch (tokens sub.subject) (tokens e.1) = false →
    ∀ t ∈ e.2.qsubs, ∀ p, ∀ qr ∈ qsubsAt l p, t.arr = qr.arr →
      t.off = qr.off ∧ qr.len ≤ t.len ∧ p ∈ matchPaths (tokens e.1)

theorem Stale.extend (stale : Stale l h live sub e)
    (ext : Extends h h') : Stale l h' live sub e :=
  ⟨stale.literal, stale.plain,
    reads_of_frame (fun t mem => (ext t (stale.valid t mem)).2) stale.queued,
    fun t mem => (ext t (stale.valid t mem)).1, stale.shared⟩

/-- An entry `sub` does not match is right for the subscriptions after. -/
theorem Stale.skip (stale : Stale l h live sub e)
    (other : tokensMatch (tokens sub.subject) (tokens e.1) = false) :
    Cached l h (sub :: live) e := by
  have plain := stale.plain
  have queued := stale.queued
  rw [← matching_cons_of_not other live] at plain queued
  exact ⟨stale.literal, plain, queued, stale.valid, stale.shared other⟩

/-- An entry `sub` matches is replaced by a copy with `sub` in it, in arrays of its own. -/
theorem Stale.add {k : Bytes} {r : SublistResult} (stale : Stale l h live sub (k, r))
    (ok : HeapOk l h) (found : tokensMatch (tokens sub.subject) (tokens k) = true) :
    Cached l (addToResult g h sub r).1 (sub :: live)
      (k, (addToResult g h sub r).2) := by
  obtain ⟨-, separate, fresh, grown, psubs, cells⟩ := copyResult_spec g h r
  obtain ⟨gs, reads, grouped, members⟩ := stale.queued
  have readsCopy : Reads (copyResult g h r).1 (copyResult g h r).2.qsubs gs :=
    (cells stale.valid).trans reads
  -- new arrays are not those of a node
  have noShare : ∀ t : Slice, h.arrays.length ≤ t.arr → ∀ p, ∀ qr ∈ qsubsAt l p, t.arr ≠ qr.arr := by
    intro t new p qr mem same
    have := ((ok.separate p).valid qr mem).1
    omega
  rw [addToResult_eq]
  by_cases noQueue : sub.queue = none
  · rw [if_pos noQueue]
    refine ⟨stale.literal, ?_, ⟨gs, readsCopy, grouped, ?_⟩, separate.valid, ?_⟩
    · rw [matching_cons, if_pos ⟨by simp [noQueue], found⟩]
      refine (perm_append_singleton sub _).trans (List.Perm.cons sub ?_)
      rw [psubs]
      exact stale.plain
    · rw [matching_cons, if_neg (by simp [noQueue])]
      exact members
    · intro t mem p qr inNode same
      exact absurd same (noShare t (fresh t mem) p qr inNode)
  · rw [if_neg noQueue]
    have some_queue : sub.queue.isSome = true := Option.isSome_iff_ne_none.mpr noQueue
    have rewrites := addToGroups_rewrites g sub separate
    refine ⟨stale.literal, ?_, ⟨merge queueKey gs sub [], addToGroups_reads g noQueue separate
      readsCopy, grouped_merge grouped (by simp), ?_⟩, rewrites.separate.valid, ?_⟩
    · rw [matching_cons, if_neg (by simp [some_queue]), psubs]
      exact stale.plain
    · rw [matching_cons, if_pos ⟨some_queue, found⟩]
      refine (flatten_merge_perm queueKey gs sub []).trans ?_
      exact (perm_append_singleton sub _).trans (members.cons sub)
    · intro t mem p qr inNode same
      refine absurd same (noShare t ?_ p qr inNode)
      rcases rewrites.arrs t mem with ⟨t₀, inCopy, arr⟩ | new
      · rw [arr]
        exact fresh t₀ inCopy
      · exact Nat.le_trans grown new

/-- `addToCache` brings every entry up to date. -/
theorem cached_addToCache {cache : List (Bytes × SublistResult)} (ok : HeapOk l h)
    (accepted : insertable (tokens sub.subject) false = true)
    (whole : wholeWildcards (tokens sub.subject)) (stale : ∀ e ∈ cache, Stale l h live sub e) :
    ∀ e ∈ (addToCache g sub.subject sub h cache).2,
      Cached l (addToCache g sub.subject sub h cache).1 (sub :: live) e := by
  induction cache generalizing h with
  | nil => simp [addToCache]
  | cons entry cache ih =>
    obtain ⟨k, r⟩ := entry
    have first := stale (k, r) (by simp)
    have agree := matchLiteral_eq_tokensMatch accepted whole first.literal
    cases found : matchLiteral k sub.subject with
    | true =>
      have ext := addToResult_extends g h sub r
      have rest := ih (ok.of_keepsNodes (ok.keepsNodes ext)) fun e mem =>
        (stale e (by simp [mem])).extend ext
      simp only [addToCache, found, if_true]
      intro e mem
      rcases mem_cons.mp mem with rfl | mem
      · exact (first.add g ok (agree.symm.trans found)).extend (addToCache_extends g _ _ _ _)
      · exact rest e mem
    | false =>
      have rest := ih ok fun e mem => stale e (by simp [mem])
      simp only [addToCache, found]
      intro e mem
      rcases mem_cons.mp mem with rfl | mem
      · exact (first.skip (agree.symm.trans found)).extend (addToCache_extends g _ _ _ _)
      · exact rest e mem

/-- When `sub` is added to its node, a result that is not outgrown by it keeps its contents. -/
theorem stale_addToNode {l' : Option Level} (ok : HeapOk l h) (cached : Cached l h live e)
    (updated : UpdatedAt l l' (pathOf (tokens sub.subject))
      (addToNode g h sub (contentAt l (pathOf (tokens sub.subject)))).2)
    (apart : ∀ i qr, findQSliceForSub h sub (qsubsAt l (pathOf (tokens sub.subject))) = some i →
      (qsubsAt l (pathOf (tokens sub.subject)))[i]? = some qr →
        ∀ t ∈ e.2.qsubs, t.arr = qr.arr → ¬qr.len < t.len) :
    Stale l' (addToNode g h sub (contentAt l (pathOf (tokens sub.subject)))).1 live sub e := by
  have separate := ok.separate (pathOf (tokens sub.subject))
  have frame : ∀ t ∈ e.2.qsubs,
      (addToNode g h sub (contentAt l (pathOf (tokens sub.subject)))).1.Valid t ∧
        (addToNode g h sub (contentAt l (pathOf (tokens sub.subject)))).1.read t = h.read t := by
    intro t mem
    refine addToNode_frame g separate (cached.valid t mem) fun i qr found at_i same => ?_
    have start := (cached.shared t mem _ qr (mem_of_getElem? at_i) same.symm).1
    have short := apart i qr found at_i t mem same.symm
    omega
  refine ⟨cached.literal, cached.plain, reads_of_frame (fun t mem => (frame t mem).2) cached.queued,
    fun t mem => (frame t mem).1, ?_⟩
  intro other t mem p qr inNode same
  rw [(updated p).2] at inNode
  by_cases here : p = pathOf (tokens sub.subject)
  · -- a slice of the changed node has an array it had before, or a new one
    rw [if_pos here] at inNode
    exfalso
    rcases (addToNode_rewrites g sub separate).arrs qr inNode with ⟨qr₀, before, arr⟩ | new
    · have matched := (cached.shared t mem _ qr₀ before (same.trans arr)).2.2
      rw [mem_matchPaths _ (tokens_ne_nil e.1)] at matched
      simp [matched] at other
    · have := (cached.valid t mem).1
      omega
  · rw [if_neg here] at inNode
    exact cached.shared t mem p qr inNode same

end Insert

section Calls

variable (g : Grow)

theorem cacheInv_insert
    (inv : CacheInv s live) (whole : wholeWildcards (tokens sub.subject))
    (apart : AppendsApart s (.insert sub)) :
    CacheInv (applyOp g (s, live) (.insert sub)).1 (applyOp g (s, live) (.insert sub)).2 := by
  have after := @inv_applyOp g (s, live) inv.inv (.insert sub)
  cases ok : insertable (tokens sub.subject) false with
  | true =>
    have returned := (insert_accepted g inv.inv ok).1
    obtain ⟨l', ran, updated⟩ := insertAt_accepted g sub (tokens sub.subject) false s.heap s.root
      (tokens_ne_nil _) ok
    have live' : (applyOp g (s, live) (.insert sub)).2 = sub :: live := by
      simp [applyOp, returned]
    rw [live'] at after ⊢
    refine ⟨after, ?_, ?_⟩
    · intro x mem
      rcases mem_cons.mp mem with rfl | mem
      · exact whole
      · exact inv.whole x mem
    · have holds := holds_addToNode g inv.inv.holds updated
      have stale : ∀ e ∈ s.cache, Stale (some l') _ live sub e := fun e mem =>
        stale_addToNode g inv.inv.holds.heapOk (inv.cached e mem) updated
          fun i qr found at_i t inResult same longer =>
            apart ok qr (by simp [insertTarget, found, at_i]) ⟨e, mem, t, inResult, same, longer⟩
      simp only [applyOp, Sublist.insert, ran]
      exact cached_addToCache g holds.heapOk ok whole stale
  | false =>
    have returned := (insert_refused g inv.inv ok).1
    obtain ⟨l', ran, same⟩ := insertAt_refused g sub (tokens sub.subject) false s.heap s.root ok
    have live' : (applyOp g (s, live) (.insert sub)).2 = live := by
      simp [applyOp, returned]
    rw [live'] at after ⊢
    refine ⟨after, inv.whole, ?_⟩
    simp only [applyOp, Sublist.insert, ran]
    intro e mem
    have cached := inv.cached e mem
    refine ⟨cached.literal, cached.plain, cached.queued, cached.valid, ?_⟩
    intro t inResult p qr inNode
    rw [(same p).2] at inNode
    exact cached.shared t inResult p qr inNode

/-- An entry that does not match the removed subscription is not touched by the removal. -/
theorem Cached.remove {l' : Option Level} {n : Node} (cached : Cached l h live e)
    (mem : sub ∈ live) (other : tokensMatch (tokens sub.subject) (tokens e.1) = false)
    (updated : UpdatedAt l l' (pathOf (tokens sub.subject)) n)
    (rewrites : Rewrites h h' (qsubsAt l (pathOf (tokens sub.subject))) n.qsubs) :
    Cached l' h' (live.erase sub) e := by
  -- an entry that shares an array with the changed node would match
  have noShare : ∀ t ∈ e.2.qsubs, ∀ qr ∈ qsubsAt l (pathOf (tokens sub.subject)),
      t.arr ≠ qr.arr := by
    intro t inResult qr inNode same
    have matched := (cached.shared t inResult _ qr inNode same).2.2
    rw [mem_matchPaths _ (tokens_ne_nil e.1)] at matched
    simp [matched] at other
  have frame : ∀ t ∈ e.2.qsubs, h'.Valid t ∧ h'.read t = h.read t := fun t inResult =>
    rewrites.frame t (cached.valid t inResult) (noShare t inResult)
  have same : ∀ queued, (matching live queued e.1).Perm
      (matching (live.erase sub) queued e.1) := by
    intro queued
    rw [← matching_cons_of_not other (live.erase sub) queued]
    exact (perm_cons_erase mem).filter _
  obtain ⟨gs, reads, grouped, members⟩ := cached.queued
  refine ⟨cached.literal, cached.plain.trans (same false),
    ⟨gs, reads_congr reads fun t inResult => (frame t inResult).2, grouped,
      members.trans (same true)⟩, fun t inResult => (frame t inResult).1, ?_⟩
  intro t inResult p qr inNode sameArr
  rw [(updated p).2] at inNode
  by_cases here : p = pathOf (tokens sub.subject)
  · rw [if_pos here] at inNode
    exfalso
    rcases rewrites.arrs qr inNode with ⟨qr₀, before, arr⟩ | new
    · exact noShare t inResult qr₀ before (sameArr.trans arr)
    · have := (cached.valid t inResult).1
      omega
  · rw [if_neg here] at inNode
    exact cached.shared t inResult p qr inNode sameArr

theorem cacheInv_remove (inv : CacheInv s live)
    (sub : Subscription) :
    CacheInv (applyOp g (s, live) (.remove sub)).1 (applyOp g (s, live) (.remove sub)).2 := by
  have after := @inv_applyOp g (s, live) inv.inv (.remove sub)
  by_cases mem : sub ∈ live
  · have returned := (remove_live g inv.inv mem).1
    obtain ⟨h', n', removed, rewrites, -⟩ := holds_removeFromNode g inv.inv.holds mem
    have accepted := inv.inv.accepted sub mem
    obtain ⟨l', ran, updated⟩ := removeAt_found g sub (tokens sub.subject) false s.heap
      (some s.root) (tokens_ne_nil _) accepted removed
    have live' : (applyOp g (s, live) (.remove sub)).2 = live.erase sub := by
      simp [applyOp, returned]
    rw [live'] at after ⊢
    refine ⟨after, fun x left => inv.whole x (mem_of_mem_erase left), ?_⟩
    simp only [applyOp, Sublist.remove, ran]
    intro e left
    obtain ⟨inCache, kept⟩ := mem_filter.mp left
    have cached := inv.cached e inCache
    have agree := matchLiteral_eq_tokensMatch accepted (inv.whole sub mem) cached.literal
    have other : tokensMatch (tokens sub.subject) (tokens e.1) = false := by
      rw [← agree]
      simpa using kept
    exact cached.remove mem other updated rewrites
  · obtain ⟨same, returned⟩ := remove_not_live g inv.inv mem
    have unchanged : applyOp g (s, live) (.remove sub) = (s, live) := by
      simp [applyOp, returned, same]
    rw [unchanged]
    exact inv

/-- The entry a lookup adds. -/
theorem cached_lookup {l : Level}
    (holds : Holds (some l) h live) (literal : literalTokens (tokens subject)) :
    Cached (some l) (matchLevel g (some l) (tokens subject) (h, {})).1 live
      (subject, (matchLevel g (some l) (tokens subject) (h, {})).2) := by
  obtain ⟨gs, visiting, grouped, members, plain⟩ := lookup_spec g holds subject
  refine ⟨literal, plain, ⟨gs, visiting.reads, grouped, members⟩, visiting.separate.valid, ?_⟩
  intro t inResult p qr inNode same
  rcases visiting.source t inResult with new | ⟨s, seen, arr, off, len, -⟩
  · have := ((holds.heapOk.separate p).valid qr inNode).1
    omega
  · obtain ⟨q, matched, inNode'⟩ := mem_visited.mp seen
    obtain rfl := holds.heapOk.eq_of_arr inNode' inNode (arr.symm.trans same)
    obtain rfl := holds.heapOk.apart p q _ inNode _ inNode' rfl
    exact ⟨off, len, matched⟩

theorem cacheInv_match {pick : Nat}
    (inv : CacheInv s live) (literal : literalTokens (tokens subject))
    (apart : AppendsApart s (.matchSubject subject pick)) :
    CacheInv (s.matchSubject g subject pick).1 live := by
  have after := matchSubject_inv g inv.inv subject pick
  cases hit : s.cache.lookup subject with
  | some r =>
    have unchanged : (s.matchSubject g subject pick).1 = s := by
      simp [Sublist.matchSubject, hit]
    rw [unchanged]
    exact inv
  | none =>
    obtain ⟨gs, visiting, -⟩ := lookup_spec g inv.inv.holds subject
    have old : ∀ e ∈ s.cache, Cached (some s.root) (s.lookup g subject).1 live e := by
      intro e mem
      have cached := inv.cached e mem
      have frame : ∀ t ∈ e.2.qsubs, (s.lookup g subject).1.Valid t ∧
          (s.lookup g subject).1.read t = s.heap.read t := by
        intro t inResult
        refine visiting.frame t (cached.valid t inResult) fun qr qr' order shares same => ?_
        obtain ⟨p, -, inNode⟩ := mem_visited.mp (order.subset (mem_cons_self ..))
        have start := (cached.shared t inResult p qr inNode same.symm).1
        have short : ¬qr.len < t.len := fun longer =>
          pairwise_pair.mp ((apart hit).sublist order) shares
            ⟨e, mem, t, inResult, same.symm, longer⟩
        omega
      exact ⟨cached.literal, cached.plain,
        reads_of_frame (fun t inResult => (frame t inResult).2) cached.queued,
        fun t inResult => (frame t inResult).1, cached.shared⟩
    have added : ∀ e ∈ assocSet s.cache subject (s.lookup g subject).2,
        Cached (some s.root) (s.lookup g subject).1 live e := by
      intro e mem
      rcases mem_assocSet mem with rfl | ⟨inCache, -⟩
      · exact cached_lookup g inv.inv.holds literal
      · exact old e inCache
    refine ⟨after, inv.whole, ?_⟩
    simp only [Sublist.matchSubject, hit]
    intro e mem
    split at mem
    · split at mem
      · exact added e (mem_assocErase mem).1
      · exact added e mem
    · exact added e mem

theorem cacheInv_applyOp {st : Sublist × List Subscription} {op : SublistOp}
    (inv : CacheInv st.1 st.2) (subjects : SubjectsOk op) (apart : AppendsApart st.1 op) :
    CacheInv (applyOp g st op).1 (applyOp g st op).2 := by
  cases op with
  | insert sub => exact cacheInv_insert g inv subjects apart
  | remove sub => exact cacheInv_remove g inv sub
  | matchSubject subject pick => exact cacheInv_match g inv subjects apart

end Calls

/-- What `Match` returns agrees with a lookup in the trie of the moment: the same plain
subscriptions and the same queue groups, without regard to order. -/
def Transparent (g : Grow) (s : Sublist) (subject : Bytes) (pick : Nat) : Prop :=
  (s.matchSubject g subject pick).2.psubs.Perm (s.lookup g subject).2.psubs ∧
    groupSet ((s.matchSubject g subject pick).2.qsubs.map
        (s.matchSubject g subject pick).1.heap.read) =
      groupSet ((s.lookup g subject).2.qsubs.map (s.lookup g subject).1.read)

theorem groupSet_reads {qs qs' : List Slice} {gs gs' : List (List Subscription)}
    (reads : Reads h qs gs) (reads' : Reads h' qs' gs') (same : groupSet gs = groupSet gs') :
    groupSet (qs.map h.read) = groupSet (qs'.map h'.read) := by
  have cells : ∀ gs : List (List Subscription),
      groupSet (gs.map fun group => group.map some) = (groupSet gs).map (Multiset.map some) := by
    intro gs
    simp [groupSet, Function.comp_def]
  rw [reads, reads', cells, cells, same]

section Runs

variable (g : Grow)

theorem cacheInv_newSublist : CacheInv newSublist [] :=
  ⟨inv_newSublist, by simp, by simp [newSublist]⟩

theorem cacheInv_run {ops : List SublistOp} {st : Sublist × List Subscription}
    (inv : CacheInv st.1 st.2) (subjects : ∀ op ∈ ops, SubjectsOk op)
    (apart : RunsApart g st ops) :
    CacheInv (ops.foldl (applyOp g) st).1 (ops.foldl (applyOp g) st).2 := by
  induction ops generalizing st with
  | nil => exact inv
  | cons op ops ih =>
    have step := cacheInv_applyOp g inv (subjects op (by simp)) apart.1
    exact ih step (fun op' mem => subjects op' (by simp [mem])) apart.2

theorem transparent_of_cacheInv (inv : CacheInv s live)
    (subject : Bytes) (pick : Nat) : Transparent g s subject pick := by
  cases hit : s.cache.lookup subject with
  | none => simp [Transparent, Sublist.matchSubject, hit]
  | some r =>
    have cached := inv.cached (subject, r) (mem_of_lookup hit)
    obtain ⟨gs, visiting, grouped, members, plain⟩ := lookup_spec g inv.inv.holds subject
    obtain ⟨gs', reads, grouped', members'⟩ := cached.queued
    have unchanged : s.matchSubject g subject pick = (s, r) := by
      simp [Sublist.matchSubject, hit]
    rw [Transparent, unchanged]
    refine ⟨cached.plain.trans plain.symm, ?_⟩
    refine groupSet_reads reads visiting.reads ?_
    exact grouped_unique grouped' grouped (members'.trans members.symm)

/-- In every run whose calls append apart, every `Match` is transparent. -/
theorem match_transparent (ops : List SublistOp) (subjects : ∀ op ∈ ops, SubjectsOk op)
    (apart : RunsApart g (.newSublist, []) ops) (subject : Bytes) (pick : Nat) :
    Transparent g (runOps g ops).1 subject pick :=
  transparent_of_cacheInv g (cacheInv_run g cacheInv_newSublist subjects apart) subject pick

end Runs

section Overwritten

/-- A member of the queue `q`. -/
private def member (ptr : Nat) (subject : String) : Subscription :=
  { ptr := ptr, subject := bytesOf subject, queue := some (bytesOf "q") }

/-- Two nodes with one member each: the lookup has to move the group, so the later insertion
appends apart and reaches the cached result as well. -/
theorem match_transparent_moved :
    Transparent Grow.double (runOps Grow.double
      [.insert (member 1 "foo.bar"), .insert (member 2 "foo.*"),
        .matchSubject (bytesOf "foo.bar") 0, .insert (member 3 "foo.bar")]).1
      (bytesOf "foo.bar") 0 :=
  match_transparent Grow.double _ (by decide) (by decide +kernel) _ _

/-- Three members leave room for a fourth in the node's array. The lookup puts the member of
`foo.*` there, and the next insertion writes over it. -/
theorem match_not_transparent :
    let ops : List SublistOp := [.insert (member 1 "foo.bar"), .insert (member 2 "foo.bar"),
      .insert (member 3 "foo.bar"), .insert (member 4 "foo.*"),
      .matchSubject (bytesOf "foo.bar") 0, .insert (member 5 "foo.bar")]
    (∀ op ∈ ops, SubjectsOk op) ∧
      ¬Transparent Grow.double (runOps Grow.double ops).1 (bytesOf "foo.bar") 0 := by
  intro ops
  refine ⟨by decide, fun transparent => ?_⟩
  have cached : ((runOps Grow.double ops).1.matchSubject Grow.double
      (bytesOf "foo.bar") 0).2.qsubs.map ((runOps Grow.double ops).1.matchSubject Grow.double
        (bytesOf "foo.bar") 0).1.heap.read =
      [[some (member 1 "foo.bar"), some (member 2 "foo.bar"), some (member 3 "foo.bar"),
        some (member 5 "foo.bar"), some (member 5 "foo.bar")]] := by decide +kernel
  have fresh : ((runOps Grow.double ops).1.lookup Grow.double (bytesOf "foo.bar")).2.qsubs.map
      ((runOps Grow.double ops).1.lookup Grow.double (bytesOf "foo.bar")).1.read =
      [[some (member 1 "foo.bar"), some (member 2 "foo.bar"), some (member 3 "foo.bar"),
        some (member 5 "foo.bar"), some (member 4 "foo.*")]] := by decide +kernel
  have groups := transparent.2
  rw [cached, fresh] at groups
  revert groups
  decide

end Overwritten

end Hnatsd.Server
