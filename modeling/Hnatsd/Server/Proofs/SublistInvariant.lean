import Hnatsd.Server.Proofs.SublistLookup

/-!
# The trie holds the live subscriptions

`Holds l h live`: at every path the trie `l` over the heap `h` has exactly the members of `live`
whose subject leads there, plain ones listed and queue subscriptions grouped by name. Insertions
and removals keep it with `live` updated, refused ones and lookups keep it as it is, and from it
follows what a lookup returns.
-/

namespace Hnatsd.Server
open Misc List Sublist

variable {live : List Subscription} {l : Option Level} {h h' : SubHeap} {sub : Subscription}

/-- Every group of every node has an array of its own. -/
structure HeapOk (l : Option Level) (h : SubHeap) : Prop where
  separate : ∀ p, Separate h (qsubsAt l p)
  apart : ∀ p q, ∀ s ∈ qsubsAt l p, ∀ t ∈ qsubsAt l q, s.arr = t.arr → p = q

/-- Everything valid in `h` is valid in `h'` and reads the same. -/
def Extends (h h' : SubHeap) : Prop := ∀ t, h.Valid t → h'.Valid t ∧ h'.read t = h.read t

theorem extends_refl (h : SubHeap) : Extends h h := fun _ valid => ⟨valid, rfl⟩

theorem Extends.trans {h'' : SubHeap} (first : Extends h h') (second : Extends h' h'') :
    Extends h h'' := by
  intro t valid
  obtain ⟨valid', read'⟩ := first t valid
  obtain ⟨valid'', read''⟩ := second t valid'
  exact ⟨valid'', read''.trans read'⟩

/-- A heap that agrees on the slices of the trie. -/
def KeepsNodes (l : Option Level) (h h' : SubHeap) : Prop :=
  ∀ p, ∀ s ∈ qsubsAt l p, h'.Valid s ∧ h'.read s = h.read s

theorem HeapOk.keepsNodes (ok : HeapOk l h)
    (ext : Extends h h') : KeepsNodes l h h' :=
  fun p s mem => ext s ((ok.separate p).valid s mem)

theorem HeapOk.of_keepsNodes (ok : HeapOk l h)
    (keeps : KeepsNodes l h h') : HeapOk l h' :=
  ⟨fun p => ⟨fun s mem => (keeps p s mem).1, (ok.separate p).distinct⟩, ok.apart⟩

/-- Rewriting the groups at one path leaves those at all others alone. -/
theorem HeapOk.update {l l' : Option Level} {h h' : SubHeap} {path : List Key} {n : Node}
    (ok : HeapOk l h) (updated : UpdatedAt l l' path n)
    (rewrites : Rewrites h h' (qsubsAt l path) n.qsubs) :
    HeapOk l' h' ∧ ∀ p, p ≠ path → ∀ s ∈ qsubsAt l p, h'.Valid s ∧ h'.read s = h.read s := by
  have elsewhere : ∀ p, p ≠ path → ∀ s ∈ qsubsAt l p, h'.Valid s ∧ h'.read s = h.read s := by
    intro p other s mem
    refine rewrites.frame s ((ok.separate p).valid s mem) fun t memT same => ?_
    exact other (ok.apart p path s mem t memT same)
  have slices : ∀ p, qsubsAt l' p = if p = path then n.qsubs else qsubsAt l p :=
    fun p => (updated p).2
  -- a slice now at `path` shares no array with one that stays elsewhere
  have cross : ∀ p, p ≠ path → ∀ s ∈ n.qsubs, ∀ t ∈ qsubsAt l p, s.arr ≠ t.arr := by
    intro p other s mem t memT same
    rcases rewrites.arrs s mem with ⟨s₀, mem₀, arr⟩ | fresh
    · exact other (ok.apart p path t memT s₀ mem₀ (by rw [← same, arr]))
    · have := ((ok.separate p).valid t memT).1
      omega
  refine ⟨⟨?_, ?_⟩, elsewhere⟩
  · intro p
    rw [slices p]
    by_cases here : p = path
    · rw [if_pos here]
      exact rewrites.separate
    · rw [if_neg here]
      exact ⟨fun s mem => (elsewhere p here s mem).1, (ok.separate p).distinct⟩
  · intro p q s mem t memT same
    rw [slices p] at mem
    rw [slices q] at memT
    by_cases here : p = path
    · by_cases there : q = path
      · rw [here, there]
      · rw [if_pos here] at mem
        rw [if_neg there] at memT
        exact absurd same (cross q there s mem t memT)
    · rw [if_neg here] at mem
      by_cases there : q = path
      · rw [if_pos there] at memT
        exact absurd same.symm (cross p here t memT s mem)
      · rw [if_neg there] at memT
        exact ok.apart p q s mem t memT same

/-- The plain subscriptions of a list whose subject leads to a path. -/
def plainAt (live : List Subscription) (p : List Key) : List Subscription :=
  live.filter fun x => x.queue = none && pathOf (tokens x.subject) = p

def queuedAt (live : List Subscription) (p : List Key) : List Subscription :=
  live.filter fun x => x.queue ≠ none && pathOf (tokens x.subject) = p

structure Holds (l : Option Level) (h : SubHeap) (live : List Subscription) : Prop where
  heapOk : HeapOk l h
  plain : ∀ p, (psubsAt l p).Perm (plainAt live p)
  queued : ∀ p, ∃ gs, Reads h (qsubsAt l p) gs ∧ Grouped queueKey gs ∧
    gs.flatten.Perm (queuedAt live p)

theorem reads_congr {qs : List Slice} {gs : List (List Subscription)}
    (reads : Reads h qs gs) (same : ∀ s ∈ qs, h'.read s = h.read s) : Reads h' qs gs := by
  rw [Reads, ← reads]
  exact map_congr_left same

theorem Holds.of_keepsNodes
    (holds : Holds l h live) (keeps : KeepsNodes l h h') : Holds l h' live := by
  refine ⟨holds.heapOk.of_keepsNodes keeps, holds.plain, fun p => ?_⟩
  obtain ⟨gs, reads, rest⟩ := holds.queued p
  exact ⟨gs, reads_congr reads fun s mem => (keeps p s mem).2, rest⟩

theorem Holds.of_sameContents {l' : Option Level}
    (holds : Holds l h live) (same : SameContents l' l) : Holds l' h live := by
  refine ⟨⟨fun p => ?_, fun p q s mem t memT => ?_⟩, fun p => ?_, fun p => ?_⟩
  · rw [(same p).2]
    exact holds.heapOk.separate p
  · rw [(same p).2] at mem
    rw [(same q).2] at memT
    exact holds.heapOk.apart p q s mem t memT
  · rw [(same p).1]
    exact holds.plain p
  · rw [(same p).2]
    exact holds.queued p

/-- Changing the contents at one path, when what is live changes there only. -/
theorem Holds.update {l l' : Option Level} {h h' : SubHeap} {live live' : List Subscription}
    {path : List Key} {n : Node} {gs : List (List Subscription)} (holds : Holds l h live)
    (updated : UpdatedAt l l' path n) (rewrites : Rewrites h h' (qsubsAt l path) n.qsubs)
    (plainHere : n.psubs.Perm (plainAt live' path)) (reads : Reads h' n.qsubs gs)
    (grouped : Grouped queueKey gs) (queuedHere : gs.flatten.Perm (queuedAt live' path))
    (elsewhere : ∀ p, p ≠ path → (plainAt live p).Perm (plainAt live' p) ∧
      (queuedAt live p).Perm (queuedAt live' p)) : Holds l' h' live' := by
  obtain ⟨heapOk, keeps⟩ := holds.heapOk.update updated rewrites
  refine ⟨heapOk, fun p => ?_, fun p => ?_⟩
  · rw [(updated p).1]
    by_cases here : p = path
    · rw [if_pos here, here]
      exact plainHere
    · rw [if_neg here]
      exact (holds.plain p).trans (elsewhere p here).1
  · rw [(updated p).2]
    by_cases here : p = path
    · rw [if_pos here, here]
      exact ⟨gs, reads, grouped, queuedHere⟩
    · rw [if_neg here]
      obtain ⟨gs', reads', grouped', members⟩ := holds.queued p
      exact ⟨gs', reads_congr reads' fun s mem => (keeps p here s mem).2, grouped',
        members.trans (elsewhere p here).2⟩

/-- What is live at a path after one more subscription. -/
theorem plainAt_cons (sub : Subscription) (live : List Subscription) (p : List Key) :
    plainAt (sub :: live) p =
      if sub.queue = none ∧ pathOf (tokens sub.subject) = p then sub :: plainAt live p
      else plainAt live p := by
  simp [plainAt, filter_cons]

theorem queuedAt_cons (sub : Subscription) (live : List Subscription) (p : List Key) :
    queuedAt (sub :: live) p =
      if sub.queue ≠ none ∧ pathOf (tokens sub.subject) = p then sub :: queuedAt live p
      else queuedAt live p := by
  simp [queuedAt, filter_cons]

section Update

variable (g : Grow)

theorem holds_addToNode {l' : Option Level} (holds : Holds l h live)
    (updated : UpdatedAt l l' (pathOf (tokens sub.subject))
      (addToNode g h sub (contentAt l (pathOf (tokens sub.subject)))).2) :
    Holds l' (addToNode g h sub (contentAt l (pathOf (tokens sub.subject)))).1 (sub :: live) := by
  obtain ⟨gs, reads, grouped, members⟩ := holds.queued (pathOf (tokens sub.subject))
  have separate := holds.heapOk.separate (pathOf (tokens sub.subject))
  have plain := holds.plain (pathOf (tokens sub.subject))
  have elsewhere : ∀ p, p ≠ pathOf (tokens sub.subject) →
      (plainAt live p).Perm (plainAt (sub :: live) p) ∧
        (queuedAt live p).Perm (queuedAt (sub :: live) p) := by
    intro p other
    rw [plainAt_cons, queuedAt_cons, if_neg fun both => other both.2.symm,
      if_neg fun both => other both.2.symm]
    exact ⟨List.Perm.refl _, List.Perm.refl _⟩
  by_cases noQueue : sub.queue = none
  · have run : addToNode g h sub (contentAt l (pathOf (tokens sub.subject))) =
        (h, .mk none (psubsAt l (pathOf (tokens sub.subject)) ++ [sub])
          (qsubsAt l (pathOf (tokens sub.subject)))) := by
      simp [addToNode, noQueue, contentAt, Node.next, Node.psubs, Node.qsubs]
    rw [run] at updated ⊢
    refine holds.update updated (rewrites_refl separate) ?_ reads grouped ?_ elsewhere
    · rw [plainAt_cons, if_pos ⟨noQueue, rfl⟩]
      exact (perm_append_singleton sub _).trans (plain.cons sub)
    · rw [queuedAt_cons, if_neg fun both => both.1 noQueue]
      exact members
  · rw [addToNode_queued g noQueue] at updated ⊢
    refine holds.update updated (addToGroups_rewrites g sub separate) ?_
      (addToGroups_reads g noQueue separate reads) (grouped_merge grouped (by simp)) ?_ elsewhere
    · rw [plainAt_cons, if_neg fun both => noQueue both.1]
      exact plain
    · rw [queuedAt_cons, if_pos ⟨noQueue, rfl⟩]
      refine (flatten_merge_perm queueKey gs sub []).trans ?_
      exact (perm_append_singleton sub _).trans (members.cons sub)

/-- A live subscription is found and taken out. -/
theorem holds_removeFromNode (holds : Holds l h live) (mem : sub ∈ live) :
    ∃ h' n', removeFromNode g h sub (contentAt l (pathOf (tokens sub.subject))) = some (h', n') ∧
      Rewrites h h' (qsubsAt l (pathOf (tokens sub.subject))) n'.qsubs ∧
      ∀ l', UpdatedAt l l' (pathOf (tokens sub.subject)) n' → Holds l' h' (live.erase sub) := by
  obtain ⟨gs, reads, grouped, members⟩ := holds.queued (pathOf (tokens sub.subject))
  have separate := holds.heapOk.separate (pathOf (tokens sub.subject))
  have plain := holds.plain (pathOf (tokens sub.subject))
  have split : live.Perm (sub :: live.erase sub) := perm_cons_erase mem
  have plainSplit : ∀ p, (plainAt live p).Perm (plainAt (sub :: live.erase sub) p) :=
    fun p => split.filter _
  have queuedSplit : ∀ p, (queuedAt live p).Perm (queuedAt (sub :: live.erase sub) p) :=
    fun p => split.filter _
  have elsewhere : ∀ p, p ≠ pathOf (tokens sub.subject) →
      (plainAt live p).Perm (plainAt (live.erase sub) p) ∧
        (queuedAt live p).Perm (queuedAt (live.erase sub) p) := by
    intro p other
    have plainP := plainSplit p
    have queuedP := queuedSplit p
    rw [plainAt_cons, if_neg fun both => other both.2.symm] at plainP
    rw [queuedAt_cons, if_neg fun both => other both.2.symm] at queuedP
    exact ⟨plainP, queuedP⟩
  have plainHere := plainSplit (pathOf (tokens sub.subject))
  have queuedHere := queuedSplit (pathOf (tokens sub.subject))
  by_cases noQueue : sub.queue = none
  · rw [plainAt_cons, if_pos ⟨noQueue, rfl⟩] at plainHere
    rw [queuedAt_cons, if_neg fun both => both.1 noQueue] at queuedHere
    obtain ⟨psubs', removed⟩ : ∃ psubs', removeSubFromList sub
        (psubsAt l (pathOf (tokens sub.subject))) = some psubs' := by
      refine Option.ne_none_iff_exists'.mp fun missing => ?_
      refine removeSubFromList_eq_none.mp missing ?_
      exact (plain.trans plainHere).mem_iff.mpr (mem_cons_self ..)
    refine ⟨h, .mk none psubs' (qsubsAt l (pathOf (tokens sub.subject))), ?_,
      rewrites_refl separate, ?_⟩
    · simp [removeFromNode, noQueue, contentAt, Node.next, Node.psubs, Node.qsubs, removed]
    · intro l' updated
      refine holds.update updated (rewrites_refl separate) ?_ reads grouped
        (members.trans queuedHere) elsewhere
      exact ((removeSubFromList_perm removed).symm.trans (plain.trans plainHere)).cons_inv
  · rw [plainAt_cons, if_neg fun both => noQueue both.1] at plainHere
    rw [queuedAt_cons, if_pos ⟨noQueue, rfl⟩] at queuedHere
    have inGroups : sub ∈ gs.flatten :=
      (members.trans queuedHere).mem_iff.mpr (mem_cons_self ..)
    obtain ⟨h', qs', gs', removed, rewrites, reads', grouped', left⟩ := removeFromNode_found g
      (n := contentAt l (pathOf (tokens sub.subject))) noQueue separate reads grouped inGroups
    refine ⟨h', _, removed, rewrites, fun l' updated => ?_⟩
    refine holds.update updated rewrites (plain.trans plainHere) reads' grouped' ?_ elsewhere
    exact (left.symm.trans (members.trans queuedHere)).cons_inv

theorem removeFromNode_not_live (holds : Holds l h live) (absent : sub ∉ live) :
    removeFromNode g h sub (contentAt l (pathOf (tokens sub.subject))) = none := by
  by_cases noQueue : sub.queue = none
  · have outside : sub ∉ psubsAt l (pathOf (tokens sub.subject)) := by
      rw [(holds.plain _).mem_iff]
      exact fun mem => absent (mem_of_mem_filter mem)
    simp [removeFromNode, noQueue, contentAt, Node.psubs,
      removeSubFromList_eq_none.mpr outside]
  · obtain ⟨gs, reads, -, members⟩ := holds.queued (pathOf (tokens sub.subject))
    refine removeFromNode_missing g noQueue reads ?_
    rw [members.mem_iff]
    exact fun mem => absent (mem_of_mem_filter mem)

/-- Copying a result into new arrays keeps everything that was there. -/
theorem copyResult_spec (h : SubHeap) (r : SublistResult) :
    Extends h (copyResult g h r).1 ∧
      Separate (copyResult g h r).1 (copyResult g h r).2.qsubs ∧
      (∀ s ∈ (copyResult g h r).2.qsubs, h.arrays.length ≤ s.arr) ∧
      h.arrays.length ≤ (copyResult g h r).1.arrays.length ∧
      (copyResult g h r).2.psubs = r.psubs ∧
      ((∀ s ∈ r.qsubs, h.Valid s) →
        (copyResult g h r).2.qsubs.map (copyResult g h r).1.read =
          r.qsubs.map h.read) := by
  let copyOne : SubHeap × List Slice → Slice → SubHeap × List Slice := fun acc qr =>
    ((acc.1.make none (acc.1.read qr) (g.cap 0 qr.len)).1,
      acc.2 ++ [(acc.1.make none (acc.1.read qr) (g.cap 0 qr.len)).2])
  -- the loop, from any intermediate state
  have loop : ∀ (todo : List Slice) (h₁ : SubHeap) (qs : List Slice) (cells : List (List (Option Subscription))),
      Extends h h₁ → Separate h₁ qs → (∀ s ∈ qs, h.arrays.length ≤ s.arr) →
      h.arrays.length ≤ h₁.arrays.length → qs.map h₁.read = cells →
      Extends h (todo.foldl copyOne (h₁, qs)).1 ∧
        Separate (todo.foldl copyOne (h₁, qs)).1 (todo.foldl copyOne (h₁, qs)).2 ∧
        (∀ s ∈ (todo.foldl copyOne (h₁, qs)).2, h.arrays.length ≤ s.arr) ∧
        h.arrays.length ≤ (todo.foldl copyOne (h₁, qs)).1.arrays.length ∧
        ((∀ s ∈ todo, h.Valid s) →
          (todo.foldl copyOne (h₁, qs)).2.map (todo.foldl copyOne (h₁, qs)).1.read =
            cells ++ todo.map h.read) := by
    intro todo
    induction todo with
    | nil =>
      intro h₁ qs cells ext separate fresh grown shown
      exact ⟨ext, separate, fresh, grown, fun _ => by simpa using shown⟩
    | cons qr todo ih =>
      intro h₁ qs cells ext separate fresh grown shown
      obtain ⟨rewrites, cells'⟩ :=
        rewrites_make none (h₁.read qr) (g.cap 0 qr.len) separate
      have ext' : Extends h (h₁.make none (h₁.read qr) (g.cap 0 qr.len)).1 :=
        ext.trans fun t valid => ⟨Heap.valid_make_old valid, Heap.read_make_old valid⟩
      have fresh' : ∀ s ∈ qs ++ [(h₁.make none (h₁.read qr) (g.cap 0 qr.len)).2],
          h.arrays.length ≤ s.arr := by
        intro s mem
        rcases mem_append.mp mem with mem | mem
        · exact fresh s mem
        · rw [mem_singleton.mp mem]
          exact grown
      obtain ⟨extEnd, sepEnd, freshEnd, grownEnd, cellsEnd⟩ := ih _ _ _ ext' rewrites.separate fresh'
        (Nat.le_trans grown rewrites.grown) cells'
      refine ⟨extEnd, sepEnd, freshEnd, grownEnd, fun valid => ?_⟩
      have readHere : h₁.read qr = h.read qr := (ext qr (valid qr (by simp))).2
      have cellsAfter := cellsEnd fun s mem => valid s (by simp [mem])
      rw [shown, readHere] at cellsAfter
      simpa [copyOne, readHere] using cellsAfter
  obtain ⟨ext, separate, fresh, grown, cells⟩ := loop r.qsubs h [] [] (extends_refl h) (separate_nil h)
    (by simp) (Nat.le_refl _) rfl
  exact ⟨ext, separate, fresh, grown, rfl, cells⟩

/-- `addToResult` on the copy it makes. -/
theorem addToResult_eq (h : SubHeap) (sub : Subscription) (r : SublistResult) :
    addToResult g h sub r =
      if sub.queue = none then
        ((copyResult g h r).1, ⟨(copyResult g h r).2.psubs ++ [sub],
          (copyResult g h r).2.qsubs⟩)
      else
        ((addToGroups g (copyResult g h r).1 sub (copyResult g h r).2.qsubs).1,
          ⟨(copyResult g h r).2.psubs,
            (addToGroups g (copyResult g h r).1 sub
              (copyResult g h r).2.qsubs).2⟩) := by
  by_cases noQueue : sub.queue = none
  · simp [addToResult, noQueue]
  · simp only [addToResult, if_neg noQueue, addToGroups]
    cases found : findQSliceForSub (copyResult g h r).1 sub
        (copyResult g h r).2.qsubs with
    | none => rfl
    | some i =>
      cases at_i : (copyResult g h r).2.qsubs[i]? with
      | none => simp [at_i]
      | some qr => simp [at_i]

theorem addToResult_extends (h : SubHeap) (sub : Subscription) (r : SublistResult) :
    Extends h (addToResult g h sub r).1 := by
  obtain ⟨ext, separate, fresh, -⟩ := copyResult_spec g h r
  rw [addToResult_eq]
  split
  · exact ext
  · -- `sub` is appended to a copy, and copies have arrays of their own
    intro t valid
    obtain ⟨valid₁, read₁⟩ := ext t valid
    obtain ⟨valid₂, read₂⟩ := (addToGroups_rewrites g sub separate).frame t valid₁ fun s mem => by
      have := fresh s mem
      have := valid.1
      omega
    exact ⟨valid₂, read₂.trans read₁⟩

theorem addToCache_extends (subject : Bytes) (sub : Subscription) (h : SubHeap)
    (cache : List (Bytes × SublistResult)) :
    Extends h (addToCache g subject sub h cache).1 := by
  induction cache generalizing h with
  | nil => exact extends_refl h
  | cons entry cache ih =>
    obtain ⟨k, r⟩ := entry
    by_cases found : matchLiteral k subject = true
    · simp only [addToCache, found, if_true]
      exact (addToResult_extends g h sub r).trans (ih _)
    · simp only [addToCache, found]
      exact ih h

end Update

end Hnatsd.Server
