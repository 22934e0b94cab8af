import Hnatsd.Server.Proofs.SublistCache

/-!
# The groups of a match result

No group of a result that `Match` returns is empty, whether the result is new or comes from the
cache. Nothing is said of what the cells hold: a removal writes nil into an array that a cached
result may still show.
-/

namespace Hnatsd.Server
open Misc List Sublist

variable {h h' : SubHeap} {r : SublistResult} {sub : Subscription}

/-- The groups of a result are slices of the heap with at least one cell. -/
def SublistResult.Filled (h : SubHeap) (r : SublistResult) : Prop :=
  ∀ t ∈ r.qsubs, h.Valid t ∧ 0 < t.len

/-- Slices of the heap stay slices of the heap. -/
def KeepsSlices (h h' : SubHeap) : Prop := ∀ t, h.Valid t → h'.Valid t

theorem SublistResult.Filled.keep (filled : r.Filled h)
    (keeps : KeepsSlices h h') : r.Filled h' :=
  fun t mem => ⟨keeps t (filled t mem).1, (filled t mem).2⟩

/-- A slice is as good as the empty slice at the start of its array that has its capacity, which no
append is in the way of. -/
theorem keepsSlices_of_starts
    (starts : ∀ t : Slice, t.off = 0 → t.len = 0 → h.Valid t → h'.Valid t) : KeepsSlices h h' := by
  intro t valid
  have start := starts ⟨t.arr, 0, 0, t.off + t.cap, Nat.zero_le _⟩ rfl rfl
    ⟨valid.1, by rw [Nat.zero_add]; exact valid.2⟩
  refine ⟨start.1, ?_⟩
  have bound := start.2
  rwa [Nat.zero_add] at bound

theorem filled_of_reads {gs : List (List Subscription)}
    (valid : ∀ t ∈ r.qsubs, h.Valid t) (reads : Reads h r.qsubs gs)
    (nonempty : ∀ group ∈ gs, group ≠ []) : r.Filled h := by
  intro t mem
  refine ⟨valid t mem, ?_⟩
  have shown : h.read t ∈ gs.map fun group => group.map some := by
    rw [← reads]
    exact mem_map_of_mem mem
  obtain ⟨group, inGroups, same⟩ := mem_map.mp shown
  rw [← Heap.read_length (valid t mem), ← same, length_map]
  exact length_pos_of_ne_nil (nonempty group inGroups)

section Calls

variable (g : Grow)

theorem lookup_filled {s : Sublist} {live : List Subscription} (inv : Inv s live)
    (subject : Bytes) : (s.lookup g subject).2.Filled (s.lookup g subject).1 ∧
      KeepsSlices s.heap (s.lookup g subject).1 := by
  obtain ⟨gs, visiting, grouped, -⟩ := lookup_spec g inv.holds subject
  refine ⟨filled_of_reads visiting.separate.valid visiting.reads grouped.nonempty, ?_⟩
  refine keepsSlices_of_starts fun t off len valid => ?_
  exact (visiting.frame t valid fun _ _ _ _ _ => by omega).1

theorem addToNode_keepsSlices {n : Node} (sub : Subscription)
    (separate : Separate h n.qsubs) : KeepsSlices h (addToNode g h sub n).1 :=
  keepsSlices_of_starts fun _ off len valid =>
    (addToNode_frame g separate valid fun _ _ _ _ _ => by omega).1

theorem addToResult_filled (sub : Subscription)
    (filled : r.Filled h) :
    (addToResult g h sub r).2.Filled (addToResult g h sub r).1 := by
  obtain ⟨-, separate, -, -, -, cells⟩ := copyResult_spec g h r
  have copied : (copyResult g h r).2.Filled (copyResult g h r).1 := by
    intro t mem
    refine ⟨separate.valid t mem, ?_⟩
    have shown : (copyResult g h r).1.read t ∈ r.qsubs.map h.read := by
      rw [← cells fun t mem => (filled t mem).1]
      exact mem_map_of_mem mem
    obtain ⟨t₀, mem₀, same⟩ := mem_map.mp shown
    rw [← Heap.read_length (separate.valid t mem), ← same, Heap.read_length (filled t₀ mem₀).1]
    exact (filled t₀ mem₀).2
  rw [addToResult_eq]
  split_ifs
  · exact copied
  · have after := (addToGroups_rewrites g sub separate).separate.valid
    rcases addToGroups_cases g (copyResult g h r).1 sub (copyResult g h r).2.qsubs
      with ⟨i, qr, -, at_i, run⟩ | ⟨-, run⟩
    · intro t mem
      refine ⟨after t mem, ?_⟩
      rw [run] at mem
      rcases mem_or_eq_of_mem_set mem with old | rfl
      · exact (copied t old).2
      · rw [Heap.append_len (copied qr (mem_of_getElem? at_i)).1]
        exact Nat.succ_pos _
    · intro t mem
      refine ⟨after t mem, ?_⟩
      rw [run] at mem
      rcases mem_append.mp mem with old | new
      · exact (copied t old).2
      · rw [mem_singleton.mp new]
        exact Nat.one_pos

theorem addToCache_filled {subject : Bytes}
    {cache : List (Bytes × SublistResult)} (filled : ∀ e ∈ cache, e.2.Filled h) :
    ∀ e ∈ (addToCache g subject sub h cache).2,
      e.2.Filled (addToCache g subject sub h cache).1 := by
  induction cache generalizing h with
  | nil => exact fun _ mem => absurd mem not_mem_nil
  | cons entry cache ih =>
    obtain ⟨k, r⟩ := entry
    have keeps : ∀ h', KeepsSlices h' (addToCache g subject sub h' cache).1 :=
      fun h' t valid => (addToCache_extends g _ _ _ _ t valid).1
    have first := filled (k, r) mem_cons_self
    have rest := fun e mem => filled e (mem_cons_of_mem _ mem)
    cases found : matchLiteral k subject with
    | true =>
      simp only [addToCache, found, if_true]
      have ext := addToResult_extends g h sub r
      intro e mem
      rcases mem_cons.mp mem with rfl | mem
      · exact (addToResult_filled g sub first).keep (keeps _)
      · exact ih (fun e mem => (rest e mem).keep fun t valid => (ext t valid).1) e mem
    | false =>
      simp only [addToCache, found]
      intro e mem
      rcases mem_cons.mp mem with rfl | mem
      · exact first.keep (keeps _)
      · exact ih rest e mem

theorem removeSubFromSlice_keepsSlices {sl sl' : Slice}
    (valid : h.Valid sl) (removed : removeSubFromSlice g h sub sl = some (h', sl')) :
    KeepsSlices h h' := by
  unfold removeSubFromSlice at removed
  split at removed
  · cases removed
  next i found =>
    have bound := (findIdx?_eq_some_iff_getElem.mp found).1
    rw [Heap.read_length valid] at bound
    have fits := sl.len_le_cap
    have room := valid.2
    have moved : KeepsSlices h ((h.write sl.arr (sl.off + i) [(h.read sl).getLastD none]).write
        sl.arr (sl.off + (sl.len - 1)) [none]) := by
      intro t other
      have length := @Heap.array_length_write _ h sl.arr (sl.off + i) [(h.read sl).getLastD none]
        (by simp; omega) sl.arr
      refine Heap.valid_write ?_ (Heap.valid_write ?_ other)
      · rw [length]
        simp
        omega
      · simp
        omega
    have shorter : sl.len - 1 ≤ sl.cap := by omega
    have short : Heap.Valid _ { sl with len := sl.len - 1, len_le_cap := shorter } := moved sl valid
    intro t other
    have kept := ((shrinkAsNeeded_spec g short).2.2.2.1 t (moved t other)).1
    dsimp only at removed
    rwa [Option.some.inj removed] at kept

theorem removeFromNode_keepsSlices {n n' : Node}
    (separate : Separate h n.qsubs) (removed : removeFromNode g h sub n = some (h', n')) :
    KeepsSlices h h' := by
  unfold removeFromNode at removed
  split at removed
  · obtain ⟨psubs, -, eq⟩ := Option.map_eq_some_iff.mp removed
    obtain ⟨rfl, -⟩ := Prod.mk.inj eq
    exact fun _ valid => valid
  · split at removed
    · cases removed
    · split at removed
      · cases removed
      next qr at_i =>
        obtain ⟨⟨h₁, qr₁⟩, found, eq⟩ := Option.map_eq_some_iff.mp removed
        have keeps := removeSubFromSlice_keepsSlices g
          (separate.valid qr (mem_of_getElem? at_i)) found
        dsimp only at eq
        split_ifs at eq <;> obtain ⟨rfl, -⟩ := Prod.mk.inj eq <;> exact keeps

/-- What holds of the cache after every call. -/
structure FilledInv (s : Sublist) (live : List Subscription) : Prop where
  inv : Inv s live
  filled : ∀ e ∈ s.cache, e.2.Filled s.heap

theorem matchSubject_filled {s : Sublist} {live : List Subscription} (inv : FilledInv s live)
    (subject : Bytes) (pick : Nat) :
    (s.matchSubject g subject pick).2.Filled (s.matchSubject g subject pick).1.heap ∧
      FilledInv (s.matchSubject g subject pick).1 live := by
  have after := matchSubject_inv g inv.inv subject pick
  unfold Sublist.matchSubject at after ⊢
  cases hit : s.cache.lookup subject with
  | some r =>
    exact ⟨inv.filled (subject, r) (mem_of_lookup hit), inv⟩
  | none =>
    obtain ⟨new, keeps⟩ := lookup_filled g inv.inv subject
    rw [hit] at after
    have added : ∀ e ∈ assocSet s.cache subject (s.lookup g subject).2,
        e.2.Filled (s.lookup g subject).1 := by
      intro e mem
      rcases mem_assocSet mem with rfl | ⟨inCache, -⟩
      · exact new
      · exact (inv.filled e inCache).keep keeps
    refine ⟨new, after, ?_⟩
    intro e mem
    dsimp only at mem
    split at mem
    · split at mem
      · exact added e (mem_assocErase mem).1
      · exact added e mem
    · exact added e mem

theorem filledInv_applyOp {st : Sublist × List Subscription} (inv : FilledInv st.1 st.2)
    (op : SublistOp) : FilledInv (applyOp g st op).1 (applyOp g st op).2 := by
  refine ⟨inv_applyOp g inv.inv op, ?_⟩
  cases op with
  | insert sub =>
    cases ok : insertable (tokens sub.subject) false with
    | true =>
      obtain ⟨l', ran, -⟩ := insertAt_accepted g sub (tokens sub.subject) false st.1.heap st.1.root
        (tokens_ne_nil _) ok
      simp only [applyOp, Sublist.insert, ran]
      refine addToCache_filled g fun e mem => (inv.filled e mem).keep ?_
      exact addToNode_keepsSlices g sub (inv.inv.holds.heapOk.separate _)
    | false =>
      obtain ⟨l', ran, -⟩ := insertAt_refused g sub (tokens sub.subject) false st.1.heap st.1.root ok
      simp only [applyOp, Sublist.insert, ran]
      exact inv.filled
  | remove sub =>
    by_cases mem : sub ∈ st.2
    · obtain ⟨h', n', removed, -⟩ := holds_removeFromNode g inv.inv.holds mem
      obtain ⟨l', ran, -⟩ := removeAt_found g sub (tokens sub.subject) false st.1.heap
        (some st.1.root) (tokens_ne_nil _) (inv.inv.accepted sub mem) removed
      simp only [applyOp, Sublist.remove, ran]
      intro e left
      refine (inv.filled e (mem_filter.mp left).1).keep (removeFromNode_keepsSlices g ?_ removed)
      exact inv.inv.holds.heapOk.separate (pathOf (tokens sub.subject))
    · obtain ⟨same, -⟩ := remove_not_live g inv.inv mem
      simp only [applyOp, same]
      exact inv.filled
  | matchSubject subject pick => exact (matchSubject_filled g inv subject pick).2.filled

theorem filledInv_runOps (ops : List SublistOp) :
    FilledInv (runOps g ops).1 (runOps g ops).2 := by
  induction ops using reverseRecOn with
  | nil => exact ⟨inv_newSublist, fun _ mem => absurd mem not_mem_nil⟩
  | append_singleton ops op ih =>
    have step : runOps g (ops ++ [op]) = applyOp g (runOps g ops) op := by
      rw [runOps, foldl_append]
      rfl
    rw [step]
    exact filledInv_applyOp g ih op

end Calls

end Hnatsd.Server
