import Hnatsd.Misc.Grouping
import Hnatsd.Misc.SliceFamily
import Hnatsd.Server.Sublist

/-!
# The queue groups of a node

The slices of a node show lists of subscriptions. On those lists the code's slice operations are
`merge` (an insertion, or a group joining a result) and the removal of one member; on the heap
each of them rewrites the slices it is given and leaves all others alone.
-/

namespace Hnatsd.Server
open Misc

variable {gs : List (List Subscription)} {qs : List Slice} {i : Nat} {n : Node} {sl : Slice}
  {h : SubHeap} {sub : Subscription}

/-- The name a queue subscription is grouped by; `bytes.Equal` does not tell nil from empty. -/
def queueKey (sub : Subscription) : Bytes := sub.queue.getD []

/-- The slices `qs` show the groups `gs`. -/
def Reads (h : SubHeap) (qs : List Slice) (gs : List (List Subscription)) : Prop :=
  qs.map h.read = gs.map fun group => group.map some

theorem reads_nil (h : SubHeap) : Reads h [] [] := rfl

theorem Reads.length
    (reads : Reads h qs gs) : qs.length = gs.length := by
  simpa using congrArg List.length reads

theorem Reads.getElem
    {qr : Slice} (reads : Reads h qs gs) (at_i : qs[i]? = some qr) :
    ∃ group, gs[i]? = some group ∧ h.read qr = group.map some := by
  have cells := congrArg (fun cells => cells[i]?) reads
  simp only [List.getElem?_map, at_i, Option.map_some] at cells
  cases found : gs[i]? with
  | none => simp [found] at cells
  | some group => exact ⟨group, rfl, by simpa [found] using cells⟩

/-- The test of `findQSliceForSub` on the cells of a slice. -/
def leadsQueue (sub : Subscription) : List (Option Subscription) → Bool
  | some first :: _ => bytesEqual sub.queue first.queue
  | _ => false

/-- `findQSliceForSub` on the groups the slices show. -/
theorem findQSliceForSub_reads (queued : sub.queue ≠ none) (reads : Reads h qs gs) :
    findQSliceForSub h sub qs =
      gs.findIdx? fun group => group.head?.map queueKey = some (queueKey sub) := by
  have onCells : findQSliceForSub h sub qs = (qs.map h.read).findIdx? (leadsQueue sub) := by
    rw [findQSliceForSub, if_neg queued, List.findIdx?_map]
    rfl
  have onGroup : ∀ group : List Subscription,
      leadsQueue sub (group.map some) = decide (group.head?.map queueKey = some (queueKey sub)) := by
    intro group
    cases group with
    | nil => rfl
    | cons first rest =>
      simp only [leadsQueue, List.map_cons, bytesEqual, List.head?_cons, Option.map_some, queueKey,
        Option.some.injEq]
      exact decide_eq_decide.mpr eq_comm
  rw [onCells, reads, List.findIdx?_map]
  exact congrArg (gs.findIdx? ·) (funext onGroup)

/-- The members with a given group at some index, replaced there. -/
theorem Reads.merge_some {h' : SubHeap} {qs' : List Slice} {qr : Slice} {first : Subscription} {rest : List Subscription}
    (reads : Reads h qs gs) (at_i : qs[i]? = some qr)
    (found : gs.findIdx? (fun group => group.head?.map queueKey = some (queueKey first)) = some i)
    (after : qs'.map h'.read = (qs.map h.read).set i (h.read qr ++ (first :: rest).map some)) :
    Reads h' qs' (merge queueKey gs first rest) := by
  obtain ⟨group, at_group, shown⟩ := reads.getElem at_i
  have read : gs.getD i [] = group := by simp [List.getD, at_group]
  rw [Reads, after, reads, shown, merge]
  simp only [found]
  rw [List.map_set, read, List.map_append]

theorem Reads.merge_none {h' : SubHeap} {qs' : List Slice}
    {first : Subscription} {rest : List Subscription} (reads : Reads h qs gs)
    (found : gs.findIdx? (fun group => group.head?.map queueKey = some (queueKey first)) = none)
    (after : qs'.map h'.read = qs.map h.read ++ [(first :: rest).map some]) :
    Reads h' qs' (merge queueKey gs first rest) := by
  rw [Reads, after, reads, merge]
  simp only [found]
  rw [List.map_append]
  rfl

section Update

variable (g : Grow)

/-- The part `Insert` and `addToCache` share: `sub` joins its group or starts one. -/
def addToGroups (h : SubHeap) (sub : Subscription) (qs : List Slice) : SubHeap × List Slice :=
  match findQSliceForSub h sub qs with
  | some i =>
      match qs[i]? with
      | some qr =>
          let (h, qr) := h.append g none qr [some sub]
          (h, qs.set i qr)
      | none => (h, qs)
  | none =>
      let (h, qr) := h.make none [some sub] 1
      (h, qs ++ [qr])

theorem addToNode_queued (queued : sub.queue ≠ none) :
    addToNode g h sub n =
      ((addToGroups g h sub n.qsubs).1, .mk n.next n.psubs (addToGroups g h sub n.qsubs).2) := by
  simp only [addToNode, if_neg queued, addToGroups]
  cases findQSliceForSub h sub n.qsubs with
  | none => rfl
  | some i =>
    cases found : n.qsubs[i]? with
    | none =>
      obtain ⟨next, psubs, qsubs⟩ := n
      simp_all [Node.qsubs, Node.next, Node.psubs]
    | some qr => simp [found]

/-- `findQSliceForSub` returns an index of its list. -/
theorem findQSliceForSub_lt
    (found : findQSliceForSub h sub qs = some i) : i < qs.length := by
  unfold findQSliceForSub at found
  split at found
  · cases found
  · exact (List.findIdx?_eq_some_iff_getElem.mp found).1

theorem addToGroups_cases (h : SubHeap) (sub : Subscription) (qs : List Slice) :
    (∃ i qr, findQSliceForSub h sub qs = some i ∧ qs[i]? = some qr ∧ addToGroups g h sub qs =
      ((h.append g none qr [some sub]).1, qs.set i (h.append g none qr [some sub]).2)) ∨
    (findQSliceForSub h sub qs = none ∧ addToGroups g h sub qs =
      ((h.make none [some sub] 1).1, qs ++ [(h.make none [some sub] 1).2])) := by
  cases found : findQSliceForSub h sub qs with
  | none => exact Or.inr ⟨rfl, by simp [addToGroups, found]⟩
  | some i =>
    have at_i := List.getElem?_eq_getElem (findQSliceForSub_lt found)
    exact Or.inl ⟨i, _, rfl, at_i, by simp [addToGroups, found, at_i]⟩

theorem addToGroups_rewrites (sub : Subscription)
    (separate : Separate h qs) :
    Rewrites h (addToGroups g h sub qs).1 qs (addToGroups g h sub qs).2 := by
  rcases addToGroups_cases g h sub qs with ⟨i, qr, -, at_i, run⟩ | ⟨-, run⟩
  · rw [run]
    exact (rewrites_append g none [some sub] separate at_i).1
  · rw [run]
    exact (rewrites_make none [some sub] 1 separate).1

/-- On the groups shown, an insertion is `merge`. -/
theorem addToGroups_reads (queued : sub.queue ≠ none) (separate : Separate h qs)
    (reads : Reads h qs gs) :
    Reads (addToGroups g h sub qs).1 (addToGroups g h sub qs).2 (merge queueKey gs sub []) := by
  have index := findQSliceForSub_reads queued reads
  rcases addToGroups_cases g h sub qs with ⟨i, qr, found, at_i, run⟩ | ⟨found, run⟩
  · rw [run]
    exact reads.merge_some at_i (index.symm.trans found)
      (rewrites_append g none [some sub] separate at_i).2
  · rw [run]
    exact reads.merge_none (index.symm.trans found) (rewrites_make none [some sub] 1 separate).2

/-- A slice held elsewhere may even share an array with the groups, as long as it shows nothing
behind the end of the slice `sub` is appended to. -/
theorem addToGroups_frame {t : Slice}
    (separate : Separate h qs) (valid : h.Valid t)
    (behind : ∀ i s, findQSliceForSub h sub qs = some i → qs[i]? = some s → s.arr = t.arr →
      t.off + t.len ≤ s.off + s.len) :
    (addToGroups g h sub qs).1.Valid t ∧ (addToGroups g h sub qs).1.read t = h.read t := by
  rcases addToGroups_cases g h sub qs with ⟨i, qr, found, at_i, run⟩ | ⟨-, run⟩
  · have valid' := separate.valid qr (List.mem_of_getElem? at_i)
    rw [run]
    exact ⟨Heap.valid_append valid' valid,
      Heap.read_append_frame valid' valid fun same => behind i qr found at_i same.symm⟩
  · rw [run]
    exact ⟨Heap.valid_make_old valid, Heap.read_make_old valid⟩

/-- Adding to a node rewrites its groups, if it touches them at all. -/
theorem addToNode_rewrites (sub : Subscription)
    (separate : Separate h n.qsubs) :
    Rewrites h (addToNode g h sub n).1 n.qsubs (addToNode g h sub n).2.qsubs := by
  by_cases noQueue : sub.queue = none
  · have run : addToNode g h sub n = (h, .mk n.next (n.psubs ++ [sub]) n.qsubs) := by
      simp [addToNode, noQueue]
    rw [run]
    exact rewrites_refl separate
  · rw [addToNode_queued g noQueue]
    exact addToGroups_rewrites g sub separate

theorem addToNode_frame {t : Slice}
    (separate : Separate h n.qsubs) (valid : h.Valid t)
    (behind : ∀ i s, findQSliceForSub h sub n.qsubs = some i → n.qsubs[i]? = some s →
      s.arr = t.arr → t.off + t.len ≤ s.off + s.len) :
    (addToNode g h sub n).1.Valid t ∧ (addToNode g h sub n).1.read t = h.read t := by
  by_cases noQueue : sub.queue = none
  · have run : addToNode g h sub n = (h, .mk n.next (n.psubs ++ [sub]) n.qsubs) := by
      simp [addToNode, noQueue]
    rw [run]
    exact ⟨valid, rfl⟩
  · rw [addToNode_queued g noQueue]
    exact addToGroups_frame g separate valid behind

/-- What `removeSubFromList` leaves, up to order. -/
theorem removeSubFromList_perm {sl sl' : List Subscription}
    (removed : removeSubFromList sub sl = some sl') : sl.Perm (sub :: sl') := by
  simp only [removeSubFromList, Option.map_eq_some_iff] at removed
  obtain ⟨i, found, rfl⟩ := removed
  obtain ⟨bound, holds, -⟩ := List.findIdx?_eq_some_iff_getElem.mp found
  have here : sl[i] = sub := by simpa using holds
  exact swapRemove_perm (by rw [List.getElem?_eq_getElem bound, here])

theorem removeSubFromList_eq_none {sl : List Subscription} :
    removeSubFromList sub sl = none ↔ sub ∉ sl := by
  simp only [removeSubFromList, Option.map_eq_none_iff, List.findIdx?_eq_none_iff,
    decide_eq_false_iff_not]
  constructor
  · intro absent mem
    exact absent sub mem rfl
  · intro absent x mem same
    exact absent (same ▸ mem)

/-- Shrinking moves the contents or does nothing. -/
theorem shrinkAsNeeded_spec (valid : h.Valid sl) :
    (shrinkAsNeeded g h sl).1.read (shrinkAsNeeded g h sl).2 = h.read sl ∧
      (shrinkAsNeeded g h sl).1.Valid (shrinkAsNeeded g h sl).2 ∧
      ((shrinkAsNeeded g h sl).2.arr = sl.arr ∨
        h.arrays.length ≤ (shrinkAsNeeded g h sl).2.arr) ∧
      (∀ t, h.Valid t → (shrinkAsNeeded g h sl).1.Valid t ∧
        (shrinkAsNeeded g h sl).1.read t = h.read t) ∧
      h.arrays.length ≤ (shrinkAsNeeded g h sl).1.arrays.length := by
  have stay : h.read sl = h.read sl ∧ h.Valid sl ∧ (sl.arr = sl.arr ∨ h.arrays.length ≤ sl.arr) ∧
      (∀ t, h.Valid t → h.Valid t ∧ h.read t = h.read t) ∧ h.arrays.length ≤ h.arrays.length :=
    ⟨rfl, valid, Or.inl rfl, fun _ other => ⟨other, rfl⟩, Nat.le_refl _⟩
  unfold shrinkAsNeeded
  split
  · exact stay
  · split
    · refine ⟨Heap.read_make_new .., Heap.valid_make_new .., Or.inr (Nat.le_refl _), ?_, ?_⟩
      · exact fun t other => ⟨Heap.valid_make_old other, Heap.read_make_old other⟩
      · simp [Heap.make]
    · exact stay

/-- Removal from a slice is removal from the list it shows, and touches its array only. -/
theorem removeSubFromSlice_found
    {group group' : List Subscription} (valid : h.Valid sl) (shown : h.read sl = group.map some)
    (removed : removeSubFromList sub group = some group') :
    ∃ h' sl', removeSubFromSlice g h sub sl = some (h', sl') ∧ h'.read sl' = group'.map some ∧
      h'.Valid sl' ∧ (sl'.arr = sl.arr ∨ h.arrays.length ≤ sl'.arr) ∧
      (∀ t, h.Valid t → t.arr ≠ sl.arr → h'.Valid t ∧ h'.read t = h.read t) ∧
      h.arrays.length ≤ h'.arrays.length := by
  simp only [removeSubFromList, Option.map_eq_some_iff] at removed
  obtain ⟨i, found, rfl⟩ := removed
  have bound : i < group.length := (List.findIdx?_eq_some_iff_getElem.mp found).1
  have index : (h.read sl).findIdx? (· = some sub) = some i := by
    rw [shown, List.findIdx?_map, ← found]
    congr 1
    funext x
    simp
  have length : sl.len = group.length := by
    rw [← Heap.read_length valid, shown, List.length_map]
  have fits := sl.len_le_cap
  have room := valid.2
  let h₁ := h.write sl.arr (sl.off + i) [(h.read sl).getLastD none]
  let h₂ := h₁.write sl.arr (sl.off + (sl.len - 1)) [none]
  have shorter : sl.len - 1 ≤ sl.cap := by omega
  let short : Slice := { sl with len := sl.len - 1, len_le_cap := shorter }
  have valid₁ : h₁.Valid sl := Heap.valid_write (by simp; omega) valid
  have room₁ := valid₁.2
  have valid₂ : h₂.Valid sl := Heap.valid_write (by simp; omega) valid₁
  have validShort : h₂.Valid short := ⟨valid₂.1, valid₂.2⟩
  have cells : h₂.read short = ((group.set i (group.getLastD sub)).dropLast).map some := by
    have last : (group.map some).getLastD none = some (group.getLastD sub) := by
      obtain ⟨first, rest, rfl⟩ := List.exists_cons_of_length_pos (Nat.zero_lt_of_lt bound)
      simp [List.getLastD_eq_getLast?, List.getLast?_map, List.getLast?_cons]
    rw [Heap.read_shorter h₂ sl (sl.len - 1) shorter (by omega),
      Heap.read_write_cell valid₁ (by omega), Heap.read_write_cell valid (by omega), shown, last,
      List.take_set_of_le (Nat.le_refl _), List.dropLast_eq_take, List.map_take, List.map_set,
      List.length_set, length]
  have frame : ∀ t, h.Valid t → t.arr ≠ sl.arr → h₂.Valid t ∧ h₂.read t = h.read t := by
    intro t other apart
    have other₁ : h₁.Valid t := Heap.valid_write (by simp; omega) other
    refine ⟨Heap.valid_write (by simp; omega) other₁, ?_⟩
    rw [Heap.read_write_frame (by omega) fun same => absurd same apart,
      Heap.read_write_frame (by omega) fun same => absurd same apart]
  obtain ⟨read, validEnd, arr, keep, grown⟩ := shrinkAsNeeded_spec g validShort
  refine ⟨_, _, ?_, read.trans cells, validEnd, ?_, ?_, ?_⟩
  · simp only [removeSubFromSlice, index]
    rfl
  · simpa [h₂, h₁] using arr
  · intro t other apart
    obtain ⟨validMid, readMid⟩ := frame t other apart
    exact ⟨(keep t validMid).1, (keep t validMid).2.trans readMid⟩
  · simpa [h₂, h₁] using grown

theorem removeSubFromSlice_missing
    {group : List Subscription} (shown : h.read sl = group.map some)
    (missing : removeSubFromList sub group = none) : removeSubFromSlice g h sub sl = none := by
  have absent : (h.read sl).findIdx? (· = some sub) = none := by
    rw [shown, List.findIdx?_eq_none_iff]
    intro cell mem
    obtain ⟨x, inGroup, rfl⟩ := List.mem_map.mp mem
    have other : x ≠ sub := by
      rintro rfl
      exact removeSubFromList_eq_none.mp missing inGroup
    simpa using other
  simp only [removeSubFromSlice, absent]

/-- The group `findQSliceForSub` finds is the one that can hold the subscription. -/
theorem findIdx_of_mem
    (grouped : Grouped queueKey gs) (mem : sub ∈ gs.flatten) :
    ∃ i group, gs.findIdx? (fun group => group.head?.map queueKey = some (queueKey sub)) = some i ∧
      gs[i]? = some group ∧ sub ∈ group := by
  obtain ⟨group, inGroups, inGroup⟩ := List.mem_flatten.mp mem
  have headKey : ∀ group' ∈ gs, group'.head?.map queueKey = some (queueKey sub) → group' = group := by
    intro group' mem' head
    cases group' with
    | nil => simp at head
    | cons first rest =>
      exact grouped.eq_of_key mem' inGroups (List.mem_cons_self ..) inGroup (by simpa using head)
  cases found : gs.findIdx? fun group => group.head?.map queueKey = some (queueKey sub) with
  | none =>
    have absent := List.findIdx?_eq_none_iff.mp found group inGroups
    cases group with
    | nil => simp at inGroup
    | cons first rest =>
      have same := grouped.same _ inGroups first (List.mem_cons_self ..) sub inGroup
      simp [same] at absent
  | some i =>
    obtain ⟨bound, holds, -⟩ := List.findIdx?_eq_some_iff_getElem.mp found
    have here := headKey gs[i] (List.getElem_mem bound) (by simpa using holds)
    exact ⟨i, group, rfl, by rw [List.getElem?_eq_getElem bound, here], inGroup⟩

/-- A queue subscription that is among the groups is taken out of them. -/
theorem removeFromNode_found (queued : sub.queue ≠ none) (separate : Separate h n.qsubs)
    (reads : Reads h n.qsubs gs) (grouped : Grouped queueKey gs) (mem : sub ∈ gs.flatten) :
    ∃ h' qs' gs', removeFromNode g h sub n = some (h', .mk n.next n.psubs qs') ∧
      Rewrites h h' n.qsubs qs' ∧ Reads h' qs' gs' ∧ Grouped queueKey gs' ∧
      gs.flatten.Perm (sub :: gs'.flatten) := by
  obtain ⟨i, group, index, at_group, inGroup⟩ := findIdx_of_mem grouped mem
  obtain ⟨qr, at_i⟩ : ∃ qr, n.qsubs[i]? = some qr := by
    have inside : i < n.qsubs.length := by
      rw [reads.length]
      exact (List.getElem?_eq_some_iff.mp at_group).1
    exact ⟨_, List.getElem?_eq_getElem inside⟩
  have shown : h.read qr = group.map some := by
    obtain ⟨group₁, at_group₁, shown⟩ := reads.getElem at_i
    rw [at_group, Option.some.injEq] at at_group₁
    rw [shown, at_group₁]
  obtain ⟨group', removed⟩ : ∃ group', removeSubFromList sub group = some group' := by
    refine Option.ne_none_iff_exists'.mp fun missing => ?_
    exact removeSubFromList_eq_none.mp missing inGroup
  obtain ⟨h', qr', ran, shown', valid', arr, frame, grown⟩ := removeSubFromSlice_found g
    (separate.valid qr (List.mem_of_getElem? at_i)) shown removed
  obtain ⟨rewrites, cells⟩ := rewrites_set separate at_i frame valid' arr grown
  have readsSet : Reads h' (n.qsubs.set i qr') (gs.set i group') := by
    rw [Reads, cells, shown', reads, List.map_set]
  have taken := removeSubFromList_perm removed
  obtain ⟨rest, whole, replaced⟩ := set_perm at_group
  obtain ⟨groupedRest, groupedSet⟩ := grouped_shrink grouped whole taken
  have members : gs.flatten.Perm (sub :: (group' ++ rest.flatten)) :=
    whole.flatten.trans (by simpa using taken.append_right rest.flatten)
  have length : qr'.len = group'.length := by
    rw [← Heap.read_length valid', shown', List.length_map]
  have ran' : removeFromNode g h sub n = some (if qr'.len = 0 then
      (h', .mk n.next n.psubs
        ((n.qsubs.set i qr').set i ((n.qsubs.set i qr').getLastD qr')).dropLast)
      else (h', .mk n.next n.psubs (n.qsubs.set i qr'))) := by
    simp only [removeFromNode, if_neg queued, findQSliceForSub_reads queued reads, index, at_i, ran,
      Option.map_some]
  by_cases emptied : qr'.len = 0
  · -- the group became empty: the last group takes its place
    obtain rfl : group' = [] := List.eq_nil_of_length_eq_zero (length ▸ emptied)
    have at_qr' : (n.qsubs.set i qr')[i]? = some qr' := by
      simp [(List.getElem?_eq_some_iff.mp at_i).1]
    have at_nil : (gs.set i [])[i]? = some [] := by
      simp [(List.getElem?_eq_some_iff.mp at_group).1]
    have others : ((gs.set i []).set i ((gs.set i []).getLastD [])).dropLast.Perm rest :=
      List.Perm.cons_inv ((swapRemove_perm at_nil).symm.trans (replaced []))
    refine ⟨h', _, _, by rw [ran', if_pos emptied], rewrites.drop (swapRemove_perm at_qr'), ?_,
      grouped_perm others.symm groupedRest, ?_⟩
    · rw [Reads, map_swapRemove, map_swapRemove, readsSet, shown']
    · exact members.trans ((others.symm.flatten.cons sub))
  · have nonempty : group' ≠ [] := by
      rintro rfl
      exact emptied length
    refine ⟨h', _, _, by rw [ran', if_neg emptied], rewrites, readsSet,
      grouped_perm (replaced group').symm (groupedSet nonempty), ?_⟩
    exact members.trans ((replaced group').symm.flatten.cons sub)

theorem removeFromNode_missing (queued : sub.queue ≠ none) (reads : Reads h n.qsubs gs)
    (absent : sub ∉ gs.flatten) : removeFromNode g h sub n = none := by
  simp only [removeFromNode, if_neg queued]
  cases found : findQSliceForSub h sub n.qsubs with
  | none => rfl
  | some i =>
    cases at_i : n.qsubs[i]? with
    | none => simp [at_i]
    | some qr =>
      obtain ⟨group, at_group, shown⟩ := reads.getElem at_i
      have outside : sub ∉ group := fun inGroup =>
        absent (List.mem_flatten.mpr ⟨group, List.mem_of_getElem? at_group, inGroup⟩)
      simp [at_i, removeSubFromSlice_missing g shown (removeSubFromList_eq_none.mpr outside)]

end Update

end Hnatsd.Server
