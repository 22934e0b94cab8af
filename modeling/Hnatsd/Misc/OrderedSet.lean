import Mathlib

/-!
# Ordered sets given by a comparison

A search tree whose items are compared by a function with a negative, zero or positive result,
represented by its items in order. The results are for items whose keys have not changed since they
were inserted: then the tree is sorted, and insertion and deletion are those of a set.
-/

namespace Hnatsd.Misc
open List

variable {α κ : Type} [LinearOrder κ] {cmp : α → α → Int} {key : α → κ}

/-- Insert an item, unless an equal one is present. -/
def treeInsert (cmp : α → α → Int) (x : α) : List α → List α
  | [] => [x]
  | y :: ys =>
      if cmp x y < 0 then x :: y :: ys
      else if cmp x y = 0 then y :: ys
      else y :: treeInsert cmp x ys

/-- Delete the item that is equal to `x`, if there is one. -/
def treeDelete (cmp : α → α → Int) (x : α) : List α → List α
  | [] => []
  | y :: ys =>
      if cmp x y < 0 then y :: ys
      else if cmp x y = 0 then ys
      else y :: treeDelete cmp x ys

/-- The items stand in the order of their keys, no two with one key. -/
def KeySorted (key : α → κ) (l : List α) : Prop := l.Pairwise fun x y => key x < key y

/-- The comparison of two items is that of their keys. -/
def Compares (cmp : α → α → Int) (key : α → κ) (x y : α) : Prop :=
  (cmp x y < 0 ↔ key x < key y) ∧ (cmp x y = 0 ↔ key x = key y)

theorem Compares.cases {x y : α} (h : Compares cmp key x y) :
    (cmp x y < 0 ∧ key x < key y) ∨ (¬cmp x y < 0 ∧ cmp x y = 0 ∧ key x = key y) ∨
      (¬cmp x y < 0 ∧ cmp x y ≠ 0 ∧ key y < key x) := by
  rcases lt_trichotomy (key x) (key y) with lt | eq | gt
  · exact Or.inl ⟨h.1.mpr lt, lt⟩
  · have zero := h.2.mpr eq
    exact Or.inr (Or.inl ⟨by omega, zero, eq⟩)
  · exact Or.inr (Or.inr ⟨fun neg => lt_asymm gt (h.1.mp neg), fun zero => gt.ne' (h.2.mp zero), gt⟩)

theorem Compares.nonpos_iff {x y : α} (h : Compares cmp key x y) : cmp x y ≤ 0 ↔ key x ≤ key y := by
  rw [le_iff_lt_or_eq, le_iff_lt_or_eq, h.1, h.2]

theorem Compares.pos_iff {x y : α} (h : Compares cmp key x y) : 0 < cmp x y ↔ key y < key x := by
  rw [← not_le, ← not_le, h.nonpos_iff]

namespace KeySorted

theorem nodup {l : List α} (sorted : KeySorted key l) : l.Nodup :=
  sorted.imp fun lt eq => lt.ne (congrArg key eq)

theorem congr {key' : α → κ} {l : List α} (sorted : KeySorted key l)
    (same : ∀ x ∈ l, key' x = key x) : KeySorted key' l :=
  List.Pairwise.imp_of_mem (fun xs ys lt => by rwa [same _ xs, same _ ys]) sorted

theorem nodup_keys {l : List α} (sorted : KeySorted key l) : (l.map key).Nodup :=
  List.Pairwise.map key (fun _ _ lt => lt.ne) sorted

theorem keys_subperm {l l' : List α} (sorted : KeySorted key l)
    (sub : ∀ x ∈ l, ∃ y ∈ l', key y = key x) : (l.map key).Subperm (l'.map key) := by
  refine subperm_of_subset sorted.nodup_keys fun k mem => ?_
  obtain ⟨x, inL, rfl⟩ := mem_map.mp mem
  obtain ⟨y, inL', same⟩ := sub x inL
  rw [← same]
  exact mem_map_of_mem inL'

/-- A list whose keys are all among those of another is not longer. -/
theorem length_le {l l' : List α} (sorted : KeySorted key l)
    (sub : ∀ x ∈ l, ∃ y ∈ l', key y = key x) : l.length ≤ l'.length := by
  simpa using (sorted.keys_subperm sub).length_le

/-- If it is as long, the other has no further keys. -/
theorem exists_of_length_le {l l' : List α} (sorted : KeySorted key l)
    (sub : ∀ x ∈ l, ∃ y ∈ l', key y = key x) (le : l'.length ≤ l.length) {y : α} (mem : y ∈ l') :
    ∃ x ∈ l, key x = key y := by
  have perm := (sorted.keys_subperm sub).perm_of_length_le (by simpa using le)
  exact mem_map.mp (perm.mem_iff.mpr (mem_map_of_mem mem))

end KeySorted

section Insert

theorem mem_treeInsert {x z : α} {l : List α} (mem : z ∈ treeInsert cmp x l) : z = x ∨ z ∈ l := by
  induction l with
  | nil => exact Or.inl (mem_singleton.mp mem)
  | cons y ys ih =>
    unfold treeInsert at mem
    split_ifs at mem
    · exact mem_cons.mp mem
    · exact Or.inr mem
    · rcases mem_cons.mp mem with rfl | later
      · exact Or.inr mem_cons_self
      · exact (ih later).imp_right (mem_cons_of_mem y)

/-- Insertion commutes with a map that keeps the comparison. -/
theorem map_treeInsert {β : Type} {cmp' : β → β → Int} (f : α → β) (x : α) (l : List α)
    (keeps : ∀ y ∈ l, cmp' (f x) (f y) = cmp x y) :
    (treeInsert cmp x l).map f = treeInsert cmp' (f x) (l.map f) := by
  induction l with
  | nil => rfl
  | cons y ys ih =>
    rw [map_cons, treeInsert, treeInsert, keeps y mem_cons_self]
    split_ifs
    · rfl
    · rfl
    · rw [map_cons, ih fun z mem => keeps z (mem_cons_of_mem y mem)]

theorem treeInsert_perm {x : α} {l : List α} (compares : ∀ y ∈ l, Compares cmp key x y)
    (fresh : ∀ y ∈ l, key x ≠ key y) : (treeInsert cmp x l).Perm (x :: l) := by
  induction l with
  | nil => exact List.Perm.refl _
  | cons y ys ih =>
    have notEq : cmp x y ≠ 0 := fun zero =>
      fresh y mem_cons_self ((compares y mem_cons_self).2.mp zero)
    unfold treeInsert
    split_ifs
    · exact List.Perm.refl _
    · exact ((ih (fun z mem => compares z (mem_cons_of_mem _ mem))
        fun z mem => fresh z (mem_cons_of_mem _ mem)).cons y).trans (List.Perm.swap x y ys)

theorem KeySorted.insert {x : α} {l : List α} (sorted : KeySorted key l)
    (compares : ∀ y ∈ l, Compares cmp key x y) : KeySorted key (treeInsert cmp x l) := by
  induction l with
  | nil => exact pairwise_singleton _ _
  | cons y ys ih =>
    obtain ⟨first, rest⟩ := pairwise_cons.mp sorted
    unfold treeInsert
    rcases (compares y mem_cons_self).cases with ⟨neg, lt⟩ | ⟨nneg, zero, -⟩ | ⟨nneg, nzero, gt⟩
    · rw [if_pos neg]
      refine pairwise_cons.mpr ⟨fun z mem => ?_, sorted⟩
      rcases mem_cons.mp mem with rfl | later
      · exact lt
      · exact lt.trans (first z later)
    · rw [if_neg nneg, if_pos zero]
      exact sorted
    · rw [if_neg nneg, if_neg nzero]
      refine pairwise_cons.mpr ⟨fun z mem => ?_,
        ih rest fun z mem => compares z (mem_cons_of_mem _ mem)⟩
      rcases mem_treeInsert mem with rfl | later
      · exact gt
      · exact first z later

theorem exists_mem_treeInsert {x z : α} {l : List α} (compares : ∀ y ∈ l, Compares cmp key x y)
    (mem : z = x ∨ z ∈ l) : ∃ y ∈ treeInsert cmp x l, key y = key z := by
  induction l with
  | nil =>
    rcases mem with rfl | none_left
    · exact ⟨z, mem_singleton.mpr rfl, rfl⟩
    · cases none_left
  | cons y ys ih =>
    unfold treeInsert
    rcases (compares y mem_cons_self).cases with ⟨neg, -⟩ | ⟨nneg, zero, eq⟩ | ⟨nneg, nzero, -⟩
    · rw [if_pos neg]
      exact ⟨z, mem_cons.mpr mem, rfl⟩
    · rw [if_neg nneg, if_pos zero]
      rcases mem with rfl | old
      · exact ⟨y, mem_cons_self, eq.symm⟩
      · exact ⟨z, old, rfl⟩
    · rw [if_neg nneg, if_neg nzero]
      have later : ∀ w ∈ ys, Compares cmp key x w := fun w inYs =>
        compares w (mem_cons_of_mem _ inYs)
      rcases mem with new | old
      · obtain ⟨w, inTree, same⟩ := ih later (Or.inl new)
        exact ⟨w, mem_cons_of_mem _ inTree, same⟩
      · rcases mem_cons.mp old with rfl | inYs
        · exact ⟨z, mem_cons_self, rfl⟩
        · obtain ⟨w, inTree, same⟩ := ih later (Or.inr inYs)
          exact ⟨w, mem_cons_of_mem _ inTree, same⟩

/-- Inserting several items one after the other. -/
theorem KeySorted.insertAll {l : List α} (xs : List α)
    (compares : ∀ x ∈ xs, ∀ y, y ∈ xs ∨ y ∈ l → Compares cmp key x y)
    (sorted : KeySorted key l) :
    KeySorted key (xs.foldl (fun l x => treeInsert cmp x l) l) ∧
      (∀ z ∈ xs.foldl (fun l x => treeInsert cmp x l) l, z ∈ xs ∨ z ∈ l) ∧
      ∀ z, z ∈ xs ∨ z ∈ l → ∃ y ∈ xs.foldl (fun l x => treeInsert cmp x l) l, key y = key z := by
  induction xs generalizing l with
  | nil =>
    refine ⟨sorted, fun z mem => Or.inr mem, fun z mem => ⟨z, mem.resolve_left ?_, rfl⟩⟩
    exact not_mem_nil
  | cons x xs ih =>
    have toOld : ∀ y ∈ l, Compares cmp key x y := fun y old =>
      compares x mem_cons_self y (Or.inr old)
    have compares' : ∀ z ∈ xs, ∀ y, y ∈ xs ∨ y ∈ treeInsert cmp x l → Compares cmp key z y := by
      intro z inXs y mem
      refine compares z (mem_cons_of_mem x inXs) y ?_
      rcases mem with later | inTree
      · exact Or.inl (mem_cons_of_mem x later)
      · rcases mem_treeInsert inTree with rfl | old
        · exact Or.inl mem_cons_self
        · exact Or.inr old
    obtain ⟨sorted', from', kept⟩ := ih compares' (sorted.insert toOld)
    refine ⟨sorted', fun z mem => ?_, fun z mem => ?_⟩
    · rcases from' z mem with later | old
      · exact Or.inl (mem_cons_of_mem _ later)
      · rcases mem_treeInsert old with rfl | old
        · exact Or.inl mem_cons_self
        · exact Or.inr old
    · have split : z ∈ xs ∨ z = x ∨ z ∈ l := by
        rcases mem with new | old
        · rcases mem_cons.mp new with here | later
          · exact Or.inr (Or.inl here)
          · exact Or.inl later
        · exact Or.inr (Or.inr old)
      rcases split with later | here
      · exact kept z (Or.inl later)
      · obtain ⟨w, inTree, same⟩ := exists_mem_treeInsert toOld here
        obtain ⟨y, inEnd, same'⟩ := kept w (Or.inr inTree)
        exact ⟨y, inEnd, same'.trans same⟩

end Insert

/-- The last item of a sorted list is the greatest. -/
theorem KeySorted.le_getLast {l : List α} (sorted : KeySorted key l) {m z : α}
    (last : l.getLast? = some m) (mem : z ∈ l) : key z ≤ key m := by
  obtain ⟨ys, rfl⟩ := getLast?_eq_some_iff.mp last
  rcases mem_append.mp mem with before | here
  · exact ((pairwise_append.mp sorted).2.2 z before m (mem_singleton.mpr rfl)).le
  · rw [mem_singleton.mp here]

section Delete

theorem treeDelete_sublist (x : α) (l : List α) : (treeDelete cmp x l).Sublist l := by
  induction l with
  | nil => exact List.Sublist.refl _
  | cons y ys ih =>
    unfold treeDelete
    split_ifs
    · exact List.Sublist.refl _
    · exact sublist_cons_self _ _
    · exact ih.cons_cons y

theorem KeySorted.delete_perm {x : α} {l : List α} (sorted : KeySorted key l)
    (compares : ∀ y ∈ l, Compares cmp key x y) (mem : x ∈ l) :
    l.Perm (x :: treeDelete cmp x l) := by
  induction l with
  | nil => cases mem
  | cons y ys ih =>
    obtain ⟨first, rest⟩ := pairwise_cons.mp sorted
    unfold treeDelete
    rcases (compares y mem_cons_self).cases with ⟨-, lt⟩ | ⟨nneg, zero, eq⟩ | ⟨nneg, nzero, gt⟩
    · rcases mem_cons.mp mem with rfl | later
      · exact (lt.false).elim
      · exact (lt_asymm lt (first x later)).elim
    · rw [if_neg nneg, if_pos zero]
      rcases mem_cons.mp mem with rfl | later
      · exact List.Perm.refl _
      · exact ((first x later).ne' eq).elim
    · rw [if_neg nneg, if_neg nzero]
      rcases mem_cons.mp mem with rfl | later
      · exact (gt.false).elim
      · exact ((ih rest (fun z mem => compares z (mem_cons_of_mem _ mem)) later).cons y).trans
          (List.Perm.swap x y _)

theorem foldl_treeDelete_sublist (goners l : List α) :
    (goners.foldl (fun l x => treeDelete cmp x l) l).Sublist l := by
  induction goners generalizing l with
  | nil => exact List.Sublist.refl _
  | cons x rest ih => exact (ih _).trans (treeDelete_sublist x l)

/-- Deleting several items one after the other. -/
theorem KeySorted.deleteAll {goners l : List α} (sorted : KeySorted key l)
    (compares : ∀ x ∈ l, ∀ y ∈ l, Compares cmp key x y) (distinct : goners.Nodup)
    (mem : ∀ x ∈ goners, x ∈ l) :
    l.Perm (goners ++ goners.foldl (fun l x => treeDelete cmp x l) l) ∧
      KeySorted key (goners.foldl (fun l x => treeDelete cmp x l) l) := by
  induction goners generalizing l with
  | nil => exact ⟨List.Perm.refl _, sorted⟩
  | cons x rest ih =>
    obtain ⟨notIn, distinct⟩ := nodup_cons.mp distinct
    have inL := mem x mem_cons_self
    have perm := sorted.delete_perm (compares x inL) inL
    have sub : (treeDelete cmp x l).Sublist l := treeDelete_sublist x l
    have stays : ∀ y ∈ rest, y ∈ treeDelete cmp x l := fun y inRest => by
      have := perm.mem_iff.mp (mem y (mem_cons_of_mem _ inRest))
      exact (mem_cons.mp this).resolve_left fun eq => notIn (eq ▸ inRest)
    obtain ⟨permRest, sortedRest⟩ := ih (List.Pairwise.sublist sub sorted)
      (fun y inY z inZ => compares y (sub.subset inY) z (sub.subset inZ)) distinct stays
    exact ⟨perm.trans (permRest.cons x), sortedRest⟩

end Delete

/-- What stands in a sorted list behind the last item below a bound is not below it. -/
theorem KeySorted.dropWhile {below : α → Bool} {l : List α} (sorted : KeySorted key l)
    (closed : ∀ x y, key x < key y → below y = true → below x = true) :
    ∀ y ∈ l.dropWhile below, below y = false := by
  induction l with
  | nil => intro y mem; cases mem
  | cons x xs ih =>
    obtain ⟨first, rest⟩ := pairwise_cons.mp sorted
    intro y mem
    cases isBelow : below x with
    | true =>
      rw [dropWhile_cons_of_pos isBelow] at mem
      exact ih rest y mem
    | false =>
      rw [dropWhile_cons_of_neg (by simp [isBelow])] at mem
      rcases mem_cons.mp mem with rfl | later
      · exact isBelow
      · refine Bool.eq_false_iff.mpr fun yBelow => ?_
        exact absurd (closed x y (first y later) yBelow) (by simp [isBelow])

end Hnatsd.Misc
