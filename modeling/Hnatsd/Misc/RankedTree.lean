import Hnatsd.Misc.OrderedSet

/-!
# Search trees that replace equal items

A search tree over a `less` function, as its items in order. `less` is the comparison of a key in a
linear order; two items are equal when neither is less. An insertion takes the place of an equal
item, so the set of keys grows by one key and the tree stays sorted.
-/

namespace Hnatsd.Misc
open List

variable {α κ : Type} [LinearOrder κ]

/-- `less` compares keys. -/
def LessBy (less : α → α → Bool) (key : α → κ) : Prop := ∀ x y, less x y = true ↔ key x < key y

/-- Insert an item in the place of an equal one, if there is one. -/
def treeReplace (less : α → α → Bool) (x : α) : List α → List α
  | [] => [x]
  | y :: ys =>
      if less x y then x :: y :: ys
      else if less y x then y :: treeReplace less x ys
      else x :: ys

/-- Is there an item equal to `x`? -/
def treeHas (less : α → α → Bool) (x : α) (l : List α) : Bool :=
  l.any fun y => !less x y && !less y x

theorem mem_treeReplace_self (less : α → α → Bool) (x : α) (l : List α) : x ∈ treeReplace less x l := by
  induction l with
  | nil => exact mem_singleton.mpr rfl
  | cons y ys ih =>
    unfold treeReplace
    split_ifs
    · exact mem_cons_self
    · exact mem_cons_of_mem y ih
    · exact mem_cons_self

section Keys

variable {less : α → α → Bool} {key : α → κ} (by_key : LessBy less key)
include by_key

theorem LessBy.equal_iff (x y : α) : (!less x y && !less y x) = true ↔ key y = key x := by
  rw [Bool.and_eq_true, Bool.not_eq_true', Bool.not_eq_true', Bool.eq_false_iff,
    Bool.eq_false_iff, ne_eq, ne_eq, by_key, by_key, not_lt, not_lt]
  exact ⟨fun both => le_antisymm both.1 both.2, fun eq => ⟨eq.le, eq.ge⟩⟩

theorem LessBy.irrefl (x : α) : less x x = false := by
  rw [Bool.eq_false_iff, ne_eq, by_key]
  exact lt_irrefl _

theorem LessBy.asymm {x y : α} (less' : less x y = true) : less y x = false := by
  rw [by_key] at less'
  rw [Bool.eq_false_iff, ne_eq, by_key]
  exact less'.not_gt

theorem LessBy.trans {x y z : α} (first : less x y = true) (second : less y z = true) :
    less x z = true := by
  rw [by_key] at first second ⊢
  exact first.trans second

theorem LessBy.differ_iff (x y : α) : (less x y || less y x) = true ↔ key x ≠ key y := by
  rw [Bool.or_eq_true, by_key, by_key, ne_iff_lt_or_gt]

theorem treeHas_iff {x : α} {l : List α} : treeHas less x l = true ↔ ∃ y ∈ l, key y = key x := by
  simp only [treeHas, any_eq_true, by_key.equal_iff]

/-- An item of the new tree is the new item or an old one with another key. -/
theorem mem_treeReplace {x z : α} {l : List α} (sorted : KeySorted key l)
    (mem : z ∈ treeReplace less x l) : z = x ∨ z ∈ l ∧ key z ≠ key x := by
  induction l with
  | nil => exact Or.inl (mem_singleton.mp mem)
  | cons y ys ih =>
    obtain ⟨first, rest⟩ := pairwise_cons.mp sorted
    unfold treeReplace at mem
    split_ifs at mem with lt gt
    · rw [by_key] at lt
      rcases mem_cons.mp mem with here | there
      · exact Or.inl here
      · refine Or.inr ⟨there, ?_⟩
        rcases mem_cons.mp there with rfl | later
        · exact lt.ne'
        · exact (lt.trans (first z later)).ne'
    · rw [by_key] at gt
      rcases mem_cons.mp mem with rfl | later
      · exact Or.inr ⟨mem_cons_self, gt.ne⟩
      · exact (ih rest later).imp_right fun old => ⟨mem_cons_of_mem y old.1, old.2⟩
    · rw [by_key, not_lt] at lt gt
      have same : key y = key x := le_antisymm lt gt
      rcases mem_cons.mp mem with here | later
      · exact Or.inl here
      · refine Or.inr ⟨mem_cons_of_mem y later, ?_⟩
        rw [← same]
        exact (first z later).ne'

/-- Only an equal item is replaced. -/
theorem mem_treeReplace_of_ne {x z : α} {l : List α} (mem : z ∈ l) (ne : key z ≠ key x) :
    z ∈ treeReplace less x l := by
  induction l with
  | nil => cases mem
  | cons y ys ih =>
    unfold treeReplace
    split_ifs with lt gt
    · exact mem_cons_of_mem x mem
    · rcases mem_cons.mp mem with rfl | later
      · exact mem_cons_self
      · exact mem_cons_of_mem y (ih later)
    · rw [by_key, not_lt] at lt gt
      rcases mem_cons.mp mem with rfl | later
      · exact absurd (le_antisymm lt gt) ne
      · exact mem_cons_of_mem x later

theorem KeySorted.replace {x : α} {l : List α} (sorted : KeySorted key l) :
    KeySorted key (treeReplace less x l) := by
  induction l with
  | nil => exact pairwise_singleton _ _
  | cons y ys ih =>
    obtain ⟨first, rest⟩ := pairwise_cons.mp sorted
    unfold treeReplace
    split_ifs with lt gt
    · rw [by_key] at lt
      refine pairwise_cons.mpr ⟨fun z mem => ?_, sorted⟩
      rcases mem_cons.mp mem with rfl | later
      · exact lt
      · exact lt.trans (first z later)
    · rw [by_key] at gt
      refine pairwise_cons.mpr ⟨fun z mem => ?_, ih rest⟩
      rcases mem_treeReplace by_key rest mem with rfl | old
      · exact gt
      · exact first z old.1
    · rw [by_key, not_lt] at lt gt
      have same : key y = key x := le_antisymm lt gt
      refine pairwise_cons.mpr ⟨fun z mem => ?_, rest⟩
      rw [← same]
      exact first z mem

/-- The keys of the new tree are the old ones and the new item's. -/
theorem treeHas_replace {x z : α} {l : List α} (sorted : KeySorted key l) :
    treeHas less z (treeReplace less x l) = true ↔ key z = key x ∨ treeHas less z l = true := by
  rw [treeHas_iff by_key, treeHas_iff by_key]
  constructor
  · rintro ⟨y, mem, same⟩
    rcases mem_treeReplace by_key sorted mem with rfl | ⟨old, -⟩
    · exact Or.inl same.symm
    · exact Or.inr ⟨y, old, same⟩
  · rintro (same | ⟨y, mem, same⟩)
    · exact ⟨x, mem_treeReplace_self less x l, same.symm⟩
    · by_cases replaced : key y = key x
      · exact ⟨x, mem_treeReplace_self less x l, replaced.symm.trans same⟩
      · exact ⟨y, mem_treeReplace_of_ne by_key mem replaced, same⟩

/-- An item above all others goes to the end. -/
theorem treeReplace_above {x : α} {l : List α} (above : ∀ y ∈ l, key y < key x) :
    treeReplace less x l = l ++ [x] := by
  induction l with
  | nil => rfl
  | cons y ys ih =>
    have gt := above y mem_cons_self
    have notLess : ¬less x y = true := by
      rw [by_key]
      exact gt.not_gt
    rw [treeReplace, if_neg notLess, if_pos ((by_key y x).mpr gt),
      ih fun z mem => above z (mem_cons_of_mem y mem), cons_append]

/-- Inserting the items of a sorted list one after the other rebuilds it. -/
theorem foldl_treeReplace {l done : List α} (sorted : KeySorted key (done ++ l)) :
    l.foldl (fun tree x => treeReplace less x tree) done = done ++ l := by
  induction l generalizing done with
  | nil => simp
  | cons x xs ih =>
    have above : ∀ y ∈ done, key y < key x := fun y mem =>
      (pairwise_append.mp sorted).2.2 y mem x mem_cons_self
    rw [foldl_cons, treeReplace_above by_key above, ih (by simpa using sorted)]
    simp

end Keys

end Hnatsd.Misc
