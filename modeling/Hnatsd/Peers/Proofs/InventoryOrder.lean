import Hnatsd.Peers.Inventory
import Hnatsd.Peers.Proofs.Latest

/-!
# The order of the inventory

`compare` is the order of key, instant and owner, except on two items of one key whose times are one
instant in different locations: each of the two is above the other. Replies are put into UTC before
they are sorted, so among them there are no such items.
-/

namespace Hnatsd.Peers
open Misc

namespace Zoned

/-- The same key and instant, but different locations. -/
def Clash (a b : Zoned) : Prop :=
  a.ki.key = b.ki.key ∧ a.ki.when = b.ki.when ∧ a.loc ≠ b.loc

/-- Key, instant and owner. -/
def order (a : Zoned) : List Nat ×ₗ Int ×ₗ List Nat := invKey a.ki

theorem compare_of_clash {a b : Zoned} (clash : Clash a b) : compare a b = 1 := by
  obtain ⟨key, instant, loc⟩ := clash
  have zero := (bytesCompare_eq_zero_iff _ _).mpr key
  simp [compare, when, Time.before, zero, instant, loc]

theorem bytesCompare_eq (a b : Bytes) :
    bytesCompare a b = if a = b then 0 else if a < b then -1 else 1 := by
  by_cases same : a = b
  · rw [if_pos same, bytesCompare_eq_zero_iff]
    exact same
  · rw [bytesCompare, if_neg same, if_neg same]

/-- Elsewhere the comparison is the one for times in UTC. -/
theorem compare_of_not_clash {a b : Zoned} (agree : ¬Clash a b) :
    compare a b = Peers.compare a.ki b.ki := by
  rw [compare, Peers.compare, ← bytesCompare_eq]
  by_cases key : a.ki.key = b.ki.key
  · have times : a.when = b.when ↔ a.ki.when = b.ki.when := by
      rw [when, when, Time.mk.injEq, and_iff_left_iff_imp]
      intro instant
      by_contra loc
      exact agree ⟨key, instant, loc⟩
    have before : a.when.before b.when = true ↔ a.ki.when < b.ki.when := decide_eq_true_iff
    simp only [ne_eq, times, before]
  · have nonzero : bytesCompare a.ki.key b.ki.key ≠ 0 := fun zero =>
      key ((bytesCompare_eq_zero_iff _ _).mp zero)
    simp only [ne_eq, nonzero, not_false_eq_true, if_true]

theorem Clash.symm {a b : Zoned} (clash : Clash a b) : Clash b a :=
  ⟨clash.1.symm, clash.2.1.symm, clash.2.2.symm⟩

theorem compare_compares {a b : Zoned} (agree : ¬Clash a b) : Compares compare order a b := by
  have underlying := Peers.compare_compares a.ki b.ki
  rw [Compares, compare_of_not_clash agree]
  exact underlying

/-- Opposite signs, or both zero. -/
def Opposite (i j : Int) : Prop := (i < 0 ↔ 0 < j) ∧ (i = 0 ↔ j = 0) ∧ (0 < i ↔ j < 0)

theorem opposite_iff (a b : Zoned) : Opposite (compare a b) (compare b a) ↔ ¬Clash a b := by
  constructor
  · rintro ⟨-, -, pos⟩ clash
    rw [compare_of_clash clash, compare_of_clash clash.symm] at pos
    exact absurd (pos.mp Int.one_pos) (by decide)
  · intro agree
    have there := compare_compares agree
    have back := compare_compares fun clash => agree (Clash.symm clash)
    exact ⟨there.1.trans back.pos_iff.symm, (there.2.trans eq_comm).trans back.2.symm,
      there.pos_iff.trans back.1.symm⟩

/-- No two items have one instant in different locations. -/
def ClashFree (items : List Zoned) : Prop := ∀ a ∈ items, ∀ b ∈ items, ¬Clash a b

theorem clashFree_toUTC (items : List Zoned) : ClashFree (items.map toUTC) := by
  intro a inA b inB clash
  obtain ⟨a', -, rfl⟩ := List.mem_map.mp inA
  obtain ⟨b', -, rfl⟩ := List.mem_map.mp inB
  exact clash.2.2 rfl

/-- The tree has the items in order, one for each key, instant and owner. -/
structure Ordered (items tree : List Zoned) : Prop where
  sorted : KeySorted order tree
  old : ∀ z ∈ tree, z ∈ items
  kept : ∀ z ∈ items, ∃ y ∈ tree, order y = order z

theorem ClashFree.ordered {items : List Zoned} (free : ClashFree items) :
    Ordered items (items.foldl upsert []) := by
  have compares : ∀ x ∈ items, ∀ y, y ∈ items ∨ y ∈ [] → Compares compare order x y := by
    intro x inX y inY
    exact compare_compares (free x inX y (inY.resolve_right List.not_mem_nil))
  obtain ⟨sorted, old, kept⟩ := KeySorted.insertAll items compares List.Pairwise.nil
  refine ⟨sorted, fun z mem => ?_, fun z mem => kept z (Or.inl mem)⟩
  exact (old z mem).resolve_right List.not_mem_nil

/-- On times in UTC the inventory is the sorter of a broadcast get. -/
theorem map_foldl_upsert {items tree : List Zoned} (free : ClashFree (items ++ tree)) :
    (items.foldl upsert tree).map ki = (items.map ki).foldl Peers.upsert (tree.map ki) := by
  induction items generalizing tree with
  | nil => rfl
  | cons x items ih =>
    have keeps : ∀ y ∈ tree, Peers.compare x.ki y.ki = compare x y := fun y mem =>
      (compare_of_not_clash (free x (by simp) y (by simp [mem]))).symm
    have old : ∀ z ∈ items ++ upsert tree x, z ∈ x :: items ++ tree := by
      intro z mem
      rcases List.mem_append.mp mem with later | inTree
      · exact List.mem_append_left tree (List.mem_cons_of_mem x later)
      · rcases mem_treeInsert inTree with rfl | before
        · exact List.mem_cons_self
        · exact List.mem_append_right (x :: items) before
    have free' : ClashFree (items ++ upsert tree x) := fun a inA b inB =>
      free a (old a inA) b (old b inB)
    rw [List.foldl_cons, ih free', upsert, map_treeInsert ki x tree keeps]
    rfl

/-- The comparisons among items have opposite signs both ways, or are zero both ways, exactly if no
two of the items clash. Among items that do not clash the comparison is transitive, and the tree of
them is ordered by key, instant and owner. The replies of a broadcast get, put into UTC, never clash,
and their tree is the sorter of the get. -/
theorem compare_consistent (items : List Zoned) :
    ((∀ a ∈ items, ∀ b ∈ items, Opposite (compare a b) (compare b a)) ↔ ClashFree items) ∧
    (ClashFree items →
      (∀ a ∈ items, ∀ b ∈ items, ∀ c ∈ items,
        (compare a b < 0 → compare b c < 0 → compare a c < 0) ∧
        (compare a b = 0 → compare b c = 0 → compare a c = 0) ∧
        (compare a b ≤ 0 → compare b c ≤ 0 → compare a c ≤ 0) ∧
        (0 < compare a b → 0 < compare b c → 0 < compare a c)) ∧
      Ordered items (items.foldl upsert [])) ∧
    Ordered (items.map toUTC) ((items.map toUTC).foldl upsert []) ∧
    ((items.map toUTC).foldl upsert []).map ki = (items.map ki).foldl Peers.upsert [] := by
  have utc := clashFree_toUTC items
  refine ⟨?_, fun free => ⟨?_, free.ordered⟩, utc.ordered, ?_⟩
  · exact forall₂_congr fun a _ => forall₂_congr fun b _ => opposite_iff a b
  · intro a inA b inB c inC
    have ab := compare_compares (free a inA b inB)
    have bc := compare_compares (free b inB c inC)
    have ac := compare_compares (free a inA c inC)
    rw [ab.1, bc.1, ac.1, ab.2, bc.2, ac.2, ab.nonpos_iff, bc.nonpos_iff, ac.nonpos_iff, ab.pos_iff,
      bc.pos_iff, ac.pos_iff]
    exact ⟨lt_trans, Eq.trans, le_trans, fun first second => lt_trans second first⟩
  · rw [map_foldl_upsert (by simpa using utc), List.map_map]
    rfl

/-- Three copies with one instant, the second in another location: each of the first two is above the
other, and the first is not above the third although the second stands between them. -/
theorem compare_inconsistent :
    ∃ a b c : Zoned, Clash a b ∧ compare a b = 1 ∧ compare b a = 1 ∧ compare b c = 1 ∧
      compare a c = -1 := by
  refine ⟨⟨{ key := bytesOf "k", who := bytesOf "a" }, 0⟩,
    ⟨{ key := bytesOf "k", who := bytesOf "b" }, 1⟩,
    ⟨{ key := bytesOf "k", who := bytesOf "c" }, 0⟩, ⟨rfl, rfl, by decide⟩, ?_⟩
  exact ⟨rfl, rfl, rfl, rfl⟩

end Zoned

end Hnatsd.Peers
