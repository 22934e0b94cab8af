import Mathlib

/-!
# Grouping a list by a key

A list of groups is a grouping when no group is empty, the members of a group share their key and
members of two groups never do. Up to order a grouping is determined by its members, so two ways
of building one from the same members agree.
-/

namespace Hnatsd.Misc
open List

variable {α κ : Type}

/-- Replacing an element by index, seen up to order. -/
theorem set_perm {xs : List α} {i : Nat} {x : α} (at_i : xs[i]? = some x) :
    ∃ rest, xs.Perm (x :: rest) ∧ ∀ y, (xs.set i y).Perm (y :: rest) := by
  induction xs generalizing i with
  | nil => simp at at_i
  | cons head tail ih =>
    cases i with
    | zero =>
      obtain rfl : head = x := by simpa using at_i
      exact ⟨tail, List.Perm.refl _, fun y => List.Perm.refl _⟩
    | succ i =>
      obtain ⟨rest, whole, replaced⟩ := ih (by simpa using at_i)
      refine ⟨head :: rest, ?_, fun y => ?_⟩
      · exact (whole.cons head).trans (List.Perm.swap x head rest)
      · exact ((replaced y).cons head).trans (List.Perm.swap y head rest)

/-- Removing an element by moving the last one into its place, seen up to order. -/
theorem swapRemove_perm {xs : List α} {i : Nat} {x d : α} (at_i : xs[i]? = some x) :
    xs.Perm (x :: (xs.set i (xs.getLastD d)).dropLast) := by
  induction xs using reverseRecOn generalizing i with
  | nil => simp at at_i
  | append_singleton init last ih =>
    have lastIs : (init ++ [last]).getLastD d = last := by simp
    rw [lastIs]
    by_cases inside : i < init.length
    · have at_init : init[i]? = some x := by
        rwa [getElem?_append_left inside] at at_i
      obtain ⟨rest, whole, replaced⟩ := set_perm at_init
      rw [set_append_left _ _ inside, dropLast_concat]
      refine (perm_append_singleton last init).trans ?_
      exact ((whole.cons last).trans (List.Perm.swap x last rest)).trans ((replaced last).symm.cons x)
    · have here : i = init.length := by
        have := (List.getElem?_eq_some_iff.mp at_i).1
        simp only [length_append, length_singleton] at this
        omega
      subst here
      obtain rfl : last = x := by simpa using at_i
      simp only [set_append_right _ _ (Nat.le_refl _), Nat.sub_self, set_cons_zero,
        dropLast_concat]
      exact perm_append_singleton last init

theorem map_swapRemove {β : Type} (f : α → β) (xs : List α) (i : Nat) (d : α) :
    ((xs.set i (xs.getLastD d)).dropLast).map f =
      ((xs.map f).set i ((xs.map f).getLastD (f d))).dropLast := by
  have last : (xs.map f).getLastD (f d) = f (xs.getLastD d) := by
    simp only [getLastD_eq_getLast?, getLast?_map, Option.getD_map]
  rw [map_dropLast, map_set, last]

variable (key : α → κ)

/-- No group is empty, the members of a group share their key and no two groups do. -/
structure Grouped (gs : List (List α)) : Prop where
  nonempty : ∀ g ∈ gs, g ≠ []
  same : ∀ g ∈ gs, ∀ x ∈ g, ∀ y ∈ g, key x = key y
  apart : gs.Pairwise fun g g' => ∀ x ∈ g, ∀ y ∈ g', key x ≠ key y

/-- The groups without their order, and each without the order of its members. -/
def groupSet (gs : List (List α)) : Multiset (Multiset α) :=
  Multiset.ofList (gs.map Multiset.ofList)

/-- Append a non-empty run to the group that has its key, or start a group with it. -/
def merge [DecidableEq κ] (gs : List (List α)) (x : α) (xs : List α) : List (List α) :=
  match gs.findIdx? fun g => g.head?.map key = some (key x) with
  | some i => gs.set i (gs.getD i [] ++ (x :: xs))
  | none => gs ++ [x :: xs]

variable {key}

theorem grouped_nil : Grouped key ([] : List (List α)) :=
  ⟨by simp, by simp, List.Pairwise.nil⟩

theorem grouped_cons {g : List α} {gs : List (List α)} :
    Grouped key (g :: gs) ↔ g ≠ [] ∧ (∀ x ∈ g, ∀ y ∈ g, key x = key y) ∧
      (∀ g' ∈ gs, ∀ x ∈ g, ∀ y ∈ g', key x ≠ key y) ∧ Grouped key gs := by
  constructor
  · intro grouped
    obtain ⟨first, rest⟩ := pairwise_cons.mp grouped.apart
    exact ⟨grouped.nonempty g (by simp), grouped.same g (by simp), first,
      fun g' mem => grouped.nonempty g' (by simp [mem]),
      fun g' mem => grouped.same g' (by simp [mem]), rest⟩
  · rintro ⟨nonempty, same, first, rest⟩
    refine ⟨?_, ?_, pairwise_cons.mpr ⟨first, rest.apart⟩⟩
    · intro g' mem
      rcases mem_cons.mp mem with rfl | mem
      · exact nonempty
      · exact rest.nonempty g' mem
    · intro g' mem
      rcases mem_cons.mp mem with rfl | mem
      · exact same
      · exact rest.same g' mem

theorem grouped_perm {gs gs' : List (List α)} (perm : gs.Perm gs') (grouped : Grouped key gs) :
    Grouped key gs' := by
  refine ⟨fun g mem => grouped.nonempty g (perm.mem_iff.mpr mem),
    fun g mem => grouped.same g (perm.mem_iff.mpr mem), ?_⟩
  refine (perm.pairwise_iff ?_).mp grouped.apart
  intro g g' apart x hx y hy equal
  exact apart y hy x hx equal.symm

/-- A key leads to one group only. -/
theorem Grouped.eq_of_key {gs : List (List α)} {g g' : List α} {x y : α}
    (grouped : Grouped key gs) (mem : g ∈ gs) (mem' : g' ∈ gs) (inGroup : x ∈ g) (inGroup' : y ∈ g')
    (same : key x = key y) : g = g' := by
  by_contra differ
  have symmetric : Std.Symm fun g g' : List α => ∀ x ∈ g, ∀ y ∈ g', key x ≠ key y :=
    ⟨fun g g' apart x hx y hy equal => apart y hy x hx equal.symm⟩
  exact grouped.apart.forall mem mem' differ x inGroup y inGroup' same

/-- Members of different groups have different keys. -/
theorem Grouped.key_ne {gs : List (List α)} {g g' : List α} {i j : Nat} {x y : α}
    (grouped : Grouped key gs) (before : i < j) (at_i : gs[i]? = some g) (at_j : gs[j]? = some g')
    (inGroup : x ∈ g) (inGroup' : y ∈ g') : key x ≠ key y := by
  obtain ⟨bound, rfl⟩ := List.getElem?_eq_some_iff.mp at_i
  obtain ⟨bound', rfl⟩ := List.getElem?_eq_some_iff.mp at_j
  exact pairwise_iff_getElem.mp grouped.apart i j bound bound' before x inGroup y inGroup'

/-- `merge` up to order: either the run joins the one group with its key, or no group has it. -/
theorem merge_cases [DecidableEq κ] (key : α → κ) (gs : List (List α)) (x : α) (xs : List α) :
    (∃ g rest, g.head?.map key = some (key x) ∧ gs.Perm (g :: rest) ∧
      (merge key gs x xs).Perm ((g ++ (x :: xs)) :: rest)) ∨
    ((∀ g ∈ gs, g.head?.map key ≠ some (key x)) ∧
      (merge key gs x xs).Perm ((x :: xs) :: gs)) := by
  unfold merge
  cases found : gs.findIdx? fun g => g.head?.map key = some (key x) with
  | none =>
    refine Or.inr ⟨?_, perm_append_singleton _ _⟩
    intro g mem equal
    have := findIdx?_eq_none_iff.mp found g mem
    simp [equal] at this
  | some i =>
    obtain ⟨bound, holds, -⟩ := findIdx?_eq_some_iff_getElem.mp found
    have at_i : gs[i]? = some gs[i] := getElem?_eq_getElem bound
    obtain ⟨rest, whole, replaced⟩ := set_perm at_i
    refine Or.inl ⟨gs[i], rest, by simpa using holds, whole, ?_⟩
    have read : gs.getD i [] = gs[i] := by simp [bound]
    simp only [read]
    exact replaced _

theorem grouped_merge [DecidableEq κ] {gs : List (List α)} {x : α} {xs : List α} (grouped : Grouped key gs)
    (run : ∀ y ∈ xs, key y = key x) : Grouped key (merge key gs x xs) := by
  have runKey : ∀ y ∈ x :: xs, key y = key x := by
    intro y mem
    rcases mem_cons.mp mem with rfl | mem
    · rfl
    · exact run y mem
  rcases merge_cases key gs x xs with ⟨g, rest, headKey, whole, merged⟩ | ⟨fresh, merged⟩
  · obtain ⟨-, same, first, tail⟩ := grouped_cons.mp (grouped_perm whole grouped)
    cases g with
    | nil => simp at headKey
    | cons z zs =>
      have headEq : key z = key x := by simpa using headKey
      have groupKey : ∀ y ∈ (z :: zs) ++ (x :: xs), key y = key x := by
        intro y mem
        rcases mem_append.mp mem with mem | mem
        · rw [same y mem z (by simp), headEq]
        · exact runKey y mem
      refine grouped_perm merged.symm (grouped_cons.mpr ⟨by simp, ?_, ?_, tail⟩)
      · intro y hy w hw
        rw [groupKey y hy, groupKey w hw]
      · intro g' mem y hy w hw equal
        refine first g' mem z (by simp) w hw ?_
        rw [headEq, ← equal, groupKey y hy]
  · refine grouped_perm merged.symm (grouped_cons.mpr ⟨by simp, ?_, ?_, grouped⟩)
    · intro y hy w hw
      rw [runKey y hy, runKey w hw]
    · intro g mem y hy w hw equal
      cases g with
      | nil => simp at hw
      | cons z zs =>
        apply fresh _ mem
        have := grouped.same _ mem z (by simp) w hw
        simp [this, ← equal, runKey y hy]

theorem flatten_merge_perm [DecidableEq κ] (key : α → κ) (gs : List (List α)) (x : α) (xs : List α) :
    (merge key gs x xs).flatten.Perm (gs.flatten ++ (x :: xs)) := by
  rcases merge_cases key gs x xs with ⟨g, rest, -, whole, merged⟩ | ⟨-, merged⟩
  · refine merged.flatten.trans ?_
    refine List.Perm.trans ?_ (whole.flatten.symm.append_right _)
    simp only [flatten_cons, append_assoc]
    exact (perm_append_comm).append_left g
  · refine merged.flatten.trans ?_
    simp only [flatten_cons]
    exact perm_append_comm

/-- Dropping a member of a group, and the group when it was the last member. -/
theorem grouped_shrink {g rest : List (List α)} {old new : List α} {x : α}
    (grouped : Grouped key g) (whole : g.Perm (old :: rest)) (dropped : old.Perm (x :: new)) :
    Grouped key rest ∧ (new ≠ [] → Grouped key (new :: rest)) := by
  obtain ⟨-, same, first, tail⟩ := grouped_cons.mp (grouped_perm whole grouped)
  have sub : ∀ y ∈ new, y ∈ old := fun y mem => dropped.mem_iff.mpr (by simp [mem])
  refine ⟨tail, fun nonempty => grouped_cons.mpr ⟨nonempty, ?_, ?_, tail⟩⟩
  · exact fun y hy z hz => same y (sub y hy) z (sub z hz)
  · exact fun g' mem y hy z hz => first g' mem y (sub y hy) z hz

section Unique

variable [DecidableEq κ]

/-- The members of a list that have a given key. -/
private def bucket (key : α → κ) (members : List α) (k : κ) : Multiset α :=
  (members : Multiset α).filter (fun x => key x = k)

private theorem bucket_eq_of_grouped {gs : List (List α)} (grouped : Grouped key gs) :
    groupSet gs =
      (((gs.flatten.map key : List κ) : Multiset κ).dedup).map (bucket key gs.flatten) := by
  induction gs with
  | nil => rfl
  | cons g gs ih =>
    obtain ⟨nonempty, same, first, tail⟩ := grouped_cons.mp grouped
    obtain ⟨x, xs, rfl⟩ := exists_cons_of_ne_nil nonempty
    have outside : ∀ y ∈ gs.flatten, key y ≠ key x := by
      intro y mem equal
      obtain ⟨g', inGroups, inGroup⟩ := mem_flatten.mp mem
      exact first g' inGroups x (by simp) y inGroup equal.symm
    have headKey : ∀ y ∈ x :: xs, key y = key x := fun y mem => same y mem x (by simp)
    -- the keys of the first group collapse to one, which the rest does not have
    have keys : (((((x :: xs) :: gs).flatten.map key : List κ) : Multiset κ)).dedup =
        key x ::ₘ (((gs.flatten.map key : List κ) : Multiset κ)).dedup := by
      have split : ((((x :: xs) :: gs).flatten.map key : List κ) : Multiset κ) =
          ((xs.map key : List κ) : Multiset κ) +
            (key x ::ₘ ((gs.flatten.map key : List κ) : Multiset κ)) := by
        simp only [flatten_cons, map_append, map_cons]
        rw [Multiset.cons_coe, Multiset.coe_add, Multiset.coe_eq_coe]
        exact (@perm_middle _ _ (xs.map key) _).symm
      rw [split]
      have absorbed : ∀ ys : List α, (∀ y ∈ ys, key y = key x) →
          (((ys.map key : List κ) : Multiset κ) +
            (key x ::ₘ ((gs.flatten.map key : List κ) : Multiset κ))).dedup =
          (key x ::ₘ ((gs.flatten.map key : List κ) : Multiset κ)).dedup := by
        intro ys
        induction ys with
        | nil => simp
        | cons y ys ihy =>
          intro all
          have := ihy (fun z mem => all z (by simp [mem]))
          rw [map_cons, ← Multiset.cons_coe, Multiset.cons_add, all y (by simp),
            Multiset.dedup_cons_of_mem (by simp), this]
      rw [absorbed xs (fun y mem => headKey y (by simp [mem]))]
      refine Multiset.dedup_cons_of_notMem ?_
      rw [Multiset.mem_coe, mem_map]
      rintro ⟨y, mem, equal⟩
      exact outside y mem equal
    have headBucket : bucket key (((x :: xs) :: gs).flatten) (key x) = ((x :: xs : List α) : Multiset α) := by
      simp only [bucket, flatten_cons]
      rw [← Multiset.coe_add, Multiset.filter_add,
        Multiset.filter_eq_self.mpr (fun y mem => headKey y (Multiset.mem_coe.mp mem)),
        Multiset.filter_eq_nil.mpr (fun y mem => outside y (Multiset.mem_coe.mp mem)), add_zero]
    have tailBucket : ∀ k ∈ (((gs.flatten.map key : List κ) : Multiset κ)).dedup,
        bucket key (((x :: xs) :: gs).flatten) k = bucket key gs.flatten k := by
      intro k mem
      have differ : key x ≠ k := by
        intro equal
        rw [Multiset.mem_dedup, Multiset.mem_coe, mem_map] at mem
        obtain ⟨y, inTail, keyEq⟩ := mem
        exact outside y inTail (keyEq.trans equal.symm)
      simp only [bucket, flatten_cons]
      rw [← Multiset.coe_add, Multiset.filter_add, Multiset.filter_eq_nil.mpr, zero_add]
      intro y mem equal
      exact differ ((headKey y (Multiset.mem_coe.mp mem)).symm.trans equal)
    have split : groupSet ((x :: xs) :: gs) = Multiset.ofList (x :: xs) ::ₘ groupSet gs := rfl
    rw [split, ih tail, keys, Multiset.map_cons, headBucket, Multiset.map_congr rfl tailBucket]

/-- Two groupings of the same members have the same groups. -/
theorem grouped_unique {gs gs' : List (List α)} (left : Grouped key gs) (right : Grouped key gs')
    (members : gs.flatten.Perm gs'.flatten) :
    groupSet gs = groupSet gs' := by
  rw [bucket_eq_of_grouped left, bucket_eq_of_grouped right]
  have coe : (gs.flatten : Multiset α) = gs'.flatten := Multiset.coe_eq_coe.mpr members
  have keys : ((gs.flatten.map key : List κ) : Multiset κ) = (gs'.flatten.map key : List κ) :=
    Multiset.coe_eq_coe.mpr (members.map key)
  rw [keys]
  refine Multiset.map_congr rfl fun k _ => ?_
  rw [bucket, bucket, coe]

end Unique

end Hnatsd.Misc
